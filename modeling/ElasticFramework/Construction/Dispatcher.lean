import ElasticFramework.Construction.Registry
import ElasticFramework.Framework.Transition
import Mathlib.Logic.Function.Basic

/-!
# The dispatcher

A `Run` thread (`dispatcher/dispatcher.cc`) for each connection, with the handlers it calls
(`dispatcher/handler.cc`) and the registry that all of them share.

## Granularity

What a handler does under a lock is one step: `Dispatch`, `chooseBestCN`, `AddCN`, the two updates
of `HandlerLoadInfo`, `DelCN`.  The step that receives a message goes up to the end of the first
such section, and each `GetCN` after it, which takes no lock, is a step of its own, with the
`set_weight` of `HandlerGetBindingCN` that follows it.

Messages are given by the fields that matter; what clients are sent is left out, and sending does
not fail.  The process is over when an assertion fails or an array has a negative size.  A write
past the end of the array of `chooseBestCN` has no effect here.
-/

namespace ElasticFramework

/-- `dispatcher_msg_type`, with the fields. -/
inductive DispatcherMsg (K : Type*)
  | getBindingCN
  | loadInfo (cnId : ℤ) (weight usedTime : K)
  | cnReg (capacity : K)
  | getBestCN (levelCnt : ℤ)
  | updateScore (cnId : ℤ)
  /-- A type that `Run` does not know. -/
  | unknown

/-- `client_type` of `Run`. -/
inductive ClientType
  | unset
  | app
  | cn
  deriving DecidableEq, Repr

/-- A `Run` thread. -/
structure RunThread where
  clientType : ClientType
  cnId : ℤ
  /-- The keys its handler has yet to give to `GetCN`. -/
  keys : List ℤ
  /-- The handler is `HandlerGetBindingCN`. -/
  binding : Bool
  returned : Bool

/-- `Run` at its start. -/
def RunThread.init : RunThread where
  clientType := .unset
  cnId := -1
  keys := []
  binding := false
  returned := false

/-- The registry and the threads. -/
structure Dispatcher (C K : Type*) where
  registry : Registry K
  thread : C → RunThread
  /-- The process has ended. -/
  down : Bool

/-- Who moves. -/
inductive DispatcherStep (C K : Type*)
  /-- A message is received and handled up to the end of its locked section; `junk` is what the
  array of `chooseBestCN` holds before. -/
  | receive (c : C) (m : DispatcherMsg K) (junk : ℕ → ℤ)
  | getCN (c : C)
  /-- `recv` returns zero, or an error. -/
  | close (c : C) (orderly : Bool)
  /-- The map changes the order in which it is iterated. -/
  | reorder (i : ℕ)

namespace Dispatcher

variable {C K : Type*} [DecidableEq C]

def setThread (s : Dispatcher C K) (c : C) (t : RunThread) : Dispatcher C K :=
  { s with thread := Function.update s.thread c t }

/-- `Run` returns; the clean-up is on the way of an orderly end. -/
def close (s : Dispatcher C K) (c : C) (orderly : Bool) : Option (Dispatcher C K) :=
  let t := s.thread c
  if t.returned ∨ t.keys ≠ [] then none
  else
    let s' := s.setThread c { t with returned := true }
    if orderly ∧ t.clientType = .cn then some { s' with registry := s.registry.delCN t.cnId }
    else some s'

variable [Arith K]

def init : Dispatcher C K where
  registry := .init
  thread _ := .init
  down := false

/-- The message goes to its handler. -/
def handle (s : Dispatcher C K) (c : C) (m : DispatcherMsg K) (junk : ℕ → ℤ) : Dispatcher C K :=
  let t := s.thread c
  match m with
  | .getBindingCN =>
    s.setThread c { t with
      clientType := .app, keys := [s.registry.dispatch 1], binding := true }
  | .loadInfo cnId weight usedTime =>
    { s.setThread c { t with keys := [cnId], binding := false } with
      registry := ((s.registry.updateCNWeight cnId weight).2.updateCNUsedTime cnId usedTime).2 }
  | .cnReg capacity =>
    { s.setThread c { t with clientType := .cn, cnId := (s.registry.addCN capacity).1 } with
      registry := (s.registry.addCN capacity).2 }
  | .getBestCN levelCnt =>
    if levelCnt < 0 then { s with down := true }
    else s.setThread c { t with
      clientType := .app
      keys := (List.range levelCnt.toNat).map (s.registry.chooseBestCN junk)
      binding := false }
  -- A file is written, and `UpdateCNScore` does nothing.
  | .updateScore _ => s
  | .unknown => { s with down := true }

def receive (s : Dispatcher C K) (c : C) (m : DispatcherMsg K) (junk : ℕ → ℤ) :
    Option (Dispatcher C K) :=
  if (s.thread c).returned ∨ (s.thread c).keys ≠ [] then none else some (s.handle c m junk)

/-- `GetCN` of the next key. -/
def getCN (s : Dispatcher C K) (c : C) : Option (Dispatcher C K) :=
  match (s.thread c).keys with
  | [] => none
  | key :: keys =>
    match s.registry.getCN key with
    | none => some { s with down := true }
    | some _ =>
      let s' := s.setThread c { s.thread c with keys := keys }
      some (if (s.thread c).binding then
        { s' with registry := s.registry.modify key fun cn => { cn with weight := cn.weight + 1 } }
      else s')

def move (s : Dispatcher C K) : DispatcherStep C K → Option (Dispatcher C K)
  | .receive c m junk => s.receive c m junk
  | .getCN c => s.getCN c
  | .close c orderly => s.close c orderly
  | .reorder i => some { s with registry := s.registry.reorder i }

end Dispatcher

/-- The dispatcher, over when the process is. -/
def dispatcher {C K : Type*} [DecidableEq C] [Arith K] :
    Machine (Dispatcher C K) (DispatcherStep C K) where
  step := fun s l => if s.down then none else s.move l

end ElasticFramework
