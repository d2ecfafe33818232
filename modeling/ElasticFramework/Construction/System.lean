import ElasticFramework.Construction.Node
import ElasticFramework.Framework.Transition

/-!
# The compute node as a concurrent system

Two kinds of thread share a `Node`: the device workers, each in the loop of `DevScheduler`
(`cn.cc`), and the session threads, each in `Run`.  `State` adds to the node the program counter
of every thread, the holder of the scheduler's `proc_lock_`, and the semaphores of the
`CommandFinish` objects; a `Label` names the thread that moves and what the environment
decides, and `step` is the move.

## Granularity

One critical section is one step: `CommandQueue::Push`, `Pop` and the emptiness test of the
epilogue under the queue's mutex; `CreateVM`, `CreateQueue`, the choice of a queue with its
`set_skip(true)`, and the teardown under `proc_lock_`.  The epilogue of a command holds
`proc_lock_` over four steps (accounting, `Pop`, test, `set_skip(false)`), because `Push` runs
between them without that lock.  `CommandPool::check` is one step.

Workers are `W`, which also serves as the type of device queues: worker `w` serves device `w`.
Session threads are `T`, each used for one connection.
-/

namespace ElasticFramework

variable {K W T : Type*}

/-- Where a device worker is in the loop of `DevScheduler`. -/
inductive WorkerPc (K : Type*)
  /-- In `WaitAndDecrease`. -/
  | waiting
  /-- It took a token and has not called `check` yet. -/
  | holding
  /-- `check` said no; the token goes back. -/
  | refused
  /-- `check` said yes; next is the scheduler lock. -/
  | admitted
  | picked (q : ℕ) (comm : Command K)
  | executing (q : ℕ) (comm : Command K)
  /-- `Exec` has returned, and the time to account is `usedTime`. -/
  | executed (q : ℕ) (comm : Command K) (usedTime : K)
  /-- In the epilogue, the time accounted. -/
  | accounted (q : ℕ)
  | popped (q : ℕ)
  /-- Past the locked emptiness test, which took the branch `increased`. -/
  | tested (q : ℕ) (increased : Bool)

namespace WorkerPc

/-- The worker holds a token it has neither spent on a queue nor put back. -/
def holdsToken : WorkerPc K → Bool
  | holding | refused | admitted => true
  | _ => false

/-- The worker is between taking a token and its final `set_skip(false)`. -/
def busy : WorkerPc K → Bool
  | waiting => false
  | _ => true

/-- The queue the worker has marked as in use. -/
def queue : WorkerPc K → Option ℕ
  | picked q _ | executing q _ | executed q _ _ | accounted q | popped q | tested q _ => some q
  | _ => none

/-- The worker holds `proc_lock_` between two steps. -/
def inEpilogue : WorkerPc K → Bool
  | accounted _ | popped _ | tested _ _ => true
  | _ => false

end WorkerPc

/-- Where a session thread is in `Run`. -/
inductive SessionPc
  | absent
  /-- `CreateVM` has returned `v`. -/
  | connected (v : ℕ)
  /-- `CreateQueue` has returned `q`; `set_binding_dev` is next. -/
  | created (v q : ℕ)
  /-- In the receive loop. -/
  | serving (v q : ℕ)
  /-- In `CommandFinish::Wait` of `HandlerFinish`, on the object at `p`. -/
  | finishing (v q p : ℕ)
  /-- `WaitForFinishing` has returned. -/
  | drained (v q : ℕ)
  | closed
  deriving DecidableEq, Repr

namespace SessionPc

/-- The VM of the session. -/
def vm : SessionPc → Option ℕ
  | connected v | created v _ | serving v _ | finishing v _ _ | drained v _ => some v
  | absent | closed => none

/-- The queue of the session. -/
def queue : SessionPc → Option ℕ
  | created _ q | serving _ q | finishing _ q _ | drained _ q => some q
  | absent | connected _ | closed => none

end SessionPc

/-- The shared objects and the program counters. -/
structure State (K W T : Type*) where
  node : Node K W
  worker : W → WorkerPc K
  /-- The worker inside the epilogue, which holds `proc_lock_` between steps. -/
  procLock : Option W
  session : T → SessionPc
  /-- `CommandFinish::sem` of the object at an address. -/
  finishSem : ℕ → ℕ
  /-- The next address `new` returns. -/
  nextPtr : ℕ

namespace State

/-- The state in which `main` starts the workers and `MainLoop`. -/
def init [Arith K] : State K W T where
  node := Node.init
  worker := fun _ => .waiting
  procLock := none
  session := fun _ => .absent
  finishSem := fun _ => 0
  nextPtr := 0

end State

/-- A move of one thread. -/
inductive Label (K W T : Type*)
  | connect (t : T) (weight : K)
  | createQueue (t : T)
  | bindDev (t : T) (dev : W)
  /-- A handler pushes a command other than a `CommandFinish`. -/
  | push (t : T) (kind : CommandKind)
  /-- `HandlerFinish` pushes its `CommandFinish` and starts to wait. -/
  | finish (t : T)
  /-- `CommandFinish::Wait` returns. -/
  | passWait (t : T)
  /-- `WaitForFinishing` sees the queue empty. -/
  | seeEmpty (t : T)
  /-- `DestroyQueue` and `DestroyVM` under the scheduler lock. -/
  | teardown (t : T)
  | take (w : W)
  | check (w : W)
  | giveBack (w : W)
  | pick (w : W)
  | beginExec (w : W)
  /-- `Exec` returns, and the command accounts `usedTime`. -/
  | endExec (w : W) (usedTime : K)
  | account (w : W)
  | pop (w : W)
  | test (w : W)
  | clearSkip (w : W)

variable [Arith K] [DecidableEq W] [DecidableEq T]

namespace State

/-- Move the program counter of one worker. -/
def goto (s : State K W T) (w : W) (pc : WorkerPc K) : State K W T :=
  { s with worker := Function.update s.worker w pc }

/-- Move the program counter of one session. -/
def enter (s : State K W T) (t : T) (pc : SessionPc) : State K W T :=
  { s with session := Function.update s.session t pc }

def withNode (s : State K W T) (n : Node K W) : State K W T := { s with node := n }

/-- A session pushes a new command on its queue. -/
def pushNew (s : State K W T) (q : ℕ) (kind : CommandKind) : State K W T :=
  { s with node := s.node.push q (Command.new s.nextPtr kind), nextPtr := s.nextPtr + 1 }

/-- The effect of `Exec` on memory the other threads read: `CommandFinish::Exec` posts. -/
def exec (s : State K W T) (comm : Command K) : State K W T :=
  if comm.kind = .finish then
    { s with finishSem := Function.update s.finishSem comm.ptr (s.finishSem comm.ptr + 1) }
  else s

omit [Arith K] [DecidableEq W] [DecidableEq T]

/-- `Exec` writes the semaphores of the finish commands alone. -/
lemma exec_congr {β : Type*} {f : State K W T → β}
    (hf : ∀ (s : State K W T) (finishSem : ℕ → ℕ), f { s with finishSem := finishSem } = f s)
    (s : State K W T) (comm : Command K) : f (s.exec comm) = f s := by
  unfold State.exec
  split
  · exact hf s _
  · rfl

@[simp] lemma exec_worker (s : State K W T) (comm : Command K) :
    (s.exec comm).worker = s.worker :=
  exec_congr (f := State.worker) (fun _ _ => rfl) s comm

@[simp] lemma exec_node (s : State K W T) (comm : Command K) :
    (s.exec comm).node = s.node :=
  exec_congr (f := State.node) (fun _ _ => rfl) s comm

@[simp] lemma exec_session (s : State K W T) (comm : Command K) :
    (s.exec comm).session = s.session :=
  exec_congr (f := State.session) (fun _ _ => rfl) s comm

@[simp] lemma exec_procLock (s : State K W T) (comm : Command K) :
    (s.exec comm).procLock = s.procLock :=
  exec_congr (f := State.procLock) (fun _ _ => rfl) s comm

end State

open State

/-- The moves of a session thread: `Run` and the handlers it calls. -/
def stepSession (s : State K W T) : Label K W T → Option (State K W T)
  | .connect t weight =>
    match s.session t with
    | .absent =>
      if s.procLock = none then
        some ((s.withNode (s.node.createVM weight)).enter t (.connected s.node.nextVM))
      else none
    | _ => none
  | .createQueue t =>
    match s.session t with
    | .connected v =>
      if s.procLock = none then
        some ((s.withNode (s.node.createQueue v)).enter t (.created v s.node.nextQueue))
      else none
    | _ => none
  | .bindDev t dev =>
    match s.session t with
    | .created v q => some ((s.withNode (s.node.setBindingDev q dev)).enter t (.serving v q))
    | _ => none
  | .push t kind =>
    match s.session t with
    | .serving _ q => if kind = .finish then none else some (s.pushNew q kind)
    | _ => none
  | .finish t =>
    match s.session t with
    | .serving v q => some ((s.pushNew q .finish).enter t (.finishing v q s.nextPtr))
    | _ => none
  | .passWait t =>
    match s.session t with
    | .finishing v q p =>
      if s.finishSem p = 0 then none
      else some ({ s with finishSem := Function.update s.finishSem p (s.finishSem p - 1) }.enter
        t (.serving v q))
    | _ => none
  | .seeEmpty t =>
    match s.session t with
    | .serving v q => if (s.node.que q).isEmpty then some (s.enter t (.drained v q)) else none
    | _ => none
  | .teardown t =>
    match s.session t with
    | .drained v q =>
      if s.procLock = none then
        some ((s.withNode ((s.node.destroyQueue q).destroyVM v).2).enter t .closed)
      else none
    | _ => none
  | _ => none

/-- The moves of a device worker: one turn of the loop of `DevScheduler`.  With no queue to
hand out `pick` has no successor: the source dereferences the null pointer. -/
def stepWorker (s : State K W T) : Label K W T → Option (State K W T)
  | .take w =>
    match s.worker w with
    | .waiting => s.node.waitAndDecrease.map fun n => (s.withNode n).goto w .holding
    | _ => none
  | .check w =>
    match s.worker w with
    | .holding => some (s.goto w (if s.node.check w then .admitted else .refused))
    | _ => none
  | .giveBack w =>
    match s.worker w with
    | .refused => some ((s.withNode s.node.increase).goto w .waiting)
    | _ => none
  | .pick w =>
    match s.worker w, s.procLock with
    | .admitted, none =>
      match s.node.inOrderSchedule with
      | none => none
      | some q =>
        match (s.node.que q).queue with
        | [] => none
        | comm :: _ => some ((s.withNode (s.node.setSkip q true)).goto w (.picked q comm))
    | _, _ => none
  | .beginExec w =>
    match s.worker w with
    | .picked q comm => some ((s.exec comm).goto w (.executing q comm))
    | _ => none
  | .endExec w usedTime =>
    match s.worker w with
    | .executing q comm => some (s.goto w (.executed q comm usedTime))
    | _ => none
  | .account w =>
    match s.worker w, s.procLock with
    | .executed q _ usedTime, none =>
      some ({ s.withNode (s.node.account q usedTime) with procLock := some w }.goto w
        (.accounted q))
    | _, _ => none
  | .pop w =>
    match s.worker w with
    | .accounted q => some ((s.withNode (s.node.pop q)).goto w (.popped q))
    | _ => none
  | .test w =>
    match s.worker w with
    | .popped q =>
      if (s.node.que q).isEmpty then some (s.goto w (.tested q false))
      else some ((s.withNode s.node.increase).goto w (.tested q true))
    | _ => none
  | .clearSkip w =>
    match s.worker w with
    | .tested q _ =>
      some ({ s.withNode (s.node.setSkip q false) with procLock := none }.goto w .waiting)
    | _ => none
  | _ => none

/-- One move of the system. -/
def step (s : State K W T) (l : Label K W T) : Option (State K W T) :=
  (stepSession s l).or (stepWorker s l)

/-- The compute node as a machine. -/
def computeNode : Machine (State K W T) (Label K W T) := ⟨step⟩

end ElasticFramework
