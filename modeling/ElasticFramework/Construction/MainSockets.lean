import ElasticFramework.Construction.NodeMemory

/-!
# The node behind its main sockets

`Construction/NodeMemory.lean` takes any requests.  Here they come from the clients: a call puts its
bytes on the main socket of its session, and a round of `Run` makes a request of the bytes it finds
there.  A round for which not enough bytes have come is not over, and one that aborts, exits or
overruns ends the node; neither has a next state.

A client that exits in a call makes no more of them, and what becomes of its session is the matter
of `Construction/Teardown.lean`: the calls here are those a client survives.
-/

namespace ElasticFramework

/-- The node with its memory, and what has been sent to it and not been received. -/
structure Connected (K T : Type*) {W : Type*} (cl : OpenCL W) where
  node : NodeMemory K T cl
  /-- The bytes on the main socket of a session. -/
  sent : T → List UInt8

/-- A client makes a call, `Run` has a round for a session, or the node moves otherwise. -/
inductive ConnectedStep (K W T : Type*)
  | call (t : T) (c : Invocation)
  | round (t : T) (uninitialized : List UInt8)
  | node (m : MemoryStep K W T)

variable {K W T : Type*} {cl : OpenCL W}

/-- The moves that come from a socket. -/
def MemoryStep.fromSocket : MemoryStep K W T → Bool
  | .handle _ _ => true
  | _ => false

variable [Arith K] [DecidableEq W] [DecidableEq T]

namespace Connected

omit [DecidableEq W] [DecidableEq T] in
variable (cl) in
def init : Connected K T cl where
  node := .init cl
  sent := fun _ => []

omit [Arith K] [DecidableEq W] in
/-- The bytes of a call are sent. -/
def call (s : Connected K T cl) (t : T) (c : Invocation) : Option (Connected K T cl) :=
  c.sent.bind fun sent =>
    if sent.exited then none
    else some { s with sent := Function.update s.sent t (s.sent t ++ sent.bytes) }

/-- A round of the loop of `Run`. -/
def round (G : Growth) (s : Connected K T cl) (t : T) (uninitialized : List UInt8) :
    Option (Connected K T cl) :=
  match nextRequest (s.sent t) with
  | (.ok r, rest) => (s.node.handle G t ⟨r, uninitialized⟩).map fun node =>
      { node := node, sent := Function.update s.sent t rest }
  | (.error _, _) => none

end Connected

/-- The clients and the node. -/
def connected (cl : OpenCL W) (G : Growth) : Machine (Connected K T cl) (ConnectedStep K W T) where
  step s
    | .call t c => s.call t c
    | .round t uninitialized => s.round G t uninitialized
    | .node m =>
      if m.fromSocket then none
      else ((nodeMemory cl G).step s.node m).map fun node => { s with node := node }

/-- The calls a session's client has made in a run. -/
def callsOf (t : T) (ls : List (ConnectedStep K W T)) : List Call :=
  ls.filterMap fun
    | .call t' c => if t' = t then some c.call else none
    | _ => none

/-- What the rounds of a session have found in the buffers they created. -/
def newBuffers (t : T) (ls : List (ConnectedStep K W T)) : List (List UInt8) :=
  ls.filterMap fun
    | .round t' uninitialized => if t' = t then some uninitialized else none
    | _ => none

/-- What a step has a session's reads find. -/
def Connected.readsFor (t : T) (s : Connected K T cl) : ConnectedStep K W T → List (List UInt8)
  | .node m => s.node.readsFor t m
  | _ => []

/-- What the reads of a session have found in a run. -/
def readBack (cl : OpenCL W) (G : Growth) (t : T) (ls : List (ConnectedStep K W T)) :
    List (List UInt8) :=
  (connected cl G).trace (Connected.readsFor t) (Connected.init cl) ls

end ElasticFramework
