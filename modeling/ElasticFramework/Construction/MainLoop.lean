import ElasticFramework.Framework.Transition
import Mathlib.Logic.Function.Basic

/-!
# How a session gets its sockets

A client connects to the main, the non-blocking and the finish port of the compute node, in that
order (`ElasticClient::GetDevices`).  On the node `SocketIOServer::MainLoop` accepts on the main
port, leaves the socket in one of `max_connections_` cells of `tmpSock`, and starts a `Run` thread
with the cell's address; the thread reads the cell and accepts on the two other listening sockets,
which all threads share.

A socket is named by the client at its other end; which port it belongs to is clear from where it
is kept.  The kernel completes a `connect` on its own and queues the connection, so clients and
node move independently, and `accept` takes the connections of a port in arrival order.
-/

namespace ElasticFramework

/-- The listening sockets of the compute node. -/
inductive Port
  | main
  | nonBlocking
  | finish
  deriving DecidableEq, Repr

/-- How far a client is in `GetDevices`. -/
inductive ClientPc
  | absent
  | gotMain
  | gotNonBlocking
  | gotFinish
  deriving DecidableEq, Repr

namespace ClientPc

/-- The port a client connects to next. -/
def port : ClientPc → Option Port
  | absent => some .main
  | gotMain => some .nonBlocking
  | gotNonBlocking => some .finish
  | gotFinish => none

def next : ClientPc → ClientPc
  | absent => gotMain
  | gotMain => gotNonBlocking
  | gotNonBlocking | gotFinish => gotFinish

end ClientPc

/-- How far a `Run` thread is, with the sockets it has. -/
inductive RunPc (C : Type*)
  | absent
  /-- Created with the address of a cell of `tmpSock`. -/
  | created (cell : ℕ)
  | gotSock (sock : C)
  | gotNonBlocking (sock nonBlockingSock : C)
  | session (sock nonBlockingSock finishSock : C)
  deriving DecidableEq, Repr

/-- The clients, the listening sockets, `MainLoop` and the `Run` threads. -/
structure Listening (C : Type*) where
  client : C → ClientPc
  /-- Connections of a port that nobody has accepted, oldest first. -/
  pending : Port → List C
  /-- `tmpSock`. -/
  tmpSock : ℕ → Option C
  counter : ℕ
  thread : ℕ → RunPc C
  /-- The threads are numbered in the order `pthread_create` made them. -/
  nextThread : ℕ

namespace Listening

variable {C : Type*}

def init : Listening C where
  client := fun _ => .absent
  pending := fun _ => []
  tmpSock := fun _ => none
  counter := 0
  thread := fun _ => .absent
  nextThread := 0

/-- A client connects to its next port. -/
def connect [DecidableEq C] (s : Listening C) (c : C) : Option (Listening C) :=
  match (s.client c).port with
  | none => none
  | some p => some { s with
      client := Function.update s.client c (s.client c).next
      pending := Function.update s.pending p (s.pending p ++ [c]) }

/-- One turn of `MainLoop`. -/
def mainLoop (s : Listening C) (maxConnections : ℕ) : Option (Listening C) :=
  match s.pending .main with
  | [] => none
  | c :: rest => some { s with
      pending := Function.update s.pending .main rest
      tmpSock := Function.update s.tmpSock s.counter (some c)
      thread := Function.update s.thread s.nextThread (.created s.counter)
      nextThread := s.nextThread + 1
      counter := if s.counter = maxConnections - 1 then 0 else s.counter + 1 }

/-- `Run` reads `client_sock` out of its cell. -/
def readSock (s : Listening C) (i : ℕ) : Option (Listening C) :=
  match s.thread i with
  | .created cell =>
    (s.tmpSock cell).map fun c => { s with thread := Function.update s.thread i (.gotSock c) }
  | _ => none

/-- `Run` accepts on the non-blocking port. -/
def acceptNonBlocking (s : Listening C) (i : ℕ) : Option (Listening C) :=
  match s.thread i, s.pending .nonBlocking with
  | .gotSock sock, c :: rest => some { s with
      pending := Function.update s.pending .nonBlocking rest
      thread := Function.update s.thread i (.gotNonBlocking sock c) }
  | _, _ => none

/-- `Run` accepts on the finish port. -/
def acceptFinish (s : Listening C) (i : ℕ) : Option (Listening C) :=
  match s.thread i, s.pending .finish with
  | .gotNonBlocking sock nonBlockingSock, c :: rest => some { s with
      pending := Function.update s.pending .finish rest
      thread := Function.update s.thread i (.session sock nonBlockingSock c) }
  | _, _ => none

end Listening

/-- Who moves. -/
inductive Handshake (C : Type*)
  | connect (c : C)
  | mainLoop
  | readSock (i : ℕ)
  | acceptNonBlocking (i : ℕ)
  | acceptFinish (i : ℕ)
  deriving DecidableEq, Repr

/-- The set-up of sessions, with `max_connections_` cells in `tmpSock`. -/
def listening (C : Type*) [DecidableEq C] (maxConnections : ℕ) :
    Machine (Listening C) (Handshake C) where
  step := fun s l =>
    match l with
    | .connect c => s.connect c
    | .mainLoop => s.mainLoop maxConnections
    | .readSock i => s.readSock i
    | .acceptNonBlocking i => s.acceptNonBlocking i
    | .acceptFinish i => s.acceptFinish i

end ElasticFramework
