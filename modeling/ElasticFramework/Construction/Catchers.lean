import ElasticFramework.Framework.Transition
import Mathlib.Algebra.Order.Ring.Nat

/-!
# Catchers of non-blocking reads

`clEnqueueReadBuffer` starts a `catcher` thread for a read that does not block its caller.  The
thread receives as many bytes as were asked for on the one non-blocking socket of the session,
straight into the caller's buffer, and answers with a byte.  On the node the reads of a session are
executed in order; `CommandRead::Exec` sends what it has read and waits for a byte before it is
done.

Neither side says which read it is talking about.  A catcher takes what is on the socket when it is
scheduled, any number of bytes at a time, and the worker takes any byte for its acknowledgement.

Lengths are taken as an `unsigned int` on both sides; to transfer nothing exits the process, which
is a step nobody can take here.
-/

namespace ElasticFramework

/-- A read that does not block, in the order they are asked for. -/
structure PendingRead where
  /-- What the read comes to on the node. -/
  data : List UInt8
  /-- What the catcher has put into the caller's buffer. -/
  dest : List UInt8
  /-- The catcher has sent its acknowledgement. -/
  acked : Bool
  deriving DecidableEq

namespace PendingRead

/-- The number of bytes that travel. -/
def size (r : PendingRead) : ℕ := r.data.length % 2 ^ 32

/-- The bytes that the catcher still waits for. -/
def left (r : PendingRead) : ℕ := r.size - r.dest.length

end PendingRead

/-- The reads of a session, the non-blocking socket, and the worker. -/
structure ReadSession where
  reads : List PendingRead
  /-- How many reads have been executed, the one that waits for its acknowledgement included. -/
  executed : ℕ
  awaiting : Bool
  /-- The bytes on their way to the client. -/
  wire : List UInt8
  /-- The acknowledgements on their way to the node. -/
  acks : ℕ
  deriving DecidableEq

inductive ReadStep
  | enqueueReadBuffer (data : List UInt8)
  /-- `CommandRead::Exec` sends its data. -/
  | exec
  /-- The catcher of a read receives some bytes. -/
  | receive (i n : ℕ)
  /-- It has received all of its bytes and acknowledges. -/
  | acknowledge (i : ℕ)
  /-- The worker receives an acknowledgement. -/
  | resume
  deriving DecidableEq

namespace ReadSession

def init : ReadSession where
  reads := []
  executed := 0
  awaiting := false
  wire := []
  acks := 0

def enqueueReadBuffer (s : ReadSession) (data : List UInt8) : ReadSession :=
  { s with reads := s.reads ++ [⟨data, [], false⟩] }

def exec (s : ReadSession) : Option ReadSession :=
  match s.awaiting, s.reads[s.executed]? with
  | false, some r =>
    if r.size = 0 then none
    else some { s with
      executed := s.executed + 1, awaiting := true, wire := s.wire ++ r.data.take r.size }
  | _, _ => none

def receive (s : ReadSession) (i n : ℕ) : Option ReadSession :=
  match s.reads[i]? with
  | some r =>
    if 0 < n ∧ n ≤ r.left ∧ n ≤ s.wire.length then
      some { s with
        reads := s.reads.set i { r with dest := r.dest ++ s.wire.take n }
        wire := s.wire.drop n }
    else none
  | none => none

def acknowledge (s : ReadSession) (i : ℕ) : Option ReadSession :=
  match s.reads[i]? with
  | some r =>
    if r.size ≠ 0 ∧ r.left = 0 ∧ r.acked = false then
      some { s with reads := s.reads.set i { r with acked := true }, acks := s.acks + 1 }
    else none
  | none => none

def resume (s : ReadSession) : Option ReadSession :=
  if s.awaiting ∧ 0 < s.acks then some { s with awaiting := false, acks := s.acks - 1 } else none

end ReadSession

/-- The reads of a session in whatever order the catchers are scheduled. -/
def readSession : Machine ReadSession ReadStep where
  step := fun s l =>
    match l with
    | .enqueueReadBuffer data => some (s.enqueueReadBuffer data)
    | .exec => s.exec
    | .receive i n => s.receive i n
    | .acknowledge i => s.acknowledge i
    | .resume => s.resume

end ElasticFramework
