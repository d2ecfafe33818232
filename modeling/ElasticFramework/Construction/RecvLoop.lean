import ElasticFramework.Construction.Wire
import ElasticFramework.Framework.Transition

/-!
# The loops that receive control messages

`Run` of the compute node (`cn/cn.cc`) and `Run` of the dispatcher (`dispatcher/dispatcher.cc`)
have the same loop: `recv` is asked for what is missing of a message, at the end of what is there,
and when the message is complete its type decides on the handler.  They differ in the type of
`recv_size` and `total_recv_size`, `unsigned int` on the node and `int` on the dispatcher; in that
the node clears its buffer behind every message; and in the messages they know.

A label is what one call of `recv` returns.  The handler of a message takes what it needs off the
socket itself and is over before the next `recv` of the loop; here only the message it is called
with is kept.
-/

namespace ElasticFramework

/-- What a call of `recv` returns. -/
inductive RecvResult
  | data (l : List UInt8)
  | closed
  | error
  deriving DecidableEq, Repr

namespace RecvResult

/-- The number. -/
def size : RecvResult → ℤ
  | data l => l.length
  | closed => 0
  | error => -1

/-- The bytes. -/
def bytes : RecvResult → List UInt8
  | data l => l
  | closed | error => []

end RecvResult

/-- How a loop goes on. -/
inductive LoopStatus
  | running
  /-- The condition of the loop is false. -/
  | ended
  /-- `assert(false)`, for a message of no known type. -/
  | aborted
  /-- `recv` has written outside the buffer. -/
  | overrun
  deriving DecidableEq, Repr

/-- What a loop keeps. -/
structure RecvLoop where
  totalRecvSize : ℤ
  buf : List UInt8
  status : LoopStatus

/-- What the loops differ in. -/
structure LoopKind where
  /-- The conversion to the type of `recv_size` and `total_recv_size`. -/
  convert : ℤ → ℤ
  /-- The type holds every size up to that of a message. -/
  convert_eq : ∀ n : ℤ, 0 ≤ n → n ≤ kMsgMaxSize → convert n = n
  /-- What is done to the buffer behind a message. -/
  clear : List UInt8 → List UInt8
  length_clear : ∀ buf, buf.length = kMsgMaxSize → (clear buf).length = kMsgMaxSize
  /-- The messages there is a handler for. -/
  known : List UInt8 → Bool

namespace RecvLoop

/-- `kMsgMaxSize - total_recv_size`, as an `unsigned int`. -/
def requested (s : RecvLoop) : ℕ := ((kMsgMaxSize - s.totalRecvSize) % 2 ^ 32).toNat

/-- The buffer after `recv` has written to `buf + total_recv_size`. -/
def written (s : RecvLoop) : RecvResult → Option (List UInt8)
  | .data l => (Draft.paste ⟨s.buf, s.totalRecvSize.toNat⟩ l).map Draft.buf
  | .closed | .error => some s.buf

end RecvLoop

namespace LoopKind

variable (L : LoopKind)

def init (buf : MsgBuf) : RecvLoop where
  totalRecvSize := 0
  buf := buf
  status := .running

/-- The condition of the loop and its body, for a `recv` that has left `buf` in the buffer and
returned `n`. -/
def round (s : RecvLoop) (buf : List UInt8) (n : ℤ) : RecvLoop :=
  let recvSize := L.convert n
  if 0 < recvSize then
    let totalRecvSize := L.convert (s.totalRecvSize + recvSize)
    if totalRecvSize = kMsgMaxSize then
      { totalRecvSize := 0
        buf := L.clear buf
        status := if L.known buf then .running else .aborted }
    else { s with totalRecvSize := totalRecvSize, buf := buf }
  else { s with status := .ended }

/-- One call of `recv` and what follows it.  It returns no more than it is asked for. -/
def machine : Machine RecvLoop RecvResult where
  step s r :=
    if s.status = .running ∧ r.bytes.length ≤ s.requested ∧ r ≠ .data [] then
      match s.written r with
      | some buf => some (L.round s buf r.size)
      | none => some { s with status := .overrun }
    else none

/-- The messages whose type is looked at. -/
def dispatched (s : RecvLoop) (r : RecvResult) : List (List UInt8) :=
  match s.written r with
  | some buf =>
    if 0 < L.convert r.size ∧ L.convert (s.totalRecvSize + L.convert r.size) = kMsgMaxSize then
      [buf]
    else []
  | none => []

end LoopKind

/-- The loop of `cn.cc`. -/
def Cn.loop : LoopKind where
  convert n := n % 2 ^ 32
  convert_eq n hn hle := Int.emod_eq_of_lt hn (lt_of_le_of_lt hle (by decide))
  clear _ := zeroed
  length_clear _ _ := zeroed.2
  known buf := decide (field buf 0 4 ≤ 12)

/-- The loop of `dispatcher.cc`, whose message types are `0` to `4`, in one byte. -/
def Dispatcher.loop : LoopKind where
  convert n := n
  convert_eq _ _ _ := rfl
  clear buf := buf
  length_clear _ h := h
  known buf := decide (field buf 0 1 ≤ 4)

end ElasticFramework
