import ElasticFramework.Framework.Loop
import ElasticFramework.Construction.Handlers

/-!
# Partial transfers

`SockSend` and `SockRecv` (`common/IO.cc`, and again `common_client/IO.cc`) call `send` and `recv`
until the buffer is through.  All four loops are one: what is missing is offered or requested at
the end of what has been transferred, the result is added to an `unsigned int`, and it goes on
until this is the length of the buffer.  The one that differs is the `SockSend` of the client,
which sends from a copy in a `std::vector<char>` and computes with its `size()`, a `size_t`.

The result of `send` and `recv` is a `ssize_t`; `send_size` and `recv_size` are `int`.
-/

namespace ElasticFramework

/-- A `bufLen`, for which something is to be transferred. -/
structure BufLen where
  val : ℕ
  pos : 0 < val
  lt : val < 2 ^ 32

/-- A buffer that is sent. -/
structure SockBuffer where
  bytes : List UInt8
  bufLen : BufLen
  length_bytes : bytes.length = bufLen.val

/-- What the calls of a transfer return, by their number and by what they are asked for: at least
`1` and no more than that. -/
structure Results where
  size : ℕ → ℕ → ℕ
  size_pos : ∀ i m, 0 < m → 0 < size i m
  size_le : ∀ i m, size i m ≤ m

namespace Results

variable (results : Results)

/-- How far a transfer of `n` bytes is after `i` calls. -/
def sum (n : ℕ) : ℕ → ℕ
  | 0 => 0
  | i + 1 => sum n i + results.size i (n - sum n i)

/-- No call that a transfer of `n` bytes needs returns more than an `int` holds. -/
def FitInt (n : ℕ) : Prop :=
  ∀ i, results.sum n i < n → results.size i (n - results.sum n i) < 2 ^ 31

end Results

/-- The conversion to `int`. -/
def toInt (n : ℕ) : ℤ := (n : ℤ).bmod (2 ^ 32)

/-- How the functions are left. -/
inductive SockExit
  | returned (n : ℤ)
  /-- `exit(1)` behind the loop. -/
  | error
  /-- `exit(1)` in the loop. -/
  | tooMuchData
  deriving DecidableEq, Repr

/-- What a loop keeps: the number of calls that have returned, `total_send_size` or
`total_recv_size`, and what the calls have their effect on. -/
structure TransferState (ω : Type*) where
  calls : ℕ
  total : ℕ
  world : ω

/-- What the loops differ in: the number of bits of the length, the length, and what a call does
that transfers a number of bytes from an offset on.  Two calls do what one does for all of it. -/
structure TransferLoop (ω : Type*) where
  bits : ℕ
  le_bits : 32 ≤ bits
  bufLen : BufLen
  call : ℕ → ℕ → ω → ω
  call_zero : ∀ offset w, call offset 0 w = w
  call_add : ∀ offset m k w, call (offset + m) k (call offset m w) = call offset (m + k) w

namespace TransferLoop

variable {ω : Type*} (io : TransferLoop ω) (results : Results)

def init (w : ω) : TransferState ω where
  calls := 0
  total := 0
  world := w

/-- The length less what has been transferred, in unsigned arithmetic. -/
def remaining (s : TransferState ω) : ℕ := (((io.bufLen.val : ℤ) - s.total) % 2 ^ io.bits).toNat

/-- The condition of the loop, in which the call is made, and its body. -/
def round (s : TransferState ω) : Round (TransferState ω) (SockExit × ω) :=
  let size := results.size s.calls (io.remaining s)
  let world := io.call s.total size s.world
  if 0 < toInt size then
    let total := (s.total + (toInt size).toNat) % 2 ^ 32
    if io.bufLen.val = total then .quit (.returned (toInt total), world)
    else if io.bufLen.val < total then .quit (.tooMuchData, world)
    else .again ⟨s.calls + 1, total, world⟩
  else .quit (.error, world)

/-- The function returns and all bytes are through, no call is given a range that goes beyond the
buffer, and the function is not left for too much data. -/
structure Transfers (w after : ω) : Prop where
  returns : ∃ n, Loop.Ends (io.round results) (init w) (.returned n, after)
  inBounds : ∀ s, Loop.Visits (io.round results) (init w) s →
    s.total + io.remaining s ≤ io.bufLen.val
  not_tooMuchData : ∀ w', ¬ Loop.Ends (io.round results) (init w) (.tooMuchData, w')

end TransferLoop

/-! ## Sending -/

/-- A call of `send` hands over bytes of the data. -/
def handOver (data : List UInt8) (offset size : ℕ) (wire : List UInt8) : List UInt8 :=
  wire ++ (data.drop offset).take size

lemma handOver_add (data : List UInt8) (offset m k : ℕ) (wire : List UInt8) :
    handOver data (offset + m) k (handOver data offset m wire) =
      handOver data offset (m + k) wire := by
  rw [handOver, handOver, handOver, List.append_assoc, List.take_add, List.drop_drop]

lemma handOver_all {data : List UInt8} {n : ℕ} (h : data.length = n) (wire : List UInt8) :
    handOver data 0 n wire = wire ++ data := by
  rw [handOver, List.drop_zero, ← h, List.take_length]

/-- The `SockSend` of `common`. -/
def Common.sockSend (buf : SockBuffer) : TransferLoop (List UInt8) where
  bits := 32
  le_bits := le_rfl
  bufLen := buf.bufLen
  call := handOver buf.bytes
  call_zero _ _ := by rw [handOver, List.take_zero, List.append_nil]
  call_add := handOver_add buf.bytes

namespace CommonClient

/-- The copy that is made with a `back_inserter`. -/
def sendBuf (buf : List UInt8) : List UInt8 := buf.foldl (fun sendBuf c => sendBuf ++ [c]) []

lemma sendBuf_eq (buf : List UInt8) : sendBuf buf = buf := by
  suffices h : ∀ l : List UInt8, buf.foldl (fun sendBuf c => sendBuf ++ [c]) l = l ++ buf from h []
  induction buf with
  | nil => exact fun l => l.append_nil.symm
  | cons c buf ih => exact fun l => (ih (l ++ [c])).trans (List.append_assoc l [c] buf)

/-- The `SockSend` of `common_client`. -/
def sockSend (buf : SockBuffer) : TransferLoop (List UInt8) where
  bits := 64
  le_bits := by decide
  bufLen :=
    { val := (sendBuf buf.bytes).length
      pos := by rw [sendBuf_eq, buf.length_bytes]; exact buf.bufLen.pos
      lt := by rw [sendBuf_eq, buf.length_bytes]; exact buf.bufLen.lt }
  call := handOver (sendBuf buf.bytes)
  call_zero _ _ := by rw [handOver, List.take_zero, List.append_nil]
  call_add := handOver_add (sendBuf buf.bytes)

end CommonClient

/-! ## Receiving -/

/-- The memory from the buffer on, and how far the stream has been read. -/
structure Inbox where
  mem : ℕ → UInt8
  pos : ℕ

/-- A call of `recv` stores the next bytes of the stream. -/
def store (stream : ℕ → UInt8) (offset size : ℕ) (s : Inbox) : Inbox where
  mem i := if offset ≤ i ∧ i < offset + size then stream (s.pos + (i - offset)) else s.mem i
  pos := s.pos + size

lemma store_zero (stream : ℕ → UInt8) (offset : ℕ) (s : Inbox) : store stream offset 0 s = s := by
  have hmem : (store stream offset 0 s).mem = s.mem :=
    funext fun i => if_neg fun h => absurd h.2 (not_lt.2 h.1)
  cases s
  exact congrArg₂ Inbox.mk hmem rfl

lemma store_add (stream : ℕ → UInt8) (offset m k : ℕ) (s : Inbox) :
    store stream (offset + m) k (store stream offset m s) = store stream offset (m + k) s := by
  refine congrArg₂ Inbox.mk (funext fun i => ?_) (Nat.add_assoc s.pos m k)
  by_cases hlate : offset + m ≤ i ∧ i < offset + m + k
  · rw [if_pos hlate, if_pos ⟨by omega, by omega⟩]
    show stream (s.pos + m + (i - (offset + m))) = _
    congr 1
    omega
  · rw [if_neg hlate]
    show (if offset ≤ i ∧ i < offset + m then _ else _) = _
    by_cases hearly : offset ≤ i ∧ i < offset + m
    · rw [if_pos hearly, if_pos ⟨hearly.1, by omega⟩]
    · rw [if_neg hearly, if_neg fun h => by omega]

/-- The buffer holds the next `n` bytes of the stream, and what is behind it is as it was. -/
def Inbox.received (stream : ℕ → UInt8) (n : ℕ) (s : Inbox) : Inbox where
  mem i := if i < n then stream (s.pos + i) else s.mem i
  pos := s.pos + n

lemma store_all (stream : ℕ → UInt8) (n : ℕ) (s : Inbox) :
    store stream 0 n s = s.received stream n := by
  refine congrArg₂ Inbox.mk (funext fun i => ?_) rfl
  simp only [i.zero_le, true_and, Nat.zero_add, Nat.sub_zero]

/-- The `SockRecv` of `common`. -/
def Common.sockRecv (stream : ℕ → UInt8) (bufLen : BufLen) : TransferLoop Inbox where
  bits := 32
  le_bits := le_rfl
  bufLen := bufLen
  call := store stream
  call_zero := store_zero stream
  call_add := store_add stream

/-- The `SockRecv` of `common_client`. -/
def CommonClient.sockRecv (stream : ℕ → UInt8) (bufLen : BufLen) : TransferLoop Inbox where
  bits := 32
  le_bits := le_rfl
  bufLen := bufLen
  call := store stream
  call_zero := store_zero stream
  call_add := store_add stream

end ElasticFramework
