import ElasticFramework.Construction.Handlers

/-!
# The loops over the buffer arguments

`clEnqueueNDRangeKernel` sends `changed_mem_id` twelve entries to a message, and
`HandlerEnqueueNDRangeKernel` receives it in the same portions.  Both run over the same pairs of
`i` and `j`; the client pastes at a running offset, while the handler computes where the entry is
from `j`, and both have a case for the last message.

`sendMems` and `recvEntries` are these loops with the list itself cut into portions; here they are
as they are written, with `elastic.cc` and `newscl.cc` alike.  A `Paste` past the end of
`arg_send_buf`, an index past the end of the list and a read past the end of `arg_recv_buf` have no
result.
-/

namespace ElasticFramework

/-- `max_mem_in_msg` and `max_arg_in_msg`. -/
def maxMemInMsg : ℕ := kMsgMaxSize / (1 + 4)

/-- `mem_send_times` and `send_times`. -/
def memSendTimes (count : ℕ) : ℕ := (count + maxMemInMsg - 1) / maxMemInMsg

/-- The values of `j` in round `i`. -/
def roundOf (count times i : ℕ) : List ℕ :=
  let endJ := if i + 1 = times then count else (i + 1) * maxMemInMsg
  List.range' (i * maxMemInMsg) (endJ - i * maxMemInMsg)

/-! ## The client -/

/-- The two `Paste`s for an entry. -/
def pasteEntry (b : Draft) (x : ℕ × ℕ) : Option Draft := do
  let b ← b.paste (leBytes 1 x.1)
  b.paste (leBytes 4 x.2)

/-- Round `i`: what is left in `arg_send_buf`. -/
def sendRound (changedMemId : List (ℕ × ℕ)) (times i : ℕ) (buf : List UInt8) :
    Option (List UInt8) :=
  ((roundOf changedMemId.length times i).foldlM (fun b j => do
    let x ← changedMemId[j]?
    pasteEntry b x) (⟨buf, 0⟩ : Draft)).map Draft.buf

/-- The `n` rounds from `i` on. -/
def sendRounds (changedMemId : List (ℕ × ℕ)) (times : ℕ) :
    ℕ → ℕ → List UInt8 → Option (List (List UInt8))
  | 0, _, _ => some []
  | n + 1, i, buf => do
    let buf ← sendRound changedMemId times i buf
    let more ← sendRounds changedMemId times n (i + 1) buf
    some (buf :: more)

/-- The messages with the buffer arguments. -/
def sendChangedMemId (argSendBuf : MsgBuf) (changedMemId : List (ℕ × ℕ)) :
    Option (List (List UInt8)) :=
  let times := memSendTimes changedMemId.length
  sendRounds changedMemId times times 0 argSendBuf

/-! ## The handler -/

/-- `arg_index` and `arg_mem_id`. -/
def recvEntry (buf : List UInt8) (j : ℕ) : Option (ℕ × ℕ) := do
  let argIndex ← readAt buf ((1 + 4) * (j % maxMemInMsg)) 1
  let argMemId ← readAt buf ((1 + 4) * (j % maxMemInMsg) + 1) 4
  some (argIndex, argMemId)

/-- The `AddArg`s of a round, after those that have been made. -/
def addRound (buf : List UInt8) : List ℕ → List (ℕ × ℕ) → Except Stop (List (ℕ × ℕ))
  | [], args => .ok args
  | j :: js, args =>
    match recvEntry buf j with
    | none => .error .overrun
    | some x => if x.2 ≠ nullMemId then addRound buf js (args ++ [x]) else .error .abort

/-- The `n` rounds from `i` on. -/
def recvRounds (count times : ℕ) : ℕ → ℕ → List (ℕ × ℕ) → Recv (List (ℕ × ℕ))
  | 0, _, args => pure args
  | n + 1, i, args => do
    let buf ← sockRecv kMsgMaxSize
    match addRound buf (roundOf count times i) args with
    | .ok args => recvRounds count times n (i + 1) args
    | .error e => Reader.stop e

/-- The buffer arguments of a launch with `num_of_changed_mem_id` of them. -/
def recvChangedMemId (numOfChangedMemId : ℕ) : Recv (List (ℕ × ℕ)) :=
  if numOfChangedMemId ≠ 0 then
    let times := memSendTimes numOfChangedMemId
    recvRounds numOfChangedMemId times times 0 []
  else pure []

end ElasticFramework
