import ElasticFramework.Construction.Wire
import ElasticFramework.Framework.Decimal
import ElasticFramework.Framework.Transition

/-!
# Handles of the client and vectors of the node

A session's programs, kernels and buffers are in three vectors of `Run`, and the client names them
by index.  The three kinds come to their ids in three ways.  `HandlerCreateProgramWithSource` sends
the index as a number, `HandlerCreateKernel` as text, both in front of the main socket; the handle
has what the client finds there.  A buffer's id is counted by the client alone
(`static unsigned int mem_id`), and no handler compares it with `mems`.  To release a buffer takes
nothing out of `mems`.

## The machine

Calls are numbered in the order they are made, and the vectors hold the number of the call that each
object was created for.  Requests are read in the order they are sent, whole.  The client makes its
calls from one thread, which reads sixty-four bytes of the main socket after every request that is
answered there, but `cb` bytes of the non-blocking socket after a blocking read, although
`HandlerEnqueueReadBuffer` answers that on the main socket too.  The bytes of the main socket are
kept as they are, those of the non-blocking socket only counted: it matters how many the caller
leaves to the catchers, whose acknowledgement the worker waits for.

Only reads are kept on the queue.  A handler that waits for its command may be woken at any time
after that has been executed, or never.  A request that the node cannot carry out, or a transfer of
nothing, ends a process and has no step.
-/

namespace ElasticFramework

/-! ## Requests and replies -/

/-- The vectors of `Run`. -/
inductive ObjectKind
  | program
  | kernel
  | mem
  deriving DecidableEq, Repr

/-- A request of the session, as far as ids and replies go. -/
inductive HandleCall
  | createProgramWithSource
  | createKernel
  | createBuffer
  | releaseMemObject
  /-- A read, with the bytes it comes to. -/
  | enqueueReadBuffer (blockingRead : Bool) (data : List UInt8)
  /-- Any other request, with what its handler answers on the main socket. -/
  | other (reply : Option MsgBuf)

namespace HandleCall

/-- The vector the handler puts the new object into. -/
def kind : HandleCall → Option ObjectKind
  | createProgramWithSource => some .program
  | createKernel => some .kernel
  | createBuffer => some .mem
  | _ => none

/-- The caller reads the reply on the main socket. -/
def answered : HandleCall → Bool
  | createProgramWithSource | createKernel | other (some _) => true
  | _ => false

/-- The id of the new object comes with the reply. -/
def named : HandleCall → Bool
  | createProgramWithSource | createKernel => true
  | _ => false

end HandleCall

/-- What `HandlerCreateProgramWithSource` sends: `program_id` and the error code. -/
def programReply (programId : ℕ) : List UInt8 :=
  leBytes 4 programId ++ (leBytes 4 0 ++ List.replicate 56 0)

/-- The text in front of a kernel's id. -/
def kernelIdText : List UInt8 :=
  ['k', 'e', 'r', 'n', 'e', 'l', ' ', 'i', 'd', ':'].map byteOfChar

/-- What `HandlerCreateKernel` sends: the error code and what `snprintf` writes behind it. -/
def kernelReply (index : ℕ) : List UInt8 :=
  leBytes 4 0 ++
    ((kernelIdText ++ (printed index ++ List.replicate kMsgMaxSize 0)).take 59 ++ [0])

/-- What the handler sends when the vector for the new object has `size` elements. -/
def HandleCall.reply (size : ℕ) : HandleCall → List UInt8
  | createProgramWithSource => programReply size
  | createKernel => kernelReply size
  | other (some reply) => reply
  | _ => []

/-- `sscanf` with `kernel id:%d`; a number that is no `int` is not defined. -/
def scanKernelId (text : List UInt8) : Option ℕ :=
  if text.take kernelIdText.length = kernelIdText then
    (scanned (text.drop kernelIdText.length)).filter (· < 2 ^ 31)
  else none

/-- A handle: the call it comes from, and the id in it unless none was stored. -/
structure Handle where
  call : ℕ
  kind : ObjectKind
  id : Option ℕ
  deriving DecidableEq, Repr

/-- The handles the caller makes of the reply. -/
def HandleCall.handles (call : ℕ) (recvBuf : List UInt8) : HandleCall → List Handle
  | createProgramWithSource => [⟨call, .program, some (field recvBuf 0 4)⟩]
  | createKernel => [⟨call, .kernel, scanKernelId (recvBuf.drop 4)⟩]
  | _ => []

/-! ## The state -/

/-- What the caller's thread reads. -/
inductive CallerWait
  | message (call : ℕ) (c : HandleCall)
  | data (left : ℕ)

namespace HandleCall

/-- What the caller's thread reads after the request. -/
def waits (call : ℕ) : HandleCall → Option CallerWait
  | enqueueReadBuffer true data => some (.data (data.length % 2 ^ 32))
  | c => if c.answered then some (.message call c) else none

/-- The bytes the call's `catcher` wants. -/
def catches : HandleCall → List ℕ
  | enqueueReadBuffer false data => [data.length % 2 ^ 32]
  | _ => []

/-- A read of nothing ends the client. -/
def exits : HandleCall → Bool
  | enqueueReadBuffer _ data => data.length % 2 ^ 32 = 0
  | _ => false

end HandleCall

/-- Where `Run` is: a blocking read waits for its command before it answers. -/
inductive HandlerTurn
  | recv
  | block (data : List UInt8)
  | send (data : List UInt8)

/-- A client and the `Run` thread that serves it. -/
structure HandleSession where
  made : ℕ
  /-- `static unsigned int mem_id`. -/
  memId : ℕ
  handles : List Handle
  waiting : Option CallerWait
  /-- The bytes each `catcher` thread still wants. -/
  catchers : List ℕ
  acks : ℕ
  /-- The requests sent and not read. -/
  inbox : List (ℕ × HandleCall)
  /-- The main socket, to the client. -/
  wire : List UInt8
  /-- The bytes on the non-blocking socket. -/
  dataWire : ℕ
  run : HandlerTurn
  queue : List (Bool × List UInt8)
  /-- The worker waits for an acknowledgement. -/
  awaiting : Bool
  /-- `programs`, `kernels` and `mems`, as the calls that the objects were created for. -/
  objects : ObjectKind → List ℕ

namespace HandleSession

def init : HandleSession where
  made := 0
  memId := 0
  handles := []
  waiting := none
  catchers := []
  acks := 0
  inbox := []
  wire := []
  dataWire := 0
  run := .recv
  queue := []
  awaiting := false
  objects _ := []

/-! ## The client's steps -/

/-- A call: the request is sent, and the caller goes on at once, starts a catcher, or waits. -/
def call (s : HandleSession) (c : HandleCall) : Option HandleSession :=
  if s.waiting.isNone ∧ c.exits = false then
    some { s with
      made := s.made + 1
      inbox := s.inbox ++ [(s.made, c)]
      waiting := c.waits s.made
      catchers := s.catchers ++ c.catches
      memId := if c.kind = some .mem then (s.memId + 1) % 2 ^ 32 else s.memId
      handles := if c.kind = some .mem then s.handles ++ [⟨s.made, .mem, some s.memId⟩]
        else s.handles }
  else none

/-- The caller gets its sixty-four bytes of the main socket. -/
def recvMessage (s : HandleSession) : Option HandleSession :=
  match s.waiting with
  | some (.message call c) =>
    if kMsgMaxSize ≤ s.wire.length then
      some { s with
        waiting := none
        wire := s.wire.drop kMsgMaxSize
        handles := s.handles ++ c.handles call (s.wire.take kMsgMaxSize) }
    else none
  | _ => none

/-- The caller gets `n` bytes of the non-blocking socket. -/
def recvData (s : HandleSession) (n : ℕ) : Option HandleSession :=
  match s.waiting with
  | some (.data left) =>
    if 0 < n ∧ n ≤ left ∧ n ≤ s.dataWire then
      some { s with
        waiting := if n = left then none else some (.data (left - n))
        dataWire := s.dataWire - n }
    else none
  | _ => none

/-- The catcher in place `i` gets `n` bytes, and acknowledges after the last. -/
def catcher (s : HandleSession) (i n : ℕ) : Option HandleSession :=
  match s.catchers[i]? with
  | some left =>
    if 0 < n ∧ n ≤ left ∧ n ≤ s.dataWire then
      if n = left then
        some { s with
          catchers := s.catchers.eraseIdx i, acks := s.acks + 1, dataWire := s.dataWire - n }
      else some { s with catchers := s.catchers.set i (left - n), dataWire := s.dataWire - n }
    else none
  | none => none

/-! ## The node's steps -/

/-- The object of a request is put at the end of its vector. -/
def create (s : HandleSession) (call : ℕ) : Option ObjectKind → ObjectKind → List ℕ
  | none => s.objects
  | some kind => Function.update s.objects kind (s.objects kind ++ [call])

/-- The size of the vector, which is the index of the object that comes next. -/
def size (s : HandleSession) (kind : Option ObjectKind) : ℕ :=
  kind.elim 0 fun kind => (s.objects kind).length

/-- A handler creates an object, pushes a read, or does nothing to either, and answers. -/
def handle (s : HandleSession) (call : ℕ) (c : HandleCall) : HandleSession :=
  { s with
    objects := s.create call c.kind
    wire := s.wire ++ c.reply (s.size c.kind)
    queue := match c with
      | .enqueueReadBuffer blockingRead data => s.queue ++ [(blockingRead, data)]
      | _ => s.queue
    run := match c with
      | .enqueueReadBuffer true data => .block data
      | _ => .recv }

/-- A round of `Run`. -/
def serve (s : HandleSession) : Option HandleSession :=
  match s.run, s.inbox with
  | .recv, (call, c) :: inbox => some { s.handle call c with inbox := inbox }
  | _, _ => none

/-- `CommandRead::Exec` of the oldest command. -/
def exec (s : HandleSession) : Option HandleSession :=
  match s.awaiting, s.queue with
  | false, (true, _) :: queue =>
    match s.run with
    | .block data => some { s with queue := queue, run := .send data }
    | _ => some { s with queue := queue }
  | false, (false, data) :: queue =>
    some { s with
      queue := queue, awaiting := true, dataWire := s.dataWire + data.length % 2 ^ 32 }
  | _, _ => none

/-- The worker gets its acknowledgement. -/
def ack (s : HandleSession) : Option HandleSession :=
  if s.awaiting ∧ 0 < s.acks then some { s with awaiting := false, acks := s.acks - 1 } else none

/-- The handler of a blocking read answers: the error code, and the data after it. -/
def reply (s : HandleSession) : Option HandleSession :=
  match s.run with
  | .send data => some { s with
      run := .recv
      wire := s.wire ++ (List.replicate kMsgMaxSize 0 ++ data.take (data.length % 2 ^ 32)) }
  | _ => none

end HandleSession

/-- Who moves. -/
inductive HandleStep
  | call (c : HandleCall)
  | recvMessage
  | recvData (n : ℕ)
  | catcher (i n : ℕ)
  | serve
  | exec
  | ack
  | reply

/-- A session with its handles. -/
def handleSession : Machine HandleSession HandleStep where
  step := fun s l =>
    match l with
    | .call c => s.call c
    | .recvMessage => s.recvMessage
    | .recvData n => s.recvData n
    | .catcher i n => s.catcher i n
    | .serve => s.serve
    | .exec => s.exec
    | .ack => s.ack
    | .reply => s.reply

end ElasticFramework
