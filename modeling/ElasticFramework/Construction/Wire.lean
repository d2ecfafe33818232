import ElasticFramework.Construction.KernelArgs
import ElasticFramework.Framework.Bytes

/-!
# What the client sends

Every call of the client API that reaches the compute node sends a control message of
`kMsgMaxSize` bytes on the main socket and, for some calls, a payload (`newscl.cc`, `elastic.cc`).
The stream has no other structure: where a payload ends is up to the handler that reads it.

A message is a buffer filled by `Paste` at a running offset.  Some buffers are zeroed first, some
are left as the stack has them; `Stack` holds what is there.  A `Paste` past the end of its buffer
is undefined behaviour and makes the whole call undefined here.  `SockSend` takes its length as an
`unsigned int` and exits the process when there is nothing to send.

Calls that return before their first send, such as a copy of overlapping ranges, are none of
these.  Loop counters are natural numbers, and memory never runs out.
-/

namespace ElasticFramework

/-- `cn_msg_type`. -/
inductive MsgType
  | reg
  | createProgramWithSource
  | buildProgram
  | createKernel
  | enqueueTask
  | createBuffer
  | enqueueReadBuffer
  | enqueueWriteBuffer
  | setKernelArg
  | finish
  | enqueueNDRangeKernel
  | enqueueCopyBuffer
  | releaseMemObject
  | bullet3ReadResultBack
  | bullet3NPWriteToGPU
  | bullet3RBPWriteToGPU
  | bullet3BPWriteToGPU
  deriving DecidableEq, Repr

/-- The number that opens a message of the type. -/
def MsgType.num : MsgType → ℕ
  | reg => 0
  | createProgramWithSource => 1
  | buildProgram => 2
  | createKernel => 3
  | enqueueTask => 4
  | createBuffer => 5
  | enqueueReadBuffer => 6
  | enqueueWriteBuffer => 7
  | setKernelArg => 8
  | finish => 9
  | enqueueNDRangeKernel => 10
  | enqueueCopyBuffer => 11
  | releaseMemObject => 12
  | bullet3ReadResultBack => 13
  | bullet3NPWriteToGPU => 14
  | bullet3RBPWriteToGPU => 15
  | bullet3BPWriteToGPU => 16

/-- The bytes of a control message. -/
def kMsgMaxSize : ℕ := 64

/-! ## Arguments -/

/-- A C string: the memory from its first character on, and where it ends. -/
structure CString where
  mem : ℕ → UInt8
  strlen : ℕ
  terminated : mem strlen = 0
  nonzero : ∀ i < strlen, mem i ≠ 0

/-- The arguments of `clCreateProgramWithSource`: for each string the memory it is in and its
entry of `lengths`, which is zero when there is none, and `strlen(strings[0])`. -/
structure Sources where
  strings : List ((ℕ → UInt8) × ℕ)
  strlen : ℕ
  count_lt : strings.length < 2 ^ 32

/-- `send_lengths[i]`. -/
def Sources.sendLength (s : Sources) (length : ℕ) : ℕ := if length = 0 then s.strlen else length

/-- The arguments waiting for a launch; the bytes are those of the by-value arguments. -/
structure PendingArgs extends ClKernel where
  length_eq : constData.length = (constDataInfo.map Prod.snd).sum

/-- The three calls that send rigid bodies to the device. -/
inductive Bullet3Phase
  | np (numOfBodies : ℕ)
  | rbp
  | bp

/-- The data of such a call: nothing is sent of no data. -/
structure Bullet3Data where
  totalDataSize : ℕ
  numOfData : ℕ
  data : ℕ → UInt8
  dataSize : ℕ → UInt8
  pos : 0 < totalDataSize

/-- A call of the client API that sends a request. -/
inductive Call
  | register (clientWeight : ℕ)
  | createProgramWithSource (id : ℕ) (sources : Sources)
  | buildProgram (programId : ℕ) (options : Option CString)
  | createKernel (programId : ℕ) (kernelName : CString)
  | enqueueTask (kernelId : ℕ)
  | createBuffer (flags size : ℕ) (hostPtr : ℕ → UInt8)
  | enqueueReadBuffer (memId offset cb : ℕ) (blockingRead : UInt32)
  | enqueueWriteBuffer (memId offset cb : ℕ) (blockingWrite : UInt32) (ptr : ℕ → UInt8)
  | finish
  | enqueueNDRangeKernel (kernelId : ℕ) (workSize : List (ℕ × ℕ)) (args : PendingArgs)
  | enqueueCopyBuffer (srcId dstId srcOffset dstOffset cb : ℕ)
  | releaseMemObject (memId : ℕ)
  | bullet3ReadResultBack (dataSize : ℕ)
  | bullet3WriteToGPU (phase : Bullet3Phase) (data : Bullet3Data)

/-- The type the call opens its message with. -/
def Call.msgType : Call → MsgType
  | register _ => .reg
  | createProgramWithSource _ _ => .createProgramWithSource
  | buildProgram _ _ => .buildProgram
  | createKernel _ _ => .createKernel
  | enqueueTask _ => .enqueueTask
  | createBuffer _ _ _ => .createBuffer
  | enqueueReadBuffer _ _ _ _ => .enqueueReadBuffer
  | enqueueWriteBuffer _ _ _ _ _ => .enqueueWriteBuffer
  | finish => .finish
  | enqueueNDRangeKernel _ _ _ => .enqueueNDRangeKernel
  | enqueueCopyBuffer _ _ _ _ _ => .enqueueCopyBuffer
  | releaseMemObject _ => .releaseMemObject
  | bullet3ReadResultBack _ => .bullet3ReadResultBack
  | bullet3WriteToGPU (.np _) _ => .bullet3NPWriteToGPU
  | bullet3WriteToGPU .rbp _ => .bullet3RBPWriteToGPU
  | bullet3WriteToGPU .bp _ => .bullet3BPWriteToGPU

/-! ## Messages -/

/-- A buffer of the size of a message. -/
abbrev MsgBuf := { buf : List UInt8 // buf.length = kMsgMaxSize }

/-- What the stack holds where a call leaves a buffer as it finds it. -/
structure Stack where
  sendBuf : MsgBuf
  argSendBuf : MsgBuf
  constSendBuf : MsgBuf

/-- A buffer after `bzero`. -/
def zeroed : MsgBuf := ⟨List.replicate kMsgMaxSize 0, List.length_replicate⟩

/-- A control message: its type and its fields, pasted one after the other. -/
def message (buf : MsgBuf) (type : MsgType) (fields : List (List UInt8)) : Option (List UInt8) :=
  (Draft.pasteAll ⟨buf, 0⟩ (leBytes 4 type.num :: fields)).map Draft.buf

/-- The control message of a range launch: an index space of fewer than three dimensions leaves
room for the others. -/
def rangeMessage (kernelId : ℕ) (workSize : List (ℕ × ℕ)) (args : ClKernel) :
    Option (List UInt8) := do
  let room := (2 ^ 32 + 3 - workSize.length % 2 ^ 32) % 2 ^ 32 * 8
  let b ← Draft.pasteAll ⟨zeroed, 0⟩
    [leBytes 4 MsgType.enqueueNDRangeKernel.num, leBytes 4 kernelId, leBytes 1 workSize.length]
  let b ← b.pasteAll (workSize.map fun x => leBytes 8 x.1)
  let b ← (b.skip room).pasteAll (workSize.map fun x => leBytes 8 x.2)
  let b ← (b.skip room).pasteAll [leBytes 1 args.changedMemId.length,
    leBytes 1 args.constDataInfo.length, leBytes 4 args.constData.length]
  some b.buf

/-- The messages with the entries of a list, an index in one byte and a value in `size`; `rewind`
says where the next message starts to paste. -/
def sendEntries (size perMessage : ℕ) (rewind : Draft → Draft) :
    ℕ → Draft → List (ℕ × ℕ) → Option (List (List UInt8))
  | 0, _, _ => some []
  | n + 1, b, entries => do
    let b ← (rewind b).pasteAll ((if n = 0 then entries else entries.take perMessage).flatMap
      fun x => [leBytes 1 x.1, leBytes size x.2])
    let more ← sendEntries size perMessage rewind n b (entries.drop perMessage)
    some (b.buf :: more)

/-- The messages with the buffer arguments; each starts at the front of `arg_send_buf`. -/
def sendMems (buf : MsgBuf) (changedMemId : List (ℕ × ℕ)) : Option (List (List UInt8)) :=
  sendEntries 4 (kMsgMaxSize / (1 + 4)) (fun b => { b with offset := 0 })
    ((changedMemId.length + kMsgMaxSize / (1 + 4) - 1) / (kMsgMaxSize / (1 + 4)))
    ⟨buf, 0⟩ changedMemId

/-- The messages with the by-value arguments.  Their number comes from a byte, and
`const_buf_offset` is not set back between them. -/
def sendConsts (buf : MsgBuf) (constDataInfo : List (ℕ × ℕ)) : Option (List (List UInt8)) :=
  sendEntries 8 (kMsgMaxSize / (1 + 8)) id
    ((constDataInfo.length % 2 ^ 8 + kMsgMaxSize / (1 + 8) - 1) / (kMsgMaxSize / (1 + 8)))
    ⟨buf, 0⟩ constDataInfo

/-- `CL_MEM_COPY_HOST_PTR` is set. -/
def copiesHostPtr (flags : ℕ) : Bool := flags.testBit 5

namespace Call

/-- The buffers the call gives to `Send`, in order; `none` when it writes past one of them. -/
def sends (stack : Stack) : Call → Option (List (List UInt8))
  | register clientWeight => do
    let msg ← message zeroed .reg [leBytes 8 clientWeight]
    some [msg]
  | createProgramWithSource id sources => do
    let msg ← message zeroed .createProgramWithSource
      [leBytes 4 sources.strings.length, leBytes 4 id]
    some (msg :: (sources.strings.map fun s => leBytes 8 (sources.sendLength s.2)) ++
      sources.strings.map fun s => bytesOf s.1 (sources.sendLength s.2))
  | buildProgram programId options => do
    let optionsLeng := (options.elim 0 CString.strlen) % 2 ^ 32
    let msg ← message zeroed .buildProgram [leBytes 4 programId, leBytes 4 optionsLeng]
    match options with
    | some options =>
      if optionsLeng ≠ 0 then some [msg, bytesOf options.mem optionsLeng] else some [msg]
    | none => some [msg]
  | createKernel programId kernelName => do
    let msg ← message zeroed .createKernel [leBytes 4 programId, leBytes 8 kernelName.strlen]
    some [msg, bytesOf kernelName.mem kernelName.strlen]
  | enqueueTask kernelId => do
    let msg ← message zeroed .enqueueTask [leBytes 4 kernelId]
    some [msg]
  | createBuffer flags size hostPtr => do
    let msg ← message zeroed .createBuffer [leBytes 8 flags, leBytes 8 size]
    if copiesHostPtr flags then some [msg, bytesOf hostPtr size] else some [msg]
  | enqueueReadBuffer memId offset cb blockingRead => do
    let msg ← message zeroed .enqueueReadBuffer
      [leBytes 8 offset, leBytes 8 cb, leBytes 4 memId, leBytes 4 blockingRead.toNat]
    some [msg]
  | enqueueWriteBuffer memId offset cb blockingWrite ptr => do
    let msg ← message zeroed .enqueueWriteBuffer
      [leBytes 8 offset, leBytes 8 cb, leBytes 4 memId, leBytes 4 blockingWrite.toNat]
    some [msg, bytesOf ptr cb]
  | finish => do
    let msg ← message stack.sendBuf .finish [leBytes 4 0]
    some [msg]
  | enqueueNDRangeKernel kernelId workSize args => do
    let msg ← rangeMessage kernelId workSize args.toClKernel
    let mems ← sendMems stack.argSendBuf args.changedMemId
    let consts ← sendConsts stack.constSendBuf args.constDataInfo
    some (msg :: mems ++
      (if args.constData.length % 2 ^ 32 > 0 then [args.constData] else []) ++ consts)
  | enqueueCopyBuffer srcId dstId srcOffset dstOffset cb => do
    let msg ← message stack.sendBuf .enqueueCopyBuffer
      [leBytes 4 srcId, leBytes 4 dstId, leBytes 8 srcOffset, leBytes 8 dstOffset, leBytes 8 cb]
    some [msg]
  | releaseMemObject memId => do
    let msg ← message stack.sendBuf .releaseMemObject [leBytes 4 memId]
    some [msg]
  | bullet3ReadResultBack _ => do
    let msg ← message stack.sendBuf .bullet3ReadResultBack []
    some [msg]
  | c@(bullet3WriteToGPU phase d) => do
    let bodies := match phase with
      | .np numOfBodies => [leBytes 8 numOfBodies]
      | _ => []
    let msg ← message stack.sendBuf c.msgType
      ([leBytes 8 d.totalDataSize, leBytes 8 d.numOfData] ++ bodies)
    some [msg, bytesOf d.data d.totalDataSize, bytesOf d.dataSize (8 * d.numOfData)]

end Call

/-! ## The bytes on the socket -/

/-- What a call puts on the main socket, and whether it exits the process doing so. -/
structure Sent where
  bytes : List UInt8
  exited : Bool

/-- `SockSend` on one buffer after the other: the length is an `unsigned int`, and a send of no
bytes exits. -/
def transmit : List (List UInt8) → Sent
  | [] => ⟨[], false⟩
  | data :: l =>
    if data.length % 2 ^ 32 = 0 then ⟨[], true⟩
    else ⟨data.take (data.length % 2 ^ 32) ++ (transmit l).bytes, (transmit l).exited⟩

/-- A call with the stack it finds. -/
structure Invocation where
  call : Call
  stack : Stack

/-- What the call sends; `none` when it writes past a buffer. -/
def Invocation.sent (c : Invocation) : Option Sent := (c.call.sends c.stack).map transmit

/-- The bytes of a call on the main socket. -/
def Invocation.bytes (c : Invocation) : List UInt8 := (c.sent.map Sent.bytes).getD []

end ElasticFramework
