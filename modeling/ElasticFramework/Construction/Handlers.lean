import ElasticFramework.Construction.Wire
import ElasticFramework.Framework.Reader

/-!
# What the compute node reads

`Run` (`cn.cc`) collects `kMsgMaxSize` bytes of the main socket, looks at the type in front and
calls a handler (`handler.cc`), which reads the rest of the request from the same socket.  One
round of the loop is `nextRequest`, a reader of the bytes the client has sent; it returns what the
handler has made of them.

The handlers take their fields from the message at running offsets, `recvBuf` being the message
without its type except where a handler is given the whole of it.  `SockRecv` takes its length as
an `unsigned int`; to receive nothing exits the process.
-/

namespace ElasticFramework

/-- Why a round of `Run` does not end with a request. -/
inductive Stop
  /-- The bytes have not come yet. -/
  | wait
  /-- An assertion or an allocation fails. -/
  | abort
  /-- `SockRecv` calls `exit`. -/
  | exit
  /-- A handler writes past its buffer. -/
  | overrun
  deriving DecidableEq, Repr

abbrev Recv := Reader UInt8 Stop

/-- `SockRecv`. -/
def sockRecv (bufLen : ℕ) : Recv (List UInt8) :=
  if bufLen % 2 ^ 32 = 0 then Reader.stop .exit else Reader.next .wait (bufLen % 2 ^ 32)

/-- What a handler has read. -/
inductive Request
  | register (appWeight : ℕ)
  | createProgramWithSource (lengths : List ℕ) (strs : List (List UInt8))
  | buildProgram (programId : ℕ)
  | createKernel (programId : ℕ) (kernelName : List UInt8)
  | enqueueTask (comm : CommandKernel)
  | createBuffer (flags size : ℕ) (data : Option (List UInt8))
  | enqueueReadBuffer (memId offset cb blockingRead : ℕ)
  | enqueueWriteBuffer (memId offset cb blockingWrite : ℕ) (data : List UInt8)
  | finish (queueId : ℕ)
  | enqueueNDRangeKernel (comm : CommandKernel) (globalWorkSize localWorkSize : List ℕ)
  | enqueueCopyBuffer (srcMemId dstMemId srcOffset dstOffset cb : ℕ)
  | releaseMemObject (memId : ℕ)

/-- The case of `Run` that has handled the request. -/
def Request.msgType : Request → MsgType
  | register _ => .reg
  | createProgramWithSource _ _ => .createProgramWithSource
  | buildProgram _ => .buildProgram
  | createKernel _ _ => .createKernel
  | enqueueTask _ => .enqueueTask
  | createBuffer _ _ _ => .createBuffer
  | enqueueReadBuffer _ _ _ _ => .enqueueReadBuffer
  | enqueueWriteBuffer _ _ _ _ _ => .enqueueWriteBuffer
  | finish _ => .finish
  | enqueueNDRangeKernel _ _ _ => .enqueueNDRangeKernel
  | enqueueCopyBuffer _ _ _ _ _ => .enqueueCopyBuffer
  | releaseMemObject _ => .releaseMemObject

/-! ## Loops of the handlers -/

/-- The lengths of `count` strings. -/
def recvLengths : ℕ → Recv (List ℕ)
  | 0 => pure []
  | count + 1 => do
    let buf ← sockRecv 8
    let more ← recvLengths count
    pure (field buf 0 8 :: more)

/-- A string of each length. -/
def recvStrs : List ℕ → Recv (List (List UInt8))
  | [] => pure []
  | length :: lengths => do
    let str ← sockRecv length
    let more ← recvStrs lengths
    pure (str :: more)

/-- The first `n` entries of a message, an index in one byte and a value in `size`. -/
def entriesOf (size n : ℕ) (buf : List UInt8) : List (ℕ × ℕ) :=
  (List.range n).map fun j => (field buf ((1 + size) * j) 1, field buf ((1 + size) * j + 1) size)

/-- The messages of a list of `left` entries; an entry that is not `ok` fails an assertion. -/
def recvEntries (size perMessage : ℕ) (ok : ℕ × ℕ → Bool) : ℕ → ℕ → Recv (List (ℕ × ℕ))
  | 0, _ => pure []
  | n + 1, left => do
    let buf ← sockRecv kMsgMaxSize
    let entries := entriesOf size (if n = 0 then left else perMessage) buf
    if entries.all ok then do
      let more ← recvEntries size perMessage ok n (left - perMessage)
      pure (entries ++ more)
    else Reader.stop .abort

/-! ## The handlers -/

namespace Handler

def register (recvBuf : List UInt8) : Recv Request :=
  pure (.register (field recvBuf 0 8))

def finish (recvBuf : List UInt8) : Recv Request :=
  pure (.finish (field recvBuf 0 4))

/-- `count` is an `int`, and there is no array of a negative size. -/
def createProgramWithSource (recvBuf : List UInt8) : Recv Request := do
  let count := field recvBuf 4 4
  if count < 2 ^ 31 then do
    let lengths ← recvLengths count
    let strs ← recvStrs lengths
    pure (.createProgramWithSource lengths strs)
  else Reader.stop .abort

/-- The options are not read. -/
def buildProgram (recvBuf : List UInt8) : Recv Request :=
  pure (.buildProgram (field recvBuf 4 4))

/-- `kernel_name_length + 1` is an `unsigned int`, so the longest name gets a buffer of no
bytes. -/
def createKernel (recvBuf : List UInt8) : Recv Request := do
  let kernelNameLength := field recvBuf 4 4
  if (kernelNameLength + 1) % 2 ^ 32 = 0 then Reader.stop .overrun
  else do
    let kernelName ← sockRecv kernelNameLength
    pure (.createKernel (field recvBuf 0 4) kernelName)

def enqueueTask (recvBuf : List UInt8) : Recv Request :=
  pure (.enqueueTask (handlerEnqueueTask (field recvBuf 0 4)))

/-- The number of bytes of by-value arguments is read as an `unsigned char`. -/
def enqueueNDRangeKernel (recvBuf : List UInt8) : Recv Request := do
  let kernelId := field recvBuf 0 4
  let workDim := field recvBuf 4 1
  let globalWorkSize := (List.range workDim).map fun i => field recvBuf (5 + 8 * i) 8
  let localWorkSize := (List.range workDim).map fun i => field recvBuf (5 + 24 + 8 * i) 8
  let numOfChangedMemId := field recvBuf 53 1
  let numOfConstData := field recvBuf 54 1
  let constDataSize := field recvBuf 55 1
  let maxArgInMsg := kMsgMaxSize / (1 + 4)
  let changedMemId ←
    recvEntries 4 maxArgInMsg (fun x => x.2 ≠ nullMemId)
      ((numOfChangedMemId + maxArgInMsg - 1) / maxArgInMsg) numOfChangedMemId
  let constData ← if constDataSize > 0 then sockRecv constDataSize else pure []
  let kMaxConstInMsg := kMsgMaxSize / (1 + 8)
  let constDataInfo ←
    recvEntries 8 kMaxConstInMsg (fun _ => true)
      ((numOfConstData + kMaxConstInMsg - 1) / kMaxConstInMsg) numOfConstData
  let comm ← Reader.orStop .abort
    (handlerEnqueueNDRangeKernel kernelId changedMemId constDataInfo constData)
  pure (.enqueueNDRangeKernel comm globalWorkSize localWorkSize)

def createBuffer (recvBuf : List UInt8) : Recv Request := do
  let flags := field recvBuf 0 8
  let size := field recvBuf 8 8
  let data ← if copiesHostPtr flags then do
      let data ← sockRecv size
      pure (some data)
    else pure none
  if size ≠ 0 then pure (.createBuffer flags size data) else Reader.stop .abort

def enqueueCopyBuffer (recvBuf : List UInt8) : Recv Request :=
  pure (.enqueueCopyBuffer (field recvBuf 0 4) (field recvBuf 4 4) (field recvBuf 8 8)
    (field recvBuf 16 8) (field recvBuf 24 8))

def enqueueWriteBuffer (recvBuf : List UInt8) : Recv Request := do
  let cb := field recvBuf 8 8
  let data ← sockRecv cb
  pure (.enqueueWriteBuffer (field recvBuf 16 4) (field recvBuf 0 8) cb (field recvBuf 20 4) data)

def enqueueReadBuffer (recvBuf : List UInt8) : Recv Request :=
  pure (.enqueueReadBuffer (field recvBuf 16 4) (field recvBuf 0 8) (field recvBuf 8 8)
    (field recvBuf 20 4))

/-- It starts with a failing assertion. -/
def setKernelArg (_recvBuf : List UInt8) : Recv Request := Reader.stop .abort

def releaseMemObject (recvBuf : List UInt8) : Recv Request :=
  pure (.releaseMemObject (field recvBuf 0 4))

end Handler

/-- The `switch` of `Run`. -/
def dispatch (buf : List UInt8) : Recv Request :=
  match field buf 0 4 with
  | 0 => Handler.register (buf.drop 4)
  | 1 => Handler.createProgramWithSource buf
  | 2 => Handler.buildProgram buf
  | 3 => Handler.createKernel (buf.drop 4)
  | 4 => Handler.enqueueTask (buf.drop 4)
  | 5 => Handler.createBuffer (buf.drop 4)
  | 6 => Handler.enqueueReadBuffer (buf.drop 4)
  | 7 => Handler.enqueueWriteBuffer (buf.drop 4)
  | 8 => Handler.setKernelArg (buf.drop 4)
  | 9 => Handler.finish (buf.drop 4)
  | 10 => Handler.enqueueNDRangeKernel (buf.drop 4)
  | 11 => Handler.enqueueCopyBuffer (buf.drop 4)
  | 12 => Handler.releaseMemObject (buf.drop 4)
  | _ => Reader.stop .abort

/-- One round of the loop of `Run`. -/
def nextRequest : Recv Request := do
  let buf ← Reader.next .wait kMsgMaxSize
  dispatch buf

end ElasticFramework
