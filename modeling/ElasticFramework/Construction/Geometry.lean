import ElasticFramework.Construction.Handlers

/-!
# The geometry of a launch

What `clEnqueueNDRangeKernel` is asked for, apart from the arguments of the kernel, and what
`CommandKernel::Exec` asks OpenCL for on the node.  The client fills in zeros for a
`local_work_size` that is `NULL` and pastes dimension and sizes into the message;
`HandlerEnqueueNDRangeKernel` constructs a `CommandKernel` from them before it receives the
arguments; `Exec` takes a first local size of zero for `NULL`.

A size is a `size_t`, and of each array the `work_dim` entries are what OpenCL looks at.
-/

namespace ElasticFramework

/-- The parameters of `clEnqueueNDRangeKernel` that say where the kernel runs. -/
structure NDRangeCall where
  kernelId : ℕ
  workDim : ℕ
  globalWorkOffset : Option (List ℕ)
  globalWorkSize : List ℕ
  localWorkSize : Option (List ℕ)
  deriving DecidableEq, Repr

/-- Where the global ids start: at zero when no offset is given. -/
def NDRangeCall.offset (c : NDRangeCall) : List ℕ :=
  c.globalWorkOffset.getD (List.replicate c.workDim 0)

/-- Two calls that ask for the same.  A local size is not the same as none. -/
structure NDRangeCall.Same (c c' : NDRangeCall) : Prop where
  kernelId : c.kernelId = c'.kernelId
  workDim : c.workDim = c'.workDim
  offset : c.offset = c'.offset
  globalWorkSize : c.globalWorkSize = c'.globalWorkSize
  localWorkSize : c.localWorkSize = c'.localWorkSize

/-- A call with one to three dimensions and an entry for each in the arrays it gives. -/
structure RangeLaunch extends NDRangeCall where
  kernelId_lt : kernelId < 2 ^ 32
  workDim_pos : 1 ≤ workDim
  workDim_le : workDim ≤ 3
  length_offset : ∀ offset ∈ globalWorkOffset, offset.length = workDim
  length_global : globalWorkSize.length = workDim
  length_local : ∀ size ∈ localWorkSize, size.length = workDim
  global_lt : ∀ x ∈ globalWorkSize, x < 2 ^ 64
  local_lt : ∀ size ∈ localWorkSize, ∀ x ∈ size, x < 2 ^ 64
  local_pos : ∀ size ∈ localWorkSize, ∀ x ∈ size, 1 ≤ x

/-! ## The client -/

namespace NDRangeCall

/-- `tlocal_work_size`. -/
def tlocalWorkSize (c : NDRangeCall) : List ℕ :=
  c.localWorkSize.getD (List.replicate c.workDim 0)

/-- The control message of the launch, with the numbers of arguments that are pending. -/
def message (c : NDRangeCall) (args : ClKernel) : Option (List UInt8) :=
  rangeMessage c.kernelId (c.globalWorkSize.zip c.tlocalWorkSize) args

end NDRangeCall

/-! ## The node -/

/-- What a `CommandKernel` keeps of its launch. -/
structure RangeCommand where
  kernelId : ℕ
  isNDRange : Bool
  workDim : ℕ
  globalWorkOffset : Option (List ℕ)
  globalWorkSize : List ℕ
  localWorkSize : List ℕ

namespace RangeCommand

/-- `CommandKernel::CommandKernel`: the offset is dropped, the sizes are copied from where they
stand. -/
def new (kernelId : ℕ) (isNDRange : Bool) (workDim : ℕ) (_globalWorkOffset : Option (List ℕ))
    (globalWorkSize localWorkSize : ℕ → ℕ) : RangeCommand where
  kernelId := kernelId
  isNDRange := isNDRange
  workDim := workDim
  globalWorkOffset := none
  globalWorkSize := (List.range workDim).map globalWorkSize
  localWorkSize := (List.range workDim).map localWorkSize

/-- The call of `clEnqueueNDRangeKernel` in `CommandKernel::Exec`; other commands make none. -/
def exec (c : RangeCommand) : Option NDRangeCall :=
  if c.isNDRange then
    some { kernelId := c.kernelId
           workDim := c.workDim
           globalWorkOffset := none
           globalWorkSize := c.globalWorkSize
           localWorkSize := if c.localWorkSize.headD 0 ≠ 0 then some c.localWorkSize else none }
  else none

end RangeCommand

/-- The `CommandKernel` that `HandlerEnqueueNDRangeKernel` constructs. -/
def handlerRangeCommand (recvBuf : List UInt8) : RangeCommand :=
  RangeCommand.new (field recvBuf 0 4) true (field recvBuf 4 1) none
    (fun i => field recvBuf (5 + 8 * i) 8) (fun i => field recvBuf (5 + 24 + 8 * i) 8)

end ElasticFramework
