import Mathlib.Order.Lattice.Nat
import ElasticFramework.Construction.Handlers
import ElasticFramework.Construction.Handles

/-!
# OpenCL on the node

`InitOpenCLContext` (`cn/cn.cc`) creates one context for all devices, and the programs, kernels and
buffers of all sessions are in it.  Handlers create objects as soon as they are asked to
(`cn/handler.cc`); everything else is asked for in the `Exec` of a command (`cn/command.cc`), which
waits for OpenCL to be done with it.

## OpenCL as it is

`OpenCL` is an implementation: any contexts, and calls that fail or return.  An error ends the
process (`_ED`, `GetErrorMsg`), so a call that fails has no result; the error of a release nobody
looks at, and what comes after it is not followed here.  What the node has OpenCL do is in
`DeviceCall.calls`.

## OpenCL as it is documented

`CLObjects` are the objects that exist, by their handles: the source of a program, the arguments of
a kernel, which stay set from one launch to the next, the contents of a buffer.
`OpenCL.Documented` says of an implementation what its calls do to the objects when they are valid.
It knows nothing of when they fail.  A kernel does not see handles: what it does (`Kernels`) depends
on the device, on the bytes of its arguments, on the contents of its buffers and on which of these
are the same.

`CLObjects.create` and `CLObjects.exec` are what the documentation makes of a handler's call and of
a whole command; they have no result where a call is not valid.
-/

namespace ElasticFramework

/-! ## What is called -/

/-- What a kernel is made from. -/
structure KernelCode where
  source : List (List UInt8)
  kernelName : List UInt8
  deriving DecidableEq, Repr

/-- How a kernel is launched; a task has no sizes. -/
structure LaunchShape where
  isNDRange : Bool
  globalWorkSize : List ℕ
  localWorkSize : Option (List ℕ)
  deriving DecidableEq, Repr

/-- What a handler has OpenCL do at once, with the handles it takes from its vectors.  A buffer that
nothing is copied to comes with what is in its memory. -/
inductive Creation
  | program (source : List (List UInt8))
  | build (program : ℕ)
  | kernel (program : ℕ) (kernelName : List UInt8)
  | buffer (flags size : ℕ) (contents : List UInt8)
  deriving DecidableEq, Repr

/-- The vector the new object is in, if there is one. -/
def Creation.object : Creation → Option ObjectKind
  | .program _ => some .program
  | .build _ => none
  | .kernel _ _ => some .kernel
  | .buffer _ _ _ => some .mem

/-- The calls in the `Exec` of commands. -/
inductive CLCall (D : Type*)
  | enqueueReadBuffer (queue : D) (mem offset cb : ℕ)
  | enqueueWriteBuffer (queue : D) (mem offset : ℕ) (data : List UInt8)
  | enqueueCopyBuffer (queue : D) (srcMem dstMem srcOffset dstOffset cb : ℕ)
  | releaseMemObject (mem : ℕ)
  | setKernelArg (kernel argIdx : ℕ) (value : Binding)
  | enqueueKernel (queue : D) (kernel : ℕ) (shape : LaunchShape)

/-- An implementation of OpenCL. -/
structure OpenCL (D : Type*) where
  Context : Type
  /-- The context that `InitOpenCLContext` has created. -/
  initial : Context
  /-- `queues.front()`. -/
  front : D
  /-- The other queues in `queues`. -/
  others : List D
  /-- A call of a handler: the handle of the object, and the context after it. -/
  create : Context → Creation → Option (ℕ × Context)
  /-- A call in an `Exec`: the bytes that are read, and the context after it. -/
  call : Context → CLCall D → Option (List (List UInt8) × Context)

/-! ## What the commands call -/

/-- What a command has OpenCL do. -/
inductive DeviceCall
  | readBuffer (mem offset cb : ℕ)
  | writeBuffer (mem offset : ℕ) (data : List UInt8)
  | copyBuffer (srcMem dstMem srcOffset dstOffset cb : ℕ)
  | releaseMemObject (mem : ℕ)
  | launch (comm : CommandKernel) (globalWorkSize localWorkSize : List ℕ)
  | finish (queueId : ℕ)

/-- The arguments that `CommandKernel::Exec` sets: all buffers, then all constants. -/
def CommandKernel.setArgs (comm : CommandKernel) : List (ℕ × Binding) :=
  memWrites comm.argMemId ++ constWrites comm.argConst comm.constData

/-- The shape of a launch: a local size of zero is none. -/
def launchShape (comm : CommandKernel) (globalWorkSize localWorkSize : List ℕ) : LaunchShape where
  isNDRange := comm.isNDRange
  globalWorkSize := globalWorkSize
  localWorkSize := if localWorkSize.headD 0 ≠ 0 then some localWorkSize else none

variable {D : Type*}

/-- The calls of an `Exec` that is given the queue `devQueue`.  No buffer has been on a device
(`newest_on_dev`), so that reads are from the first, and writes to all. -/
def DeviceCall.calls (cl : OpenCL D) (devQueue : D) : DeviceCall → List (CLCall D)
  | .readBuffer mem offset cb => [.enqueueReadBuffer cl.front mem offset cb]
  | .writeBuffer mem offset data =>
    (cl.front :: cl.others).map fun queue => .enqueueWriteBuffer queue mem offset data
  | .copyBuffer srcMem dstMem srcOffset dstOffset cb =>
    [.enqueueCopyBuffer devQueue srcMem dstMem srcOffset dstOffset cb]
  | .releaseMemObject mem => [.releaseMemObject mem]
  | .launch comm globalWorkSize localWorkSize =>
    (comm.setArgs.map fun x => .setKernelArg comm.kernelId x.1 x.2) ++
      [.enqueueKernel devQueue comm.kernelId (launchShape comm globalWorkSize localWorkSize)]
  | .finish _ => []

namespace OpenCL

/-- Calls are made one after the other. -/
def callAll (cl : OpenCL D) : cl.Context → List (CLCall D) →
    Option (List (List UInt8) × cl.Context)
  | C, [] => some ([], C)
  | C, c :: cs => (cl.call C c).bind fun x => (cl.callAll x.2 cs).map fun y => (x.1 ++ y.1, y.2)

/-- The `Exec` of a command. -/
def exec (cl : OpenCL D) (C : cl.Context) (devQueue : D) (c : DeviceCall) :
    Option (List (List UInt8) × cl.Context) :=
  cl.callAll C (c.calls cl devQueue)

end OpenCL

/-! ## The objects -/

structure CLProgram where
  source : List (List UInt8)
  built : Bool
  deriving DecidableEq, Repr

structure CLKernelObject where
  code : KernelCode
  args : ℕ → Option Binding

/-- The objects that exist, by handle. -/
@[ext]
structure CLObjects where
  program : ℕ → Option CLProgram
  kernel : ℕ → Option CLKernelObject
  buffer : ℕ → Option (List UInt8)

/-- An argument as the kernel finds it: a buffer by the first argument that is the same buffer, and
its contents. -/
inductive KernelArg
  | null
  | bytes (data : List UInt8)
  | buffer (first : ℕ) (contents : List UInt8)
  deriving DecidableEq, Repr

/-- What kernels do on a device: what the buffer that is first bound to an argument has in it
afterwards. -/
abbrev Kernels (D : Type*) := D → KernelCode → LaunchShape → (ℕ → Option KernelArg) → ℕ → List UInt8

/-- The contents of a buffer with other bytes at an offset. -/
def writeAt (contents : List UInt8) (offset : ℕ) (data : List UInt8) : Option (List UInt8) :=
  if offset + data.length ≤ contents.length then
    some (contents.take offset ++ (data ++ contents.drop (offset + data.length)))
  else none

/-- The first argument a buffer is bound to. -/
noncomputable def firstBound (args : ℕ → Option Binding) (mem : ℕ) : ℕ :=
  sInf {i | args i = some (.buffer mem)}

namespace CLObjects

/-- An empty context. -/
def empty : CLObjects where
  program := fun _ => none
  kernel := fun _ => none
  buffer := fun _ => none

/-- There is an object with this handle. -/
def Has (S : CLObjects) : ObjectKind → ℕ → Prop
  | .program, h => (S.program h).isSome
  | .kernel, h => (S.kernel h).isSome
  | .mem, h => (S.buffer h).isSome

def setProgram (S : CLObjects) (h : ℕ) (p : CLProgram) : CLObjects :=
  { S with program := Function.update S.program h (some p) }

def setKernel (S : CLObjects) (h : ℕ) (k : CLKernelObject) : CLObjects :=
  { S with kernel := Function.update S.kernel h (some k) }

/-- A buffer gets other contents, or is released. -/
def setBuffer (S : CLObjects) (h : ℕ) (contents : Option (List UInt8)) : CLObjects :=
  { S with buffer := Function.update S.buffer h contents }

/-- The buffers among the arguments exist. -/
def Bound (S : CLObjects) (args : ℕ → Option Binding) : Prop :=
  ∀ i mem, args i = some (.buffer mem) → S.Has .mem mem

/-- The arguments of a kernel as it finds them. -/
noncomputable def seen (S : CLObjects) (args : ℕ → Option Binding) (i : ℕ) : Option KernelArg :=
  (args i).map fun
    | .null => .null
    | .bytes data => .bytes data
    | .buffer mem => .buffer (firstBound args mem) ((S.buffer mem).getD [])

open Classical in
/-- The contents of the buffers after a launch. -/
noncomputable def launched (S : CLObjects) (args : ℕ → Option Binding) (result : ℕ → List UInt8)
    (mem : ℕ) : Option (List UInt8) :=
  if ∃ i, args i = some (.buffer mem) then some (result (firstBound args mem)) else S.buffer mem

/-- A kernel is launched. -/
noncomputable def launch (kernels : Kernels D) (queue : D) (S : CLObjects) (k : CLKernelObject)
    (shape : LaunchShape) : CLObjects :=
  { S with buffer := S.launched k.args (kernels queue k.code shape (S.seen k.args)) }

/-- The bytes a copy takes, if the two ranges do not overlap. -/
def copied (src : List UInt8) (srcMem dstMem srcOffset dstOffset cb : ℕ) : Option (List UInt8) :=
  if srcMem = dstMem ∧ srcOffset < dstOffset + cb ∧ dstOffset < srcOffset + cb then none
  else bytesAt src srcOffset cb

end CLObjects

/-! ## What is documented -/

/-- What is documented of the calls, for `objects` that exist in a context. -/
structure OpenCL.Documented (cl : OpenCL D) (kernels : Kernels D)
    (objects : cl.Context → CLObjects) : Prop where
  /-- The handles of new objects are handles of no others. -/
  createProgram : ∀ {C C' source h}, cl.create C (.program source) = some (h, C') →
    ¬ (objects C).Has .program h ∧ objects C' = (objects C).setProgram h ⟨source, false⟩
  buildProgram : ∀ {C C' program p h}, (objects C).program program = some p →
    cl.create C (.build program) = some (h, C') →
      objects C' = (objects C).setProgram program { p with built := true }
  createKernel : ∀ {C C' program p kernelName h}, (objects C).program program = some p →
    cl.create C (.kernel program kernelName) = some (h, C') → ¬ (objects C).Has .kernel h ∧
      objects C' = (objects C).setKernel h ⟨⟨p.source, kernelName⟩, fun _ => none⟩
  createBuffer : ∀ {C C' flags size contents h}, contents.length = size →
    cl.create C (.buffer flags size contents) = some (h, C') → ¬ (objects C).Has .mem h ∧
      objects C' = (objects C).setBuffer h (some contents)
  enqueueReadBuffer : ∀ {C C' queue mem offset cb contents data found},
    (objects C).buffer mem = some contents → bytesAt contents offset cb = some data →
    cl.call C (.enqueueReadBuffer queue mem offset cb) = some (found, C') →
      objects C' = objects C ∧ found = [data]
  enqueueWriteBuffer : ∀ {C C' queue mem offset data contents contents' found},
    (objects C).buffer mem = some contents → writeAt contents offset data = some contents' →
    cl.call C (.enqueueWriteBuffer queue mem offset data) = some (found, C') →
      objects C' = (objects C).setBuffer mem (some contents') ∧ found = []
  enqueueCopyBuffer : ∀ {C C' queue srcMem dstMem srcOffset dstOffset cb src dst data dst' found},
    (objects C).buffer srcMem = some src → (objects C).buffer dstMem = some dst →
    CLObjects.copied src srcMem dstMem srcOffset dstOffset cb = some data →
    writeAt dst dstOffset data = some dst' →
    cl.call C (.enqueueCopyBuffer queue srcMem dstMem srcOffset dstOffset cb) = some (found, C') →
      objects C' = (objects C).setBuffer dstMem (some dst') ∧ found = []
  releaseMemObject : ∀ {C C' mem found}, (objects C).Has .mem mem →
    cl.call C (.releaseMemObject mem) = some (found, C') →
      objects C' = (objects C).setBuffer mem none ∧ found = []
  setKernelArg : ∀ {C C' kernel argIdx value k found}, (objects C).kernel kernel = some k →
    cl.call C (.setKernelArg kernel argIdx value) = some (found, C') →
      objects C' = (objects C).setKernel kernel
        { k with args := Function.update k.args argIdx (some value) } ∧ found = []
  enqueueKernel : ∀ {C C' queue kernel shape k found}, (objects C).kernel kernel = some k →
    (objects C).Bound k.args → cl.call C (.enqueueKernel queue kernel shape) = some (found, C') →
      objects C' = (objects C).launch kernels queue k shape ∧ found = []

/-! ## What comes of requests -/

namespace CLObjects

/-- The object `new` is created, or a program built. -/
def create (S : CLObjects) (new : ℕ) : Creation → Option CLObjects
  | .program source => some (S.setProgram new ⟨source, false⟩)
  | .build h => (S.program h).map fun p => S.setProgram h { p with built := true }
  | .kernel h kernelName =>
    (S.program h).map fun p => S.setKernel new ⟨⟨p.source, kernelName⟩, fun _ => none⟩
  | .buffer _ size contents =>
    if contents.length = size then some (S.setBuffer new (some contents)) else none

open Classical in
/-- A kernel has its arguments set and is launched. -/
noncomputable def setAndLaunch (kernels : Kernels D) (devQueue : D) (S : CLObjects)
    (comm : CommandKernel) (shape : LaunchShape) : Option CLObjects :=
  (S.kernel comm.kernelId).bind fun k =>
    let k' := { k with args := comm.exec k.args }
    if S.Bound k'.args then
      some ((S.setKernel comm.kernelId k').launch kernels devQueue k' shape)
    else none

/-- What a command does to the objects.  There is no room for nothing to be read, and a session has
one queue. -/
noncomputable def exec (kernels : Kernels D) (devQueue : D) (S : CLObjects) :
    DeviceCall → Option CLObjects
  | .readBuffer mem offset cb =>
    (S.buffer mem).bind fun contents =>
      if 0 < cb ∧ offset + cb ≤ contents.length then some S else none
  | .writeBuffer mem offset data =>
    (S.buffer mem).bind fun contents => (writeAt contents offset data).map fun contents' =>
      S.setBuffer mem (some contents')
  | .copyBuffer srcMem dstMem srcOffset dstOffset cb =>
    (S.buffer srcMem).bind fun src => (S.buffer dstMem).bind fun dst =>
      (copied src srcMem dstMem srcOffset dstOffset cb).bind fun data =>
        (writeAt dst dstOffset data).map fun dst' => S.setBuffer dstMem (some dst')
  | .releaseMemObject mem => (S.buffer mem).map fun _ => S.setBuffer mem none
  | .launch comm globalWorkSize localWorkSize =>
    S.setAndLaunch kernels devQueue comm (launchShape comm globalWorkSize localWorkSize)
  | .finish queueId => if queueId = 0 then some S else none

/-- The bytes a `CommandRead` finds. -/
def reads (S : CLObjects) : DeviceCall → List (List UInt8)
  | .readBuffer mem offset cb =>
    ((S.buffer mem).bind fun contents => bytesAt contents offset cb).toList
  | _ => []

end CLObjects

end ElasticFramework
