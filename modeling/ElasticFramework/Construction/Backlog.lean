import ElasticFramework.Framework.Storage
import ElasticFramework.Framework.Transition

/-!
# Queued commands and what they point to

`Run` keeps a session's buffers and kernels in two vectors, `mems` and `kernels`, which the
handlers for `clCreateBuffer` and `clCreateKernel` append to.  The commands the other handlers
push on the session's queue hold pointers into them: `CommandRead` and `CommandWrite` the `mem_`
they were made with, `CommandKernel` its `kernel_`.  `CommandCopyBuffer`,
`CommandReleaseMemObject` and the buffer arguments of a kernel are `cl_mem` values, and so is the
`mem_object` of a `CommandWrite`.

## The machine

The handlers run one after the other in `Run`; a worker takes the first command of the queue, is in
its `Exec` for a while, and has done with it.  What comes after the last use of the pointers, the
worker's books and `Pop`, is part of that last step.  While `Run` is in `Blocking` no handler runs.

A handler that is given an id for which there is no entry, or told to create a buffer of no bytes,
has no next state here: the first is `operator[]` past the end, the second a failed assertion.
`HandlerSetKernelArg` starts with one too, so `arg_cl_mem`, which only it would fill, is left out.
-/

namespace ElasticFramework

/-! ## The vectors' entries -/

/-- `struct MemObject`. -/
structure MemObject where
  mem : ℕ
  newestOnDev : Option ℕ
  size : ℕ
  deriving DecidableEq, Repr

/-- `struct CL_Kernel`. -/
structure CLKernel where
  kernel : ℕ
  skip : Bool
  deriving DecidableEq, Repr

/-! ## Commands -/

/-- The commands of the queue, with the pointers and handles they hold. -/
inductive HeldCommand
  | read (mem : Reference) (blockingRead : Bool)
  | write (mem : Reference) (memObject : ℕ) (blockingWrite : Bool)
  | kernel (kernel : Reference) (isNDRange : Bool) (argMem : List ℕ)
  | copyBuffer (srcMem dstMem : ℕ)
  | releaseMemObject (mem : ℕ)
  | finish
  deriving DecidableEq, Repr

namespace HeldCommand

/-- The pointer into `mems`. -/
def mem? : HeldCommand → Option Reference
  | read mem _ | write mem _ _ => some mem
  | _ => none

/-- The pointer into `kernels`. -/
def kernel? : HeldCommand → Option Reference
  | kernel k _ _ => some k
  | _ => none

/-- Its handler waits for it. -/
def blocking : HeldCommand → Bool
  | read _ blockingRead => blockingRead
  | write _ _ blockingWrite => blockingWrite
  | finish => true
  | _ => false

end HeldCommand

/-- What `Exec` asks of OpenCL. -/
inductive ClCall
  | readBuffer (dev : Option ℕ) (mem : ℕ)
  | writeBuffer (dev : Option ℕ) (mem : ℕ)
  | launch (kernel : ℕ) (isNDRange : Bool) (argMem : List ℕ)
  | copyBuffer (srcMem dstMem : ℕ)
  | releaseMemObject (mem : ℕ)
  | nothing
  deriving DecidableEq, Repr

/-! ## The state -/

/-- A session's vectors and its queue. -/
structure Backlog where
  mems : Storage MemObject
  kernels : Storage CLKernel
  queue : List HeldCommand
  /-- A worker is in `Exec` of the first command. -/
  running : Bool
  /-- `Run` is in the `Blocking` of a command. -/
  blocked : Bool

namespace Backlog

def init : Backlog where
  mems := Storage.empty
  kernels := Storage.empty
  queue := []
  running := false
  blocked := false

/-- What a command's `Exec` does; `none` is a use of a pointer that dangles. -/
def exec (s : Backlog) : HeldCommand → Option ClCall
  | .read mem _ => (s.mems.deref mem).map fun m => .readBuffer m.newestOnDev m.mem
  | .write mem memObject _ =>
    (s.mems.deref mem).map fun m => .writeBuffer m.newestOnDev memObject
  | .kernel kernel isNDRange argMem =>
    (s.kernels.deref kernel).map fun k => .launch k.kernel isNDRange argMem
  | .copyBuffer srcMem dstMem => some (.copyBuffer srcMem dstMem)
  | .releaseMemObject mem => some (.releaseMemObject mem)
  | .finish => some .nothing

/-! ## The handlers -/

/-- `comm_queue.Push(comm)`, and `Blocking` if the client asked for it. -/
def push (s : Backlog) (c : HeldCommand) : Backlog :=
  { s with queue := s.queue ++ [c], blocked := c.blocking }

def handlerCreateBuffer (G : Growth) (s : Backlog) (mem size : ℕ) : Option Backlog :=
  if size = 0 then none
  else some { s with
    mems := s.mems.push G { mem := mem, newestOnDev := none, size := size % 2 ^ 32 } }

def handlerCreateKernel (G : Growth) (s : Backlog) (kernel : ℕ) : Backlog :=
  { s with kernels := s.kernels.push G { kernel := kernel, skip := false } }

def handlerEnqueueReadBuffer (s : Backlog) (memId : ℕ) (blockingRead : Bool) : Option Backlog :=
  s.mems.entries[memId]?.map fun _ => s.push (.read (s.mems.ref memId) blockingRead)

def handlerEnqueueWriteBuffer (s : Backlog) (memId : ℕ) (blockingWrite : Bool) : Option Backlog :=
  s.mems.entries[memId]?.map fun m => s.push (.write (s.mems.ref memId) m.mem blockingWrite)

def handlerEnqueueTask (s : Backlog) (kernelId : ℕ) : Option Backlog :=
  s.kernels.entries[kernelId]?.map fun _ => s.push (.kernel (s.kernels.ref kernelId) false [])

def handlerEnqueueNDRangeKernel (s : Backlog) (kernelId : ℕ) (argMemIds : List ℕ) :
    Option Backlog :=
  s.kernels.entries[kernelId]?.bind fun _ =>
    (argMemIds.mapM fun i => s.mems.entries[i]?.map MemObject.mem).map fun argMem =>
      s.push (.kernel (s.kernels.ref kernelId) true argMem)

def handlerEnqueueCopyBuffer (s : Backlog) (srcMemId dstMemId : ℕ) : Option Backlog :=
  s.mems.entries[srcMemId]?.bind fun src =>
    s.mems.entries[dstMemId]?.map fun dst => s.push (.copyBuffer src.mem dst.mem)

def handlerReleaseMemObject (s : Backlog) (memId : ℕ) : Option Backlog :=
  s.mems.entries[memId]?.map fun m => s.push (.releaseMemObject m.mem)

def handlerFinish (s : Backlog) : Backlog := s.push .finish

/-! ## The worker -/

/-- A worker takes the first command and enters its `Exec`. -/
def start (s : Backlog) : Option Backlog :=
  if s.running ∨ s.queue = [] then none else some { s with running := true }

/-- `Exec` is through with the command's pointers, and wakes `Run` if it waits. -/
def finish (s : Backlog) : Option Backlog :=
  match s.running, s.queue with
  | true, c :: queue =>
    some { s with queue := queue, running := false, blocked := s.blocked && !c.blocking }
  | _, _ => none

end Backlog

inductive BacklogStep
  | createBuffer (mem size : ℕ)
  | createKernel (kernel : ℕ)
  | enqueueReadBuffer (memId : ℕ) (blockingRead : Bool)
  | enqueueWriteBuffer (memId : ℕ) (blockingWrite : Bool)
  | enqueueTask (kernelId : ℕ)
  | enqueueNDRangeKernel (kernelId : ℕ) (argMemIds : List ℕ)
  | enqueueCopyBuffer (srcMemId dstMemId : ℕ)
  | releaseMemObject (memId : ℕ)
  | finishQueue
  | start
  | finish
  deriving DecidableEq, Repr

/-- A worker moves, and not `Run`. -/
def BacklogStep.ofWorker : BacklogStep → Bool
  | start | finish => true
  | _ => false

def Backlog.move (G : Growth) (s : Backlog) : BacklogStep → Option Backlog
  | .createBuffer mem size => s.handlerCreateBuffer G mem size
  | .createKernel kernel => some (s.handlerCreateKernel G kernel)
  | .enqueueReadBuffer memId blockingRead => s.handlerEnqueueReadBuffer memId blockingRead
  | .enqueueWriteBuffer memId blockingWrite => s.handlerEnqueueWriteBuffer memId blockingWrite
  | .enqueueTask kernelId => s.handlerEnqueueTask kernelId
  | .enqueueNDRangeKernel kernelId argMemIds => s.handlerEnqueueNDRangeKernel kernelId argMemIds
  | .enqueueCopyBuffer srcMemId dstMemId => s.handlerEnqueueCopyBuffer srcMemId dstMemId
  | .releaseMemObject memId => s.handlerReleaseMemObject memId
  | .finishQueue => some s.handlerFinish
  | .start => s.start
  | .finish => s.finish

/-- A session's handlers and the worker that executes its commands. -/
def backlog (G : Growth) : Machine Backlog BacklogStep where
  step s l := if s.blocked ∧ ¬ l.ofWorker then none else s.move G l

end ElasticFramework
