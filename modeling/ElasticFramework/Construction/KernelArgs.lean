import ElasticFramework.Framework.Replay
import ElasticFramework.Framework.Transition
import Mathlib.Algebra.Order.Ring.Nat

/-!
# Kernel arguments, from `clSetKernelArg` to `CommandKernel::Exec`

`clSetKernelArg` (`newscl.cc`) only records on the client: a buffer argument in
`changed_mem_id`, a by-value argument in `const_data_info` with its bytes appended to
`const_data`.  `clEnqueueNDRangeKernel` sends the three lists and clears them;
`HandlerEnqueueNDRangeKernel` (`handler.cc`) copies them into a `CommandKernel` and pushes it on
the session's queue; `CommandKernel::Exec` (`command.cc`) sets the arguments on the device kernel
and launches.  `clEnqueueTask` and `HandlerEnqueueTask` do the same without the lists.

The model takes delivery for granted: the handler is given the three lists the client sent.  What
the messages do to them is the wire's business, not this file's.  Commands of a session run in
order, so the queue is a list whose head the step `exec` takes.

## The specification

`Immediate` is the state in which every `clSetKernelArg` has been applied to the device kernel at
once.  It is run in lockstep with the code, so that a launch can be compared with the arguments
set before the call.
-/

namespace ElasticFramework

/-- What an argument of a device kernel is bound to. -/
inductive Binding
  | null
  | buffer (memId : ℕ)
  | bytes (data : List UInt8)
  deriving DecidableEq, Repr

/-- What `arg_value` points at: the id of the `cl_mem` there, unless the pointer is null, and the
`arg_size` bytes there. -/
structure ArgValue where
  mem : Option ℕ
  data : List UInt8

/-! ## The client -/

/-- `struct _cl_kernel`. -/
structure ClKernel where
  isPointer : List Bool
  changedMemId : List (ℕ × ℕ)
  constDataInfo : List (ℕ × ℕ)
  constData : List UInt8

/-- The memory id that stands for a null pointer. -/
def nullMemId : ℕ := 2147483247

def clInvalidArgIndex : ℤ := -49

def clSuccess : ℤ := 0

/-- A kernel of the client with nothing pending. -/
def ClKernel.new (isPointer : List Bool) : ClKernel where
  isPointer := isPointer
  changedMemId := []
  constDataInfo := []
  constData := []

/-- `clSetKernelArg`: the error code and the kernel.  Both lists keep the index in an
`unsigned char`. -/
def clSetKernelArg (kernel : ClKernel) (argIndex : ℕ) (argValue : ArgValue) : ℤ × ClKernel :=
  match kernel.isPointer[argIndex]? with
  | none => (clInvalidArgIndex, kernel)
  | some true => (clSuccess, { kernel with
      changedMemId := kernel.changedMemId ++ [(argIndex % 2 ^ 8, argValue.mem.getD nullMemId)] })
  | some false => (clSuccess, { kernel with
      constDataInfo := kernel.constDataInfo ++ [(argIndex % 2 ^ 8, argValue.data.length)]
      constData := kernel.constData ++ argValue.data })

/-- The kernel after `clEnqueueNDRangeKernel` has sent the lists. -/
def ClKernel.clear (kernel : ClKernel) : ClKernel :=
  { kernel with changedMemId := [], constDataInfo := [], constData := [] }

/-! ## The compute node -/

/-- `class CommandKernel`. -/
structure CommandKernel where
  kernelId : ℕ
  isNDRange : Bool
  argMemId : List (ℕ × ℕ)
  argConst : List (ℕ × ℕ)
  constData : List UInt8

namespace CommandKernel

/-- `CommandKernel::CommandKernel`. -/
def new (kernelId : ℕ) (isNDRange : Bool) : CommandKernel where
  kernelId := kernelId
  isNDRange := isNDRange
  argMemId := []
  argConst := []
  constData := []

def addArg (c : CommandKernel) (argIdx mem : ℕ) : CommandKernel :=
  { c with argMemId := c.argMemId ++ [(argIdx, mem)] }

def addConst (c : CommandKernel) (argIdx argSize : ℕ) : CommandKernel :=
  { c with argConst := c.argConst ++ [(argIdx, argSize)] }

/-- The `clSetKernelArg` calls of `CommandKernel::Exec`: all buffers, then all constants, each
constant read at the running offset. -/
def exec (c : CommandKernel) (args : ℕ → Option Binding) : ℕ → Option Binding :=
  let args := c.argMemId.foldl
    (fun (args : ℕ → Option Binding) x => Function.update args x.1 (some (.buffer x.2))) args
  (c.argConst.foldl
    (fun (acc : (ℕ → Option Binding) × ℕ) x =>
      (Function.update acc.1 x.1 (some (.bytes ((c.constData.drop acc.2).take x.2))),
        acc.2 + x.2)) (args, 0)).1

end CommandKernel

/-- The writes of the buffer list. -/
def memWrites (l : List (ℕ × ℕ)) : List (ℕ × Binding) := l.map fun x => (x.1, .buffer x.2)

/-- The writes of the by-value list, cut out of the bytes one after the other. -/
def constWrites : List (ℕ × ℕ) → List UInt8 → List (ℕ × Binding)
  | [], _ => []
  | x :: l, data => (x.1, .bytes (data.take x.2)) :: constWrites l (data.drop x.2)

/-- `HandlerEnqueueNDRangeKernel` on the lists of the launch; `none` is a failed assertion. -/
def handlerEnqueueNDRangeKernel (kernelId : ℕ) (changedMemId constDataInfo : List (ℕ × ℕ))
    (constData : List UInt8) : Option CommandKernel := do
  let comm ← changedMemId.foldlM
    (fun (comm : CommandKernel) x =>
      if x.2 ≠ nullMemId then some (comm.addArg x.1 x.2) else none)
    (CommandKernel.new kernelId true)
  let comm := { comm with constData := constData }
  if constDataInfo = [] then some comm
  else if (constDataInfo.map Prod.snd).sum % 2 ^ 32 = constData.length % 2 ^ 32 then
    some (constDataInfo.foldl (fun comm x => comm.addConst x.1 x.2) comm)
  else none

/-- `HandlerEnqueueTask`. -/
def handlerEnqueueTask (kernelId : ℕ) : CommandKernel := CommandKernel.new kernelId false

/-! ## A session -/

/-- The arguments of every device kernel. -/
abbrev DeviceArgs := ℕ → ℕ → Option Binding

/-- The client's kernels, the session's queue, and the device kernels, by kernel id. -/
structure KernelSession where
  kernels : ℕ → ClKernel
  commands : List CommandKernel
  args : DeviceArgs

/-- The code, and the arguments as if every call had been applied at once. -/
structure Lockstep where
  code : KernelSession
  immediate : DeviceArgs

namespace Lockstep

/-- A session whose kernels have the given parameters. -/
def init (isPointer : ℕ → List Bool) : Lockstep where
  code :=
    { kernels := fun k => ClKernel.new (isPointer k)
      commands := []
      args := fun _ _ => none }
  immediate := fun _ _ => none

end Lockstep

/-- The calls of the client, and the node taking a command off the queue. -/
inductive KernelCall
  | setKernelArg (kernel argIndex : ℕ) (argValue : ArgValue)
  | enqueueNDRangeKernel (kernel : ℕ)
  | enqueueTask (kernel : ℕ)
  | exec

/-- What a direct call of `clSetKernelArg` on the device kernel binds. -/
def ArgValue.binding (v : ArgValue) : Bool → Binding
  | true => v.mem.elim .null .buffer
  | false => .bytes v.data

namespace KernelSession

/-- One call of the client, or one command of the queue. -/
def step (s : KernelSession) : KernelCall → Option KernelSession
  | .setKernelArg k argIndex argValue =>
    some { s with
      kernels := Function.update s.kernels k (clSetKernelArg (s.kernels k) argIndex argValue).2 }
  | .enqueueNDRangeKernel k =>
    (handlerEnqueueNDRangeKernel k (s.kernels k).changedMemId (s.kernels k).constDataInfo
      (s.kernels k).constData).map fun comm =>
        { s with
          kernels := Function.update s.kernels k (s.kernels k).clear
          commands := s.commands ++ [comm] }
  | .enqueueTask k => some { s with commands := s.commands ++ [handlerEnqueueTask k] }
  | .exec =>
    match s.commands with
    | [] => none
    | comm :: rest =>
      some { s with
        commands := rest
        args := Function.update s.args comm.kernelId (comm.exec (s.args comm.kernelId)) }

end KernelSession

/-- `clSetKernelArg` applied to the device kernel at once. -/
def Lockstep.setImmediate (s : Lockstep) : KernelCall → DeviceArgs
  | .setKernelArg k argIndex argValue =>
    match (s.code.kernels k).isPointer[argIndex]? with
    | none => s.immediate
    | some isPointer => Function.update s.immediate k
        (Function.update (s.immediate k) argIndex (some (argValue.binding isPointer)))
  | _ => s.immediate

/-- The session next to its specification.  A launch that fails an assertion of the handler ends
the process, so it has no successor. -/
def kernelSession : Machine Lockstep KernelCall where
  step := fun s l => (s.code.step l).map fun code => ⟨code, s.setImmediate l⟩

end ElasticFramework
