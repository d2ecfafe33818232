import ElasticFramework.Construction.ElasticIO
import ElasticFramework.Construction.Wire

/-!
# What an `ElasticClient` asks of its nodes

`init` and `run` (`client/elastic.cc`) use one connection for each level.  `init` has sent a `kReg`
message on it; then come the program and its build, the kernel, and a buffer for each input and each
output of the level, and in `run` the inputs, the launch and the outputs.  The member functions that
send all this are those of `newscl.cc` without some of the checks, and send the same messages; so
they are the calls of `Construction/Wire.lean`.  The kernel is launched in one dimension, without a
local size, and `run` asks for every read and write to block.

The process has called `init` once.  So the program and the kernel are the first of their
connection, and the replies give them the id zero.
-/

namespace ElasticFramework

namespace ElasticClient

/-! ## The calls of a level -/

/-- What `init` is called with: the file, up to the first zero that is in it or behind it, and the
name of the kernel; and which of the kernel's parameters `IsPointer` takes for pointers. -/
structure KernelFile where
  source : CString
  kernelName : CString
  isPointer : List Bool

/-- The memory of the client, and the bytes of the pointer to the `_cl_mem` with some id. -/
structure Host where
  byte : ℕ → UInt8
  pointer : ℕ → List UInt8

def clMemWriteOnly : ℕ := 2

def clMemReadOnly : ℕ := 4

/-- `CreateProgramWithSource`, of one string without a length.  The counter `id` of the client goes
with it. -/
def KernelFile.sources (k : KernelFile) : Sources where
  strings := [(k.source.mem, 0)]
  strlen := k.source.strlen
  count_lt := by
    rw [List.length_singleton]
    decide

/-- The id of an entry's buffer, which `init` has set. -/
def memId (e : IOEntry) : ℕ := e.clmem.getD 0

/-- `CreateBuffer`, of no host memory. -/
def createCall (flags : ℕ) (e : IOEntry) : Call := .createBuffer flags e.size fun _ => 0

/-- `EnqueueWriteBuffer`, from the address of an input. -/
def writeCall (host : Host) (e : IOEntry) : Call :=
  .enqueueWriteBuffer (memId e) 0 e.size 1 fun i => host.byte (e.address + i)

/-- `EnqueueReadBuffer`, to the address of an output. -/
def readCall (e : IOEntry) : Call := .enqueueReadBuffer (memId e) 0 e.size 1

end ElasticClient

/-- A kernel with nothing pending. -/
def PendingArgs.new (isPointer : List Bool) : PendingArgs where
  toClKernel := ClKernel.new isPointer
  length_eq := rfl

/-- `SetKernelArg`. -/
def PendingArgs.set (args : PendingArgs) (argIndex : ℕ) (argValue : ArgValue) : PendingArgs where
  toClKernel := (clSetKernelArg args.toClKernel argIndex argValue).2
  length_eq := by
    have hlength := args.length_eq
    unfold clSetKernelArg
    split
    · exact hlength
    · exact hlength
    · simp [hlength]

namespace ElasticClient

/-- What is pending for a kernel after the arguments that were bound. -/
def pendingArgs (isPointer : List Bool) (host : Host) (kernel : ℕ) (args : List (ℕ × ℕ × ℕ)) :
    PendingArgs :=
  (args.filter fun x => x.1 = kernel).foldl
    (fun pending x => pending.set x.2.1 ⟨some x.2.2, host.pointer x.2.2⟩) (.new isPointer)

/-- What is asked for on the connection of a level: in `init`, by the caller of `run`, and by the
thread it starts. -/
structure LevelPlan where
  setup : List Call
  sends : List Call
  reads : List Call

/-- The calls on the connection of a level, with the arguments bound by `init`. -/
def LevelRun.plan (k : KernelFile) (host : Host) (args : List (ℕ × ℕ × ℕ)) (r : LevelRun) :
    LevelPlan where
  setup := [.register 0, .createProgramWithSource (r.kernel + 1) k.sources, .buildProgram 0 none,
      .createKernel 0 k.kernelName] ++
    (r.inputs.map (createCall clMemReadOnly) ++ r.outputs.map (createCall clMemWriteOnly))
  sends := r.inputs.map (writeCall host) ++
    [.enqueueNDRangeKernel 0 [(r.workItem, 0)] (pendingArgs k.isPointer host r.kernel args)]
  reads := r.outputs.map readCall

end ElasticClient

end ElasticFramework
