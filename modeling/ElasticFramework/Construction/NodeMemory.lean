import ElasticFramework.Construction.Backlog
import ElasticFramework.Construction.OpenCL
import ElasticFramework.Construction.System

/-!
# The compute node with what its commands do

`Construction/System.lean` has the threads of the node and the commands they hand on, but nothing
of what a command is for.  Here every `Run` has its three vectors, every command its fields, and
the context of OpenCL is shared.  A handler creates objects at once or pushes a command, and the
calls of an `Exec` are made when it returns.

Each session serves any requests at all (`Construction/Handlers.lean` reads them).  A request comes
with the bytes OpenCL leaves in a new buffer that nothing was copied to.  The pointers of commands
into `mems` and `kernels` are those of `Construction/Backlog.lean`: through one that dangles nothing
is executed, and there is no next state.  Nor is there one for an index past the end of a vector,
and for a call that OpenCL refuses.  `HandlerEnqueueReadBuffer` and `HandlerEnqueueWriteBuffer` may
go on before their command has been executed, which is more than `Blocking` lets them.

## What is meant

`SessionObjects` are the objects of one session that has a node for itself, by the positions they
have in the vectors, and `immediate` is the machine that carries out its requests in the order they
are made, each before the next, as documented.  It stops at a request that is not valid: one for an
object that the session has not made or has released, or for bytes that are not there.
-/

namespace ElasticFramework

/-! ## Requests -/

/-- A request, and what is in a buffer that is created for it. -/
structure Asked where
  request : Request
  uninitialized : List UInt8

namespace Request

/-- What has come for a transfer of `cb` bytes, behind it what was in the array before. -/
def padded (data before : List UInt8) : List UInt8 := data ++ before.drop data.length

/-- The object a request creates, with indices for handles. -/
def creation (uninitialized : List UInt8) : Request → Option Creation
  | .createProgramWithSource _ strs => some (.program strs)
  | .buildProgram programId => some (.build programId)
  | .createKernel programId kernelName => some (.kernel programId kernelName)
  | .createBuffer flags size data => some (.buffer flags size (padded (data.getD []) uninitialized))
  | _ => none

/-- What the command of a request will ask of OpenCL, with indices for handles. -/
def deviceCall : Request → Option DeviceCall
  | .enqueueTask comm => some (.launch comm [] [])
  | .enqueueReadBuffer memId offset cb _ => some (.readBuffer memId offset cb)
  | .enqueueWriteBuffer memId offset cb _ data =>
    some (.writeBuffer memId offset (padded data (List.replicate cb 0)))
  | .finish queueId => some (.finish queueId)
  | .enqueueNDRangeKernel comm globalWorkSize localWorkSize =>
    some (.launch comm globalWorkSize localWorkSize)
  | .enqueueCopyBuffer srcMemId dstMemId srcOffset dstOffset cb =>
    some (.copyBuffer srcMemId dstMemId srcOffset dstOffset cb)
  | .releaseMemObject memId => some (.releaseMemObject memId)
  | _ => none

/-- The class of the command. -/
def kind : Request → CommandKind
  | .enqueueReadBuffer _ _ _ _ => .read
  | .enqueueWriteBuffer _ _ _ _ _ => .write
  | .finish _ => .finish
  | .enqueueCopyBuffer _ _ _ _ _ => .copyBuffer
  | .releaseMemObject _ => .releaseMemObject
  | _ => .kernel

end Request

/-! ## One session by itself -/

/-- The objects of a session by their positions, and how many there have been. -/
structure SessionObjects where
  objects : CLObjects
  count : ObjectKind → ℕ

namespace SessionObjects

def init : SessionObjects where
  objects := .empty
  count := fun _ => 0

/-- The position a new object gets; a program that is built keeps its own. -/
def position (x : SessionObjects) (c : Creation) : ℕ := (c.object.map x.count).getD 0

/-- The numbers of objects after one more. -/
def grown (x : SessionObjects) (c : Creation) (kind : ObjectKind) : ℕ :=
  x.count kind + if c.object = some kind then 1 else 0

def create (x : SessionObjects) (c : Creation) : Option SessionObjects :=
  (x.objects.create (x.position c) c).map fun objects => { objects := objects, count := x.grown c }

variable {D : Type*}

noncomputable def exec (kernels : Kernels D) (dev : D) (x : SessionObjects) (c : DeviceCall) :
    Option SessionObjects :=
  (x.objects.exec kernels dev c).map fun objects => { x with objects := objects }

/-- A request is carried out. -/
noncomputable def serve (kernels : Kernels D) (dev : D) (x : SessionObjects) (a : Asked) :
    Option SessionObjects :=
  match a.request.creation a.uninitialized, a.request.deviceCall with
  | some c, _ => x.create c
  | none, some c => x.exec kernels dev c
  | none, none => some x

/-- The bytes a request to read comes to. -/
def reads (x : SessionObjects) (a : Asked) : List (List UInt8) :=
  (a.request.deviceCall.map x.objects.reads).getD []

end SessionObjects

/-- A session whose requests are carried out one after the other, on device `dev`. -/
noncomputable def immediate {D : Type*} (kernels : Kernels D) (dev : D) :
    Machine SessionObjects Asked := ⟨SessionObjects.serve kernels dev⟩

/-! ## The vectors of `Run` -/

/-- `programs`, `kernels` and `mems`. -/
structure Vectors where
  programs : List ℕ
  kernels : Storage CLKernel
  mems : Storage MemObject

namespace Vectors

def init : Vectors where
  programs := []
  kernels := .empty
  mems := .empty

/-- The handle of a buffer. -/
def memHandle? (v : Vectors) (i : ℕ) : Option ℕ := v.mems.entries[i]?.map MemObject.mem

/-- The object is created with the handles of the vectors. -/
def resolve (v : Vectors) : Creation → Option Creation
  | .program source => some (.program source)
  | .build i => v.programs[i]?.map .build
  | .kernel i kernelName => v.programs[i]?.map fun h => .kernel h kernelName
  | .buffer flags size contents => some (.buffer flags size contents)

/-- The handle of the new object goes to the end of its vector. -/
def pushNew (G : Growth) (v : Vectors) (new : ℕ) : Creation → Vectors
  | .program _ => { v with programs := v.programs ++ [new] }
  | .build _ => v
  | .kernel _ _ => { v with kernels := v.kernels.push G { kernel := new, skip := false } }
  | .buffer _ size _ =>
    { v with mems := v.mems.push G { mem := new, newestOnDev := none, size := size % 2 ^ 32 } }

end Vectors

/-! ## Commands -/

/-- The fields of a command: pointers into the vectors, and handles. -/
inductive Work
  | read (mem : Reference) (offset cb : ℕ)
  | write (mem : Reference) (memObject offset : ℕ) (data : List UInt8)
  | copyBuffer (srcMem dstMem srcOffset dstOffset cb : ℕ)
  | releaseMemObject (mem : ℕ)
  | kernel (kernel : Reference) (comm : CommandKernel) (globalWorkSize localWorkSize : List ℕ)
  | finish

namespace Vectors

/-- The command a handler makes. -/
def command (v : Vectors) : DeviceCall → Option Work
  | .readBuffer i offset cb => (v.memHandle? i).map fun _ => .read (v.mems.ref i) offset cb
  | .writeBuffer i offset data =>
    (v.memHandle? i).map fun mem => .write (v.mems.ref i) mem offset data
  | .copyBuffer src dst srcOffset dstOffset cb =>
    (v.memHandle? src).bind fun srcMem => (v.memHandle? dst).map fun dstMem =>
      .copyBuffer srcMem dstMem srcOffset dstOffset cb
  | .releaseMemObject i => (v.memHandle? i).map .releaseMemObject
  | .launch comm globalWorkSize localWorkSize =>
    v.kernels.entries[comm.kernelId]?.bind fun _ =>
      (comm.argMemId.mapM fun x => (v.memHandle? x.2).map fun mem => (x.1, mem)).map fun argMemId =>
        .kernel (v.kernels.ref comm.kernelId) { comm with argMemId := argMemId }
          globalWorkSize localWorkSize
  | .finish queueId => if queueId = 0 then some .finish else none

/-- What the command asks of OpenCL once it is executed. -/
def call (v : Vectors) : Work → Option DeviceCall
  | .read mem offset cb => (v.mems.deref mem).map fun m => .readBuffer m.mem offset cb
  | .write mem memObject offset data =>
    (v.mems.deref mem).map fun _ => .writeBuffer memObject offset data
  | .copyBuffer srcMem dstMem srcOffset dstOffset cb =>
    some (.copyBuffer srcMem dstMem srcOffset dstOffset cb)
  | .releaseMemObject mem => some (.releaseMemObject mem)
  | .kernel kernel comm globalWorkSize localWorkSize => (v.kernels.deref kernel).map fun k =>
      .launch { comm with kernelId := k.kernel } globalWorkSize localWorkSize
  | .finish => some (.finish 0)

end Vectors

/-! ## The node -/

/-- The threads, the context, and the commands by their addresses, each with its session. -/
structure NodeMemory (K T : Type*) {W : Type*} (cl : OpenCL W) where
  base : State K W T
  context : cl.Context
  vectors : T → Vectors
  work : ℕ → Option (T × Work)

/-- A handler runs, a command has been executed, or a thread moves otherwise. -/
inductive MemoryStep (K W T : Type*)
  | handle (t : T) (a : Asked)
  | execute (w : W) (usedTime : K)
  | other (l : Label K W T)

variable {K W T : Type*} [Arith K] [DecidableEq W] [DecidableEq T] {cl : OpenCL W}

/-- The move of `Construction/System.lean` that a handler makes when it pushes a command. -/
def Request.label (t : T) (r : Request) : Label K W T :=
  if r.kind = .finish then .finish t else .push t r.kind

/-- The moves that are given another meaning here. -/
def Label.replaced : Label K W T → Bool
  | .push _ _ | .finish _ | .endExec _ _ => true
  | _ => false

namespace NodeMemory

omit [DecidableEq W] [DecidableEq T] in
variable (cl) in
def init : NodeMemory K T cl where
  base := State.init
  context := cl.initial
  vectors := fun _ => .init
  work := fun _ => none

/-- A handler creates an object. -/
def create (G : Growth) (s : NodeMemory K T cl) (t : T) (c : Creation) :
    Option (NodeMemory K T cl) :=
  ((s.vectors t).resolve c).bind fun c' => (cl.create s.context c').map fun x =>
    { s with
      context := x.2
      vectors := Function.update s.vectors t ((s.vectors t).pushNew G x.1 c) }

/-- A handler pushes a command. -/
def push (s : NodeMemory K T cl) (t : T) (r : Request) (c : DeviceCall) :
    Option (NodeMemory K T cl) :=
  ((s.vectors t).command c).bind fun work => (step s.base (r.label t)).map fun base =>
    { s with
      base := base
      work := Function.update s.work s.base.nextPtr (some (t, work)) }

/-- The handler of a request. -/
def handle (G : Growth) (s : NodeMemory K T cl) (t : T) (a : Asked) :
    Option (NodeMemory K T cl) :=
  match s.base.session t with
  | .serving _ _ =>
    match a.request.creation a.uninitialized, a.request.deviceCall with
    | some c, _ => s.create G t c
    | none, some c => s.push t a.request c
    | none, none => some s
  | _ => none

/-- The call of the command that worker `w` is in the `Exec` of. -/
def running (s : NodeMemory K T cl) (w : W) : Option (T × DeviceCall) :=
  match s.base.worker w with
  | .executing _ comm =>
    (s.work comm.ptr).bind fun x => ((s.vectors x.1).call x.2).map fun c => (x.1, c)
  | _ => none

/-- `Exec` returns. -/
def execute (s : NodeMemory K T cl) (w : W) (usedTime : K) : Option (NodeMemory K T cl) :=
  (s.running w).bind fun x => (cl.exec s.context w x.2).bind fun y =>
    (step s.base (.endExec w usedTime)).map fun base => { s with base := base, context := y.2 }

end NodeMemory

/-- The compute node with its memory. -/
def nodeMemory (cl : OpenCL W) (G : Growth) : Machine (NodeMemory K T cl) (MemoryStep K W T) where
  step s
    | .handle t a => s.handle G t a
    | .execute w usedTime => s.execute w usedTime
    | .other l =>
      if l.replaced then none else (step s.base l).map fun base => { s with base := base }

/-- The requests of a session in a run. -/
def askedBy (t : T) (ls : List (MemoryStep K W T)) : List Asked :=
  ls.filterMap fun
    | .handle t' a => if t' = t then some a else none
    | _ => none

/-- What a step has a session's `CommandRead`s read. -/
def NodeMemory.readsFor (t : T) (s : NodeMemory K T cl) : MemoryStep K W T → List (List UInt8)
  | .execute w _ =>
    match s.running w with
    | some (t', c) => if t' = t then ((cl.exec s.context w c).map Prod.fst).getD [] else []
    | none => []
  | _ => []

/-- What the reads of a session have found in a run. -/
def readBy (cl : OpenCL W) (G : Growth) (t : T) (ls : List (MemoryStep K W T)) :
    List (List UInt8) :=
  (nodeMemory cl G).trace (NodeMemory.readsFor t) (NodeMemory.init cl) ls

end ElasticFramework
