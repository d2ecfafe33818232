import ElasticFramework.Framework.Arith
import ElasticFramework.Framework.Selection
import ElasticFramework.Framework.Tally

/-!
# The compute node's objects

The `shared_ptr` objects of the compute node and the two singletons that own them:
`VMInfo` (`VM.h`), `CommandQueue` and `CommandPool` (`command.h`, `command.cc`) and
`VMAFS_N_Scheduler`.  A `shared_ptr` is a natural number, and `Node` holds the two heaps it
points into next to the fields of the singletons, so pointer identity is equality of numbers and
an object outlives its removal from a list exactly as it does in the source.

Every function here is one source function (or one critical section of one), on the whole
`Node`; which thread calls it, and in what interleaving, is `Construction/System.lean`.

## Arithmetic

`double` is an arbitrary `Arith K`.  `D` is the type of device queues, compared by identity
only.  The model follows the build without `CPU_TIME`.
-/

namespace ElasticFramework

/-! ## The records -/

/-- `struct VMInfo`. -/
structure VMInfo (K : Type*) where
  id : ℕ
  weight : K
  totalUsedTime : K
  referenceCount : ℕ

/-- `VMInfo::VMInfo`, with the default `total_used_time`. -/
def VMInfo.new {K : Type*} [Arith K] (id : ℕ) (weight : K) : VMInfo K where
  id := id
  weight := weight
  totalUsedTime := 0
  referenceCount := 0

/-- The classes derived from `Command`. -/
inductive CommandKind
  | releaseMemObject
  | copyBuffer
  | finish
  | kernel
  | read
  | write
  deriving DecidableEq, Repr

/-- A `Command*`: the address `new` returned, the class, and the field the scheduler reads. -/
structure Command (K : Type*) where
  ptr : ℕ
  kind : CommandKind
  estExecTime : K

/-- `Command::Command`. -/
def Command.new {K : Type*} [Arith K] (ptr : ℕ) (kind : CommandKind) : Command K where
  ptr := ptr
  kind := kind
  estExecTime := 1

/-- `class CommandQueue`. -/
structure CommandQueue (K D : Type*) where
  /-- `VM_`, a pointer into the heap of VMs. -/
  VM : ℕ
  bindingDev : Option D
  skip : Bool
  queue : List (Command K)

namespace CommandQueue

variable {K D : Type*}

/-- `CommandQueue::CommandQueue`, with the default device and flag. -/
def new (VM : ℕ) : CommandQueue K D where
  VM := VM
  bindingDev := none
  skip := false
  queue := []

def isEmpty (q : CommandQueue K D) : Bool := q.queue.isEmpty

/-- A queue a device worker may be given. -/
def ready (q : CommandQueue K D) : Bool := !(q.skip || q.isEmpty)

lemma ready_iff {q : CommandQueue K D} : q.ready = true ↔ q.skip = false ∧ q.queue ≠ [] := by
  simp [ready, isEmpty]

end CommandQueue

/-- The singletons `CommandPool` and `VMAFS_N_Scheduler` and the objects they point to. -/
structure Node (K D : Type*) where
  /-- The `VMInfo` objects. -/
  vm : ℕ → VMInfo K
  /-- The `CommandQueue` objects. -/
  que : ℕ → CommandQueue K D
  /-- `VMs_`. -/
  VMs : List ℕ
  basedInnerProduct : K
  weightLengSquare : K
  timeLengSquare : K
  /-- `queues_`. -/
  queues : List ℕ
  /-- `sem_`, the work tokens. -/
  sem : ℕ
  /-- The address of the next `VMInfo`. -/
  nextVM : ℕ
  /-- The address of the next `CommandQueue`. -/
  nextQueue : ℕ

namespace Node

variable {K D : Type*} [Arith K]

/-- `VMAFS_N_Scheduler::VMAFS_N_Scheduler` and `CommandPool::CommandPool`. -/
def init : Node K D where
  vm := fun _ => VMInfo.new 0 0
  que := fun _ => CommandQueue.new 0
  VMs := []
  basedInnerProduct := 0
  weightLengSquare := 0
  timeLengSquare := 0
  queues := []
  sem := 0
  nextVM := 0
  nextQueue := 0

/-! ## `CommandPool`'s tokens -/

/-- `CommandPool::Increase`. -/
def increase (n : Node K D) : Node K D := { n with sem := n.sem + 1 }

/-- `CommandPool::WaitAndDecrease`: `sem_wait` blocks at zero. -/
def waitAndDecrease (n : Node K D) : Option (Node K D) :=
  if n.sem = 0 then none else some { n with sem := n.sem - 1 }

/-- `CommandPool::check`. -/
def check [DecidableEq D] (n : Node K D) (dev : D) : Bool :=
  n.queues.any fun q =>
    !(n.que q).skip && !(n.que q).isEmpty &&
      ((n.que q).bindingDev == none || (n.que q).bindingDev == some dev)

/-! ## `CommandQueue`'s methods -/

/-- Replace one queue object. -/
def setQueue (n : Node K D) (q : ℕ) (cq : CommandQueue K D) : Node K D :=
  { n with que := Function.update n.que q cq }

/-- `CommandQueue::Push`: a token goes with a command that finds the queue empty and not
skipped. -/
def push (n : Node K D) (q : ℕ) (comm : Command K) : Node K D :=
  let isIncrease := (n.que q).isEmpty
  let n' := n.setQueue q { n.que q with queue := (n.que q).queue ++ [comm] }
  if isIncrease && !(n.que q).skip then n'.increase else n'

/-- `CommandQueue::Pop`; `pop_front` of an empty list is not called. -/
def pop (n : Node K D) (q : ℕ) : Node K D :=
  n.setQueue q { n.que q with queue := (n.que q).queue.tail }

/-- `CommandQueue::set_skip`. -/
def setSkip (n : Node K D) (q : ℕ) (b : Bool) : Node K D :=
  n.setQueue q { n.que q with skip := b }

/-- `CommandQueue::set_binding_dev`. -/
def setBindingDev (n : Node K D) (q : ℕ) (dev : D) : Node K D :=
  n.setQueue q { n.que q with bindingDev := some dev }

/-! ## `CommandPool`'s queues -/

/-- `CommandPool::CreateQueue`. -/
def createQueue (n : Node K D) (v : ℕ) : Node K D :=
  { n with
    que := Function.update n.que n.nextQueue (CommandQueue.new v)
    vm := Function.update n.vm v { n.vm v with referenceCount := (n.vm v).referenceCount + 1 }
    queues := n.queues ++ [n.nextQueue]
    nextQueue := n.nextQueue + 1 }

/-- `CommandPool::DestroyQueue`. -/
def destroyQueue (n : Node K D) (q : ℕ) : Node K D :=
  let v := (n.que q).VM
  { n with
    vm := Function.update n.vm v { n.vm v with referenceCount := (n.vm v).referenceCount - 1 }
    queues := n.queues.erase q }

/-! ## `VMAFS_N_Scheduler` -/

/-- `VMAFS_N_Scheduler::CreateVM`. -/
def createVM (n : Node K D) (weight : K) : Node K D :=
  { n with
    vm := Function.update n.vm n.nextVM (VMInfo.new n.VMs.length weight)
    VMs := n.VMs ++ [n.nextVM]
    weightLengSquare := n.weightLengSquare + weight * weight
    nextVM := n.nextVM + 1 }

/-- `VMAFS_N_Scheduler::DestroyVM`: the error code and the new state. -/
def destroyVM (n : Node K D) (v : ℕ) : ℤ × Node K D :=
  if (n.vm v).referenceCount ≠ 0 then (-1, n)
  else if v ∈ n.VMs then
    (0, { n with
      basedInnerProduct := n.basedInnerProduct - (n.vm v).weight * (n.vm v).totalUsedTime
      weightLengSquare := n.weightLengSquare - (n.vm v).weight * (n.vm v).weight
      timeLengSquare := n.timeLengSquare - (n.vm v).totalUsedTime * (n.vm v).totalUsedTime
      VMs := n.VMs.erase v })
  else (0, n)

/-- `VMAFS_N_Scheduler::IncreaseInnerProduct`. -/
def increaseInnerProduct (n : Node K D) (value : K) : Node K D :=
  { n with basedInnerProduct := n.basedInnerProduct + value }

/-- `VMAFS_N_Scheduler::IncreaseTimeLengSquare`. -/
def increaseTimeLengSquare (n : Node K D) (value : K) : Node K D :=
  { n with timeLengSquare := n.timeLengSquare + value }

/-- The accounting of `DevScheduler` for a command of queue `q` that took `usedTime`. -/
def account (n : Node K D) (q : ℕ) (usedTime : K) : Node K D :=
  let v := (n.que q).VM
  let vm := n.vm v
  let n' := (n.increaseInnerProduct (usedTime * vm.weight)).increaseTimeLengSquare
    ((1 + 1) * vm.totalUsedTime * usedTime + usedTime * usedTime)
  { n' with vm := Function.update n.vm v { vm with totalUsedTime := vm.totalUsedTime + usedTime } }

/-- `cos_value` in `InOrderSchedule`: the cosine after the head command of `q` has run. -/
def cosValue (n : Node K D) (q : ℕ) : K :=
  match (n.que q).queue with
  | [] => 0
  | command :: _ =>
    let vm := n.vm (n.que q).VM
    let innerProduct := n.basedInnerProduct + command.estExecTime * vm.weight
    let timeLeng := Arith.sqrt (n.timeLengSquare +
      ((1 + 1) * vm.totalUsedTime * command.estExecTime +
        command.estExecTime * command.estExecTime))
    innerProduct / (Arith.sqrt n.weightLengSquare * timeLeng)

/-- `VMAFS_N_Scheduler::InOrderSchedule`: the loop over `queues_` skips queues that are in use
or empty and keeps the first queue with the largest `cos_value` above `-1`. -/
def inOrderSchedule (n : Node K D) : Option ℕ :=
  (bestFrom (fun q => (n.que q).ready) n.cosValue (-1, none) n.queues).2

/-- Whatever the arithmetic, a queue handed out is a pool queue that is not empty and not
skipped. -/
lemma inOrderSchedule_ready {n : Node K D} {q : ℕ} (h : n.inOrderSchedule = some q) :
    q ∈ n.queues ∧ (n.que q).ready = true :=
  bestFrom_mem h

/-- The only queue is the one handed out. -/
lemma inOrderSchedule_of_single {n : Node K D} {q : ℕ} (hqueues : n.queues = [q])
    (hready : (n.que q).ready = true) (hlt : -1 < n.cosValue q) : n.inOrderSchedule = some q := by
  simp [inOrderSchedule, hqueues, improve, hready, hlt]

end Node

/-! ## What an operation leaves alone -/

namespace Node

variable {K D : Type*}

@[simp] lemma setQueue_que (n : Node K D) (q : ℕ) (cq : CommandQueue K D) :
    (n.setQueue q cq).que = Function.update n.que q cq := rfl

@[simp] lemma setQueue_queues (n : Node K D) (q : ℕ) (cq : CommandQueue K D) :
    (n.setQueue q cq).queues = n.queues := rfl

/-- A change to a queue object that `f` does not see. -/
lemma setQueue_congr {β : Type*} {f : CommandQueue K D → β} {n : Node K D} {q : ℕ}
    {cq : CommandQueue K D} (h : f cq = f (n.que q)) (p : ℕ) :
    f ((n.setQueue q cq).que p) = f (n.que p) :=
  apply_update_eq h p

@[simp] lemma setSkip_queue (n : Node K D) (q p : ℕ) (b : Bool) :
    ((n.setSkip q b).que p).queue = (n.que p).queue := by
  refine setQueue_congr (f := CommandQueue.queue) ?_ p
  rfl

@[simp] lemma setBindingDev_queue (n : Node K D) (q p : ℕ) (dev : D) :
    ((n.setBindingDev q dev).que p).queue = (n.que p).queue := by
  refine setQueue_congr (f := CommandQueue.queue) ?_ p
  rfl

@[simp] lemma setBindingDev_ready (n : Node K D) (q p : ℕ) (dev : D) :
    ((n.setBindingDev q dev).que p).ready = (n.que p).ready := by
  refine setQueue_congr (f := CommandQueue.ready) ?_ p
  rfl

@[simp] lemma setBindingDev_VM (n : Node K D) (q p : ℕ) (dev : D) :
    ((n.setBindingDev q dev).que p).VM = (n.que p).VM := by
  refine setQueue_congr (f := CommandQueue.VM) ?_ p
  rfl

@[simp] lemma setSkip_VM (n : Node K D) (q p : ℕ) (b : Bool) :
    ((n.setSkip q b).que p).VM = (n.que p).VM := by
  refine setQueue_congr (f := CommandQueue.VM) ?_ p
  rfl

@[simp] lemma pop_VM (n : Node K D) (q p : ℕ) : ((n.pop q).que p).VM = (n.que p).VM := by
  refine setQueue_congr (f := CommandQueue.VM) ?_ p
  rfl

@[simp] lemma push_que (n : Node K D) (q : ℕ) (comm : Command K) :
    (n.push q comm).que =
      Function.update n.que q { n.que q with queue := (n.que q).queue ++ [comm] } := by
  simp only [push]
  split <;> rfl

@[simp] lemma push_VM (n : Node K D) (q p : ℕ) (comm : Command K) :
    ((n.push q comm).que p).VM = (n.que p).VM := by
  rw [push_que]
  refine apply_update_eq (f := CommandQueue.VM) ?_ p
  rfl

/-- `Push` writes the queue objects and the semaphore. -/
lemma push_congr {β : Type*} {f : Node K D → β}
    (hf : ∀ (n : Node K D) (que : ℕ → CommandQueue K D) (sem : ℕ),
      f { n with que := que, sem := sem } = f n)
    (n : Node K D) (q : ℕ) (comm : Command K) : f (n.push q comm) = f n := by
  simp only [push]
  split
  · exact hf n _ _
  · exact hf n _ n.sem

@[simp] lemma push_queues (n : Node K D) (q : ℕ) (comm : Command K) :
    (n.push q comm).queues = n.queues :=
  push_congr (f := Node.queues) (fun _ _ _ => rfl) n q comm

@[simp] lemma push_VMs (n : Node K D) (q : ℕ) (comm : Command K) :
    (n.push q comm).VMs = n.VMs :=
  push_congr (f := Node.VMs) (fun _ _ _ => rfl) n q comm

@[simp] lemma push_nextQueue (n : Node K D) (q : ℕ) (comm : Command K) :
    (n.push q comm).nextQueue = n.nextQueue :=
  push_congr (f := Node.nextQueue) (fun _ _ _ => rfl) n q comm

@[simp] lemma push_vm (n : Node K D) (q : ℕ) (comm : Command K) :
    (n.push q comm).vm = n.vm :=
  push_congr (f := Node.vm) (fun _ _ _ => rfl) n q comm

@[simp] lemma push_nextVM (n : Node K D) (q : ℕ) (comm : Command K) :
    (n.push q comm).nextVM = n.nextVM :=
  push_congr (f := Node.nextVM) (fun _ _ _ => rfl) n q comm

lemma push_sem (n : Node K D) (q : ℕ) (comm : Command K) :
    (n.push q comm).sem =
      n.sem + if (n.que q).queue = [] ∧ (n.que q).skip = false then 1 else 0 := by
  by_cases hq : (n.que q).queue = [] <;> cases hs : (n.que q).skip <;>
    simp [push, CommandQueue.isEmpty, setQueue, increase, hq, hs]

variable [Arith K]

/-- `DestroyVM` writes the three sums and `VMs_`; what does not read them it leaves alone. -/
lemma destroyVM_congr {β : Type*} {f : Node K D → β}
    (hf : ∀ (n : Node K D) (b w t : K) (VMs : List ℕ),
      f { n with
        basedInnerProduct := b, weightLengSquare := w, timeLengSquare := t, VMs := VMs } = f n)
    (n : Node K D) (v : ℕ) : f (n.destroyVM v).2 = f n := by
  unfold destroyVM
  split
  · rfl
  · split
    · exact hf n _ _ _ _
    · rfl

@[simp] lemma destroyVM_que (n : Node K D) (v : ℕ) : (n.destroyVM v).2.que = n.que :=
  destroyVM_congr (f := Node.que) (fun _ _ _ _ _ => rfl) n v

@[simp] lemma destroyVM_queues (n : Node K D) (v : ℕ) :
    (n.destroyVM v).2.queues = n.queues :=
  destroyVM_congr (f := Node.queues) (fun _ _ _ _ _ => rfl) n v

@[simp] lemma destroyVM_sem (n : Node K D) (v : ℕ) : (n.destroyVM v).2.sem = n.sem :=
  destroyVM_congr (f := Node.sem) (fun _ _ _ _ _ => rfl) n v

@[simp] lemma destroyVM_vm (n : Node K D) (v : ℕ) : (n.destroyVM v).2.vm = n.vm :=
  destroyVM_congr (f := Node.vm) (fun _ _ _ _ _ => rfl) n v

@[simp] lemma destroyVM_nextQueue (n : Node K D) (v : ℕ) :
    (n.destroyVM v).2.nextQueue = n.nextQueue :=
  destroyVM_congr (f := Node.nextQueue) (fun _ _ _ _ _ => rfl) n v

@[simp] lemma destroyVM_nextVM (n : Node K D) (v : ℕ) :
    (n.destroyVM v).2.nextVM = n.nextVM :=
  destroyVM_congr (f := Node.nextVM) (fun _ _ _ _ _ => rfl) n v

/-- `DestroyVM` takes no other VM off `VMs_`. -/
lemma mem_destroyVM_of_ne {n : Node K D} {u v : ℕ} (hu : u ∈ n.VMs) (hne : u ≠ v) :
    u ∈ (n.destroyVM v).2.VMs := by
  unfold destroyVM
  split
  · exact hu
  · split
    · exact (List.mem_erase_of_ne hne).2 hu
    · exact hu

lemma mem_of_mem_destroyVM {n : Node K D} {u v : ℕ} (hu : u ∈ (n.destroyVM v).2.VMs) :
    u ∈ n.VMs := by
  unfold destroyVM at hu
  split at hu
  · exact hu
  · split at hu
    · exact List.mem_of_mem_erase hu
    · exact hu

end Node

end ElasticFramework
