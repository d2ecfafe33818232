import ElasticFramework.Framework.Transition
import Mathlib.Logic.Function.Basic

/-!
# The instances of the compute node

`CommandPool::Instance` (`cn/command.cc`) and `VMAFS_N_Scheduler::Instance`
(`cn/VMAFS_N_Scheduler.cc`) have the same body, for another class:

    if (!is_init) {
      pthread_mutex_lock(&init_mutex);
      instance = std::move(std::unique_ptr<C>{new C});
      pthread_mutex_unlock(&init_mutex);
      is_init = true;
    }
    return instance;

Every line is a step of its own, of any of the threads.  What is returned is a reference to the
`unique_ptr`; it is dereferenced where the object is used, to add a queue or a VM or to wait on the
semaphore.  The assignment deletes the object that was there before.

The threads are those of `T`, and all of them are outside at the start: `main` starts the device
threads without having called either function.  An object is the number of objects constructed
before it.
-/

namespace ElasticFramework

/-- Where a thread is in `Instance`. -/
inductive InstancePc
  | away
  /-- The flag was not set; next is the mutex. -/
  | tested
  | locked
  /-- A new object is assigned. -/
  | assigned
  | unlocked
  /-- It has the reference. -/
  | holding
  deriving DecidableEq, Repr

/-- The static variables of an `Instance`, the number of objects constructed, and what has been
added to each of them. -/
structure Singleton (T α : Type*) where
  isInit : Bool
  initMutex : Option T
  object : Option ℕ
  constructed : ℕ
  contents : ℕ → List α
  pc : T → InstancePc

inductive SingletonStep (T α : Type*)
  /-- The test of the flag. -/
  | read (t : T)
  | lock (t : T)
  | assign (t : T)
  | unlock (t : T)
  | setFlag (t : T)
  /-- Something is added through the reference. -/
  | add (t : T) (x : α)
  /-- The thread waits on the semaphore. -/
  | wait (t : T)
  /-- The reference is not used any more. -/
  | leave (t : T)
  deriving DecidableEq

namespace Singleton

variable {T α : Type*}

def init : Singleton T α where
  isInit := false
  initMutex := none
  object := none
  constructed := 0
  contents := fun _ => []
  pc := fun _ => .away

variable [DecidableEq T]

def goto (s : Singleton T α) (t : T) (pc : InstancePc) : Singleton T α :=
  { s with pc := Function.update s.pc t pc }

def step (s : Singleton T α) : SingletonStep T α → Option (Singleton T α)
  | .read t =>
    if s.pc t = .away then some (s.goto t (if s.isInit then .holding else .tested)) else none
  | .lock t =>
    if s.pc t = .tested ∧ s.initMutex = none then
      some ({ s with initMutex := some t }.goto t .locked)
    else none
  | .assign t =>
    if s.pc t = .locked then
      some ({ s with object := some s.constructed, constructed := s.constructed + 1 }.goto t
        .assigned)
    else none
  | .unlock t =>
    if s.pc t = .assigned then some ({ s with initMutex := none }.goto t .unlocked) else none
  | .setFlag t =>
    if s.pc t = .unlocked then some ({ s with isInit := true }.goto t .holding) else none
  | .add t x =>
    if s.pc t = .holding then
      s.object.map fun o =>
        { s with contents := Function.update s.contents o (s.contents o ++ [x]) }
    else none
  | .wait t => if s.pc t = .holding then some s else none
  | .leave t => if s.pc t = .holding then some (s.goto t .away) else none

omit [DecidableEq T]

/-- The object whose semaphore a thread waits on. -/
def waits (s : Singleton T α) : SingletonStep T α → List ℕ
  | .wait _ => s.object.toList
  | _ => []

/-- What is added. -/
def adds (_ : Singleton T α) : SingletonStep T α → List α
  | .add _ x => [x]
  | _ => []

/-- The threads that read the flag before it is set. -/
def misses (s : Singleton T α) : SingletonStep T α → List T
  | .read t => if s.isInit then [] else [t]
  | _ => []

/-- No thread is between its test of the flag and the end of the branch. -/
def Settled (s : Singleton T α) : Prop := ∀ t, s.pc t = .away ∨ s.pc t = .holding

/-- If the flag is read before it is set, no other thread is in the branch. -/
def Alone (s : Singleton T α) (l : SingletonStep T α) : Prop :=
  ∀ t, l = .read t → s.isInit = false → s.Settled

end Singleton

/-- The body of `Instance`, for a class whose objects things of type `α` are added to. -/
def singleton (T α : Type*) [DecidableEq T] : Machine (Singleton T α) (SingletonStep T α) :=
  ⟨Singleton.step⟩

/-- `CommandPool::Instance`; what is added are queues, by their address. -/
def CommandPool.Instance (T : Type*) [DecidableEq T] :
    Machine (Singleton T ℕ) (SingletonStep T ℕ) :=
  singleton T ℕ

/-- `VMAFS_N_Scheduler::Instance`; what is added are VMs, by their address. -/
def VMAFSNScheduler.Instance (T : Type*) [DecidableEq T] :
    Machine (Singleton T ℕ) (SingletonStep T ℕ) := singleton T ℕ

end ElasticFramework
