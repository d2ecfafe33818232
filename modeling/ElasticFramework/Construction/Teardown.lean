import ElasticFramework.Construction.System

/-!
# `WaitForFinishing`

When its client has gone, `Run` calls `WaitForFinishing` on the session's queue and then takes the
queue and the VM away.  In `Construction/System.lean` the call is one step, the one that sees the
queue empty.  Here it is what the source has:

    if (!IsEmpty()) {
      P_LOCK(mutex_is_finish_);
      while (!IsEmpty()) {
        pthread_cond_wait(&cond_is_finish_, &mutex_is_finish_);
      }
      P_UNLOCK(mutex_is_finish_);
    }

Nobody signals `cond_is_finish_`.  The body of `NotifyFinish`, which has the signal, is commented
out, and `NotifyFinish` is not called, so no step below leaves `pthread_cond_wait`.  Threads do not
wake for no reason.  `mutex_is_finish_` is the session's alone.
-/

namespace ElasticFramework

variable {K W T : Type*}

/-- Where a session thread is in `WaitForFinishing`. -/
inductive WaitPc
  | outside
  /-- The `if` has seen a command. -/
  | entered
  /-- In `pthread_cond_wait`. -/
  | asleep
  deriving DecidableEq, Repr

/-- The compute node with the inside of `WaitForFinishing`. -/
structure Closing (K W T : Type*) where
  base : State K W T
  wait : T → WaitPc

inductive ClosingStep (K W T : Type*)
  /-- Any other move of the compute node. -/
  | other (l : Label K W T)
  /-- The test of the `if`. -/
  | ifTest (t : T)
  /-- A test of the `while`. -/
  | whileTest (t : T)

/-- The session thread that moves. -/
def Label.thread : Label K W T → Option T
  | .connect t _ | .createQueue t | .bindDev t _ | .push t _ | .finish t | .passWait t
  | .seeEmpty t | .teardown t => some t
  | _ => none

namespace Closing

def init [Arith K] : Closing K W T where
  base := State.init
  wait := fun _ => .outside

variable [DecidableEq T]

def enter (s : Closing K W T) (t : T) (pc : WaitPc) : Closing K W T :=
  { s with wait := Function.update s.wait t pc }

/-- `WaitForFinishing` returns. -/
def leave (s : Closing K W T) (t : T) (v q : ℕ) : Closing K W T where
  base := s.base.enter t (.drained v q)
  wait := Function.update s.wait t .outside

/-- One test of the queue, at `pc`: `WaitForFinishing` is over, or goes on at `next`. -/
def test (s : Closing K W T) (t : T) (pc next : WaitPc) : Option (Closing K W T) :=
  match s.base.session t with
  | .serving v q =>
    if s.wait t = pc then
      some (if (s.base.node.que q).isEmpty then s.leave t v q else s.enter t next)
    else none
  | _ => none

variable [Arith K] [DecidableEq W]

/-- A thread inside `WaitForFinishing` does nothing else. -/
def other (s : Closing K W T) (l : Label K W T) : Option (Closing K W T) :=
  match l with
  | .seeEmpty _ => none
  | l =>
    if l.thread.all fun t => s.wait t = .outside then
      (step s.base l).map fun base => { s with base := base }
    else none

def move (s : Closing K W T) : ClosingStep K W T → Option (Closing K W T)
  | .other l => s.other l
  | .ifTest t => s.test t .outside .entered
  | .whileTest t => s.test t .entered .asleep

end Closing

/-- The compute node with the inside of `WaitForFinishing`, as a machine. -/
def closing [Arith K] [DecidableEq W] [DecidableEq T] :
    Machine (Closing K W T) (ClosingStep K W T) :=
  ⟨Closing.move⟩

end ElasticFramework
