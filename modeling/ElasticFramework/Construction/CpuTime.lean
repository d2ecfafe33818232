import ElasticFramework.Construction.System
import Mathlib.Algebra.Ring.Defs

/-!
# The build with `CPU_TIME`

With `CPU_TIME` the times of the scheduler come from `GetCPUTime` (`cn/common.cc`), which makes a
`double` of the seconds and microseconds of `gettimeofday`.  `DevScheduler` sets the start time of
the command it has picked, and the time used is the clock behind `Exec` less that.
`InOrderSchedule` first adds up the jitter, the times that the commands being executed have taken
so far, and compares the cosines with the sums increased by that.

Everything else is as in `Construction/System.lean`; the clock is read under `proc_lock_` only.  A
label of a move that reads it carries what `gettimeofday` returns.
-/

namespace ElasticFramework

/-- `struct timeval`. -/
structure Timeval where
  tvSec : ℤ
  tvUsec : ℕ
  tvUsec_lt : tvUsec < 1000000
  deriving DecidableEq

namespace Timeval

/-- The microseconds from the start of the epoch. -/
def micros (time : Timeval) : ℤ := time.tvSec * 1000000 + time.tvUsec

/-- Time order. -/
instance : LE Timeval := ⟨fun time time' => time.micros ≤ time'.micros⟩

/-- The microseconds from one result to another. -/
def elapsed (time time' : Timeval) : ℤ := time'.micros - time.micros

end Timeval

/-- `GetCPUTime`, in exact arithmetic: `time.tv_sec * 1.0e+6f + time.tv_usec * 1.0e+3f`. -/
def getCPUTime {K : Type*} [Ring K] (time : Timeval) : K :=
  time.tvSec * 1000000 + time.tvUsec * 1000

variable {K W T : Type*}

/-- The compute node and the `start_time_` of the commands, by their address. -/
structure Clocked (K W T : Type*) where
  base : State K W T
  startTime : ℕ → K

inductive ClockedStep (K W T : Type*)
  /-- Any move that does not read the clock. -/
  | other (l : Label K W T)
  /-- A worker picks a queue, after a reading for each queue in use; `now` is the start time. -/
  | pick (w : W) (readings : List Timeval) (now : Timeval)
  /-- `Exec` has returned, and the time is accounted. -/
  | account (w : W) (now : Timeval)

/-- A move in which the clock is read, or that belongs to one. -/
def Label.timed : Label K W T → Bool
  | .pick _ | .endExec _ _ | .account _ => true
  | _ => false

/-- What `gettimeofday` returns in a step. -/
def ClockedStep.readings : ClockedStep K W T → List Timeval
  | .other _ => []
  | .pick _ readings now => readings ++ [now]
  | .account _ now => [now]

/-- The queues in use. -/
def Node.skipped {D : Type*} (n : Node K D) : List ℕ := n.queues.filter fun q => (n.que q).skip

namespace Clocked

variable [Arith K]

def init : Clocked K W T where
  base := State.init
  startTime := fun _ => 0

variable (clock : Timeval → K) (s : Clocked K W T)

/-- `queue->front()->start_time()`; the front of an empty queue is not taken. -/
def frontStartTime (q : ℕ) : K :=
  match (s.base.node.que q).queue with
  | [] => 0
  | comm :: _ => s.startTime comm.ptr

/-- The queues in use with the `jitter_time` of each. -/
def jitter (readings : List Timeval) : List (ℕ × K) :=
  (s.base.node.skipped.zip readings).map fun (q, time) => (q, clock time - s.frontStartTime q)

/-- The node with `jitter_inner_product` and `jitter_time_leng_square` added to the sums. -/
def jittered (readings : List Timeval) : Node K W :=
  let n := s.base.node
  let jitterInnerProduct := (s.jitter clock readings).foldl
    (fun sum (q, jitterTime) => sum + (n.vm (n.que q).VM).weight * jitterTime) 0
  let jitterTimeLengSquare := (s.jitter clock readings).foldl
    (fun sum (q, jitterTime) => sum + ((1 + 1) * (n.vm (n.que q).VM).totalUsedTime * jitterTime +
      jitterTime * jitterTime)) 0
  { n with
    basedInnerProduct := n.basedInnerProduct + jitterInnerProduct
    timeLengSquare := n.timeLengSquare + jitterTimeLengSquare }

/-- `used_time`. -/
def usedTime (comm : Command K) (now : Timeval) : K := clock now - s.startTime comm.ptr

variable [DecidableEq W] [DecidableEq T]

def step : ClockedStep K W T → Option (Clocked K W T)
  | .other l =>
    if l.timed then none
    else (ElasticFramework.step s.base l).map fun base => { s with base := base }
  | .pick w readings now =>
    match s.base.worker w, s.base.procLock with
    | .admitted, none =>
      if readings.length = s.base.node.skipped.length then
        match (s.jittered clock readings).inOrderSchedule with
        | none => none
        | some q =>
          match (s.base.node.que q).queue with
          | [] => none
          | comm :: _ => some
            { base := (s.base.withNode (s.base.node.setSkip q true)).goto w (.picked q comm)
              startTime := Function.update s.startTime comm.ptr (clock now) }
      else none
    | _, _ => none
  | .account w now =>
    match s.base.worker w with
    | .executing _ comm =>
      ((ElasticFramework.step s.base (.endExec w (s.usedTime clock comm now))).bind fun base =>
        ElasticFramework.step base (.account w)).map fun base => { s with base := base }
    | _ => none

/-- The times that the scheduler computes in a step, `jitter_time` and `used_time`. -/
def times : ClockedStep K W T → List K
  | .other _ => []
  | .pick _ readings _ => (s.jitter clock readings).map Prod.snd
  | .account w now =>
    match s.base.worker w with
    | .executing _ comm => [s.usedTime clock comm now]
    | _ => []

end Clocked

/-- The compute node with `CPU_TIME`, for a clock. -/
def cpuTimeNode [Arith K] [DecidableEq W] [DecidableEq T] (clock : Timeval → K) :
    Machine (Clocked K W T) (ClockedStep K W T) := ⟨fun s l => s.step clock l⟩

end ElasticFramework
