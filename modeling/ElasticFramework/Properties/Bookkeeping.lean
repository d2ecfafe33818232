import ElasticFramework.Framework.Transition
import ElasticFramework.Properties.Linked
import Mathlib.Tactic.Ring
import Mathlib.Tactic.Linarith

/-!
# Scheduler bookkeeping

`VMAFS_N_Scheduler` never recomputes the three aggregates its decision reads; it updates them
in `CreateVM`, in `DestroyVM`, and from `DevScheduler` when a command completes, there with the
square expanded.  In exact arithmetic the three running values are the sums they stand for, over
the VMs in `VMs_` at the time.

`Aggregates` is the statement about one state, with one lemma an operation.  `schedOps` is the
machine of the five operations in any order, with the two side conditions `Run` guarantees
(a queue is created for a VM in `VMs_`; completions and `DestroyQueue` concern a pool queue), and
`bookkeeping_exact` the result about all its runs.
-/

namespace ElasticFramework

namespace Node

variable {D : Type*}

/-- The running aggregates are the sums over `VMs_`. -/
structure Aggregates (n : Node ℝ D) : Prop where
  inner : n.basedInnerProduct =
    (n.VMs.map fun v => (n.vm v).weight * (n.vm v).totalUsedTime).sum
  weights : n.weightLengSquare = (n.VMs.map fun v => (n.vm v).weight ^ 2).sum
  times : n.timeLengSquare = (n.VMs.map fun v => (n.vm v).totalUsedTime ^ 2).sum

namespace Aggregates

variable {n : Node ℝ D}

lemma init : (Node.init : Node ℝ D).Aggregates :=
  ⟨rfl, rfl, rfl⟩

/-- A sum over `VMs_` is not moved by the object at the next free address. -/
lemma sum_fresh (hl : n.Linked) (f : VMInfo ℝ → ℝ) (vm : VMInfo ℝ) :
    (n.VMs.map fun v => f (Function.update n.vm n.nextVM vm v)).sum =
      (n.VMs.map fun v => f (n.vm v)).sum := by
  refine sum_map_congr_of_ne (a := n.nextVM) (fun h => ?_) fun v hv => ?_
  · exact (hl.freshVMs _ h).ne rfl
  · rw [Function.update_of_ne hv]

lemma createVM (h : n.Aggregates) (hl : n.Linked) (weight : ℝ) :
    (n.createVM weight).Aggregates where
  inner := by
    have hsum := sum_fresh hl (fun vm => vm.weight * vm.totalUsedTime)
      (VMInfo.new n.VMs.length weight)
    simp only [Node.createVM, List.map_append, List.sum_append, hsum, ← h.inner]
    simp [VMInfo.new]
  weights := by
    have hsum := sum_fresh hl (fun vm => vm.weight ^ 2) (VMInfo.new n.VMs.length weight)
    simp only [Node.createVM, List.map_append, List.sum_append, hsum, ← h.weights]
    simp [VMInfo.new, sq]
  times := by
    have hsum := sum_fresh hl (fun vm => vm.totalUsedTime ^ 2) (VMInfo.new n.VMs.length weight)
    simp only [Node.createVM, List.map_append, List.sum_append, hsum, ← h.times]
    simp [VMInfo.new]

lemma destroyVM (h : n.Aggregates) (v : ℕ) : (n.destroyVM v).2.Aggregates := by
  unfold Node.destroyVM
  split
  · exact h
  · split
    · rename_i hv
      have hinner := List.sum_map_erase (fun v => (n.vm v).weight * (n.vm v).totalUsedTime) hv
      have hweights := List.sum_map_erase (fun v => (n.vm v).weight ^ 2) hv
      have htimes := List.sum_map_erase (fun v => (n.vm v).totalUsedTime ^ 2) hv
      constructor
      · simp only [h.inner, ← hinner]
        ring
      · simp only [h.weights, ← hweights]
        ring
      · simp only [h.times, ← htimes]
        ring
    · exact h

/-- `createQueue` and `destroyQueue` change the reference count of a VM and nothing else of
it. -/
lemma of_refs {n' : Node ℝ D} (h : n.Aggregates) {v r : ℕ}
    (hvm : n'.vm = Function.update n.vm v { n.vm v with referenceCount := r })
    (hVMs : n'.VMs = n.VMs) (hinner : n'.basedInnerProduct = n.basedInnerProduct)
    (hweights : n'.weightLengSquare = n.weightLengSquare)
    (htimes : n'.timeLengSquare = n.timeLengSquare) : n'.Aggregates := by
  have hweight : ∀ u, (n'.vm u).weight = (n.vm u).weight := by
    intro u
    rw [hvm]
    by_cases hu : u = v
    · subst hu
      simp
    · simp [hu]
  have htime : ∀ u, (n'.vm u).totalUsedTime = (n.vm u).totalUsedTime := by
    intro u
    rw [hvm]
    by_cases hu : u = v
    · subst hu
      simp
    · simp [hu]
  constructor
  · simp only [hinner, hVMs, hweight, htime, h.inner]
  · simp only [hweights, hVMs, hweight, h.weights]
  · simp only [htimes, hVMs, htime, h.times]

lemma createQueue (h : n.Aggregates) (v : ℕ) : (n.createQueue v).Aggregates :=
  h.of_refs rfl rfl rfl rfl rfl

lemma destroyQueue (h : n.Aggregates) (q : ℕ) : (n.destroyQueue q).Aggregates :=
  h.of_refs rfl rfl rfl rfl rfl

/-- A completion adds `usedTime * weight` to the inner product and the difference of the squares
to the time aggregate. -/
lemma account (h : n.Aggregates) (hl : n.Linked) {q : ℕ} (hq : q ∈ n.queues) (usedTime : ℝ) :
    (n.account q usedTime).Aggregates := by
  have hv := hl.queueVM q hq
  set v := (n.que q).VM with hvdef
  have hoff : ∀ u, u ≠ v → (n.account q usedTime).vm u = n.vm u := by
    intro u hu
    simp [Node.account, ← hvdef, hu]
  have hself : (n.account q usedTime).vm v =
      { n.vm v with totalUsedTime := (n.vm v).totalUsedTime + usedTime } := by
    simp [Node.account, ← hvdef]
  constructor
  · have hsum := sum_map_update hl.nodupVMs hv
      (f := fun u => (n.vm u).weight * (n.vm u).totalUsedTime)
      (g := fun u => ((n.account q usedTime).vm u).weight *
        ((n.account q usedTime).vm u).totalUsedTime)
      fun u _ hu => by simp only [hoff u hu]
    have hval : (n.account q usedTime).basedInnerProduct =
        n.basedInnerProduct + usedTime * (n.vm v).weight := rfl
    have hVMs : (n.account q usedTime).VMs = n.VMs := rfl
    simp only [hself] at hsum
    rw [hval, hVMs, h.inner]
    linarith
  · have hsum := sum_map_update hl.nodupVMs hv
      (f := fun u => (n.vm u).weight ^ 2)
      (g := fun u => ((n.account q usedTime).vm u).weight ^ 2)
      fun u _ hu => by simp only [hoff u hu]
    have hval : (n.account q usedTime).weightLengSquare = n.weightLengSquare := rfl
    have hVMs : (n.account q usedTime).VMs = n.VMs := rfl
    simp only [hself] at hsum
    rw [hval, hVMs, h.weights]
    linarith
  · have hsum := sum_map_update hl.nodupVMs hv
      (f := fun u => (n.vm u).totalUsedTime ^ 2)
      (g := fun u => ((n.account q usedTime).vm u).totalUsedTime ^ 2)
      fun u _ hu => by simp only [hoff u hu]
    have hval : (n.account q usedTime).timeLengSquare = n.timeLengSquare +
        ((1 + 1) * (n.vm v).totalUsedTime * usedTime + usedTime * usedTime) := rfl
    have hVMs : (n.account q usedTime).VMs = n.VMs := rfl
    simp only [hself] at hsum
    rw [hval, hVMs, h.times]
    linarith

end Aggregates

end Node

/-! ## Any order of operations -/

/-- The operations on the scheduler's books. -/
inductive SchedOp (K : Type*)
  | createVM (weight : K)
  | createQueue (v : ℕ)
  | destroyQueue (q : ℕ)
  | destroyVM (v : ℕ)
  /-- `DevScheduler` accounts a completed command of queue `q`. -/
  | complete (q : ℕ) (usedTime : K)

/-- One operation; `none` where `Run` never performs it. -/
def schedStep {K D : Type*} [Arith K] (n : Node K D) : SchedOp K → Option (Node K D)
  | .createVM weight => some (n.createVM weight)
  | .createQueue v => if v ∈ n.VMs then some (n.createQueue v) else none
  | .destroyQueue q => if q ∈ n.queues then some (n.destroyQueue q) else none
  | .destroyVM v => some (n.destroyVM v).2
  | .complete q usedTime => if q ∈ n.queues then some (n.account q usedTime) else none

/-- The operations in any order. -/
def schedOps (K D : Type*) [Arith K] : Machine (Node K D) (SchedOp K) := ⟨schedStep⟩

lemma schedStep_invariant {D : Type*} {n n' : Node ℝ D} {op : SchedOp ℝ}
    (h : n.Linked ∧ n.Aggregates) (hop : schedStep n op = some n') :
    n'.Linked ∧ n'.Aggregates := by
  obtain ⟨hl, ha⟩ := h
  cases op with
  | createVM weight =>
      cases hop
      exact ⟨hl.createVM weight, ha.createVM hl weight⟩
  | createQueue v =>
      simp only [schedStep] at hop
      split at hop
      · cases hop
        exact ⟨hl.createQueue ‹_›, ha.createQueue v⟩
      · cases hop
  | destroyQueue q =>
      simp only [schedStep] at hop
      split at hop
      · cases hop
        exact ⟨hl.destroyQueue ‹_›, ha.destroyQueue q⟩
      · cases hop
  | destroyVM v =>
      cases hop
      exact ⟨hl.destroyVM v, ha.destroyVM v⟩
  | complete q usedTime =>
      simp only [schedStep] at hop
      split at hop
      · cases hop
        exact ⟨hl.account q usedTime, ha.account hl ‹_› usedTime⟩
      · cases hop

/-- **The books are exact.**  After any operations in any order the three aggregates are the
sums over `VMs_`, every reference count is the number of pool queues of its VM, and `DestroyVM`
on a VM that still has a queue returns `-1` and changes nothing. -/
theorem bookkeeping_exact {D : Type*} {ops : List (SchedOp ℝ)} {n : Node ℝ D}
    (h : (schedOps ℝ D).exec Node.init ops = some n) :
    n.basedInnerProduct = (n.VMs.map fun v => (n.vm v).weight * (n.vm v).totalUsedTime).sum ∧
    n.weightLengSquare = (n.VMs.map fun v => (n.vm v).weight ^ 2).sum ∧
    n.timeLengSquare = (n.VMs.map fun v => (n.vm v).totalUsedTime ^ 2).sum ∧
    (∀ v < n.nextVM,
      (n.vm v).referenceCount = n.queues.countP fun q => (n.que q).VM == v) ∧
    ∀ q ∈ n.queues, n.destroyVM (n.que q).VM = (-1, n) := by
  obtain ⟨hl, ha⟩ : n.Linked ∧ n.Aggregates :=
    (schedOps ℝ D).invariant (I := fun n => n.Linked ∧ n.Aggregates)
      ⟨Node.Linked.init, Node.Aggregates.init⟩ (fun _ _ _ => schedStep_invariant) h
  refine ⟨ha.inner, ha.weights, ha.times, hl.refs, fun q hq => ?_⟩
  have hlive := hl.freshVMs _ (hl.queueVM q hq)
  have hrefs : (n.vm (n.que q).VM).referenceCount ≠ 0 :=
    fun hzero => hl.ne_of_refs_eq_zero hlive hzero q hq rfl
  rw [Node.destroyVM, if_pos hrefs]

/-- Two VMs share the scheduler, one command of three time units completes, and a VM whose queue
is gone leaves. -/
theorem bookkeeping_exact_run :
    ∃ n : Node ℝ Unit, (schedOps ℝ Unit).exec Node.init [.createVM 1, .createVM 2,
        .createQueue 0, .createQueue 1, .complete 1 3, .destroyQueue 0, .destroyVM 0] = some n ∧
      n.basedInnerProduct = (n.VMs.map fun v => (n.vm v).weight * (n.vm v).totalUsedTime).sum ∧
      n.weightLengSquare = (n.VMs.map fun v => (n.vm v).weight ^ 2).sum ∧
      n.timeLengSquare = (n.VMs.map fun v => (n.vm v).totalUsedTime ^ 2).sum ∧
      (∀ v < n.nextVM,
        (n.vm v).referenceCount = n.queues.countP fun q => (n.que q).VM == v) ∧
      ∀ q ∈ n.queues, n.destroyVM (n.que q).VM = (-1, n) := by
  have hrun : (schedOps ℝ Unit).exec Node.init [.createVM 1, .createVM 2, .createQueue 0,
      .createQueue 1, .complete 1 3, .destroyQueue 0, .destroyVM 0] = some _ := rfl
  exact ⟨_, hrun, bookkeeping_exact hrun⟩

end ElasticFramework
