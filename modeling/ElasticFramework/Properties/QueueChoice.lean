import ElasticFramework.Framework.Cosine
import ElasticFramework.Properties.Scheduling

/-!
# Which queue the scheduler takes

`InOrderSchedule` is meant to keep the times that the clients have been given in the direction of
their weights.  What it decides by, for a queue, is the cosine between the vector of the weights of
all VMs and the vector of their used times with the head command's estimate added to that of the
queue's VM (`Node.direction`).  The code has neither vector: it has the inner product and the two
squared lengths, and expands what the estimate does to them.

`Node.Measured` is what the numbers have to satisfy, `inOrderSchedule_direction` the result, and
`measured_of_exec` says that every state of the compute node that is reached with positive weights
and times that are not negative is one the result applies to.
-/

namespace ElasticFramework

namespace Node

variable {D : Type*} {n : Node ℝ D} {q : ℕ}

/-- The estimate of the head command; an empty queue has none. -/
def headTime (n : Node ℝ D) (q : ℕ) : ℝ :=
  ((n.que q).queue.head?.map Command.estExecTime).getD 0

/-- The cosine between the weights and the used times, with the head command of `q` run. -/
noncomputable def direction (n : Node ℝ D) (q : ℕ) : ℝ :=
  cosine n.VMs (fun v => (n.vm v).weight)
    (Function.update (fun v => (n.vm v).totalUsedTime) (n.que q).VM
      ((n.vm (n.que q).VM).totalUsedTime + n.headTime q))

/-- The VMs are distinct objects with positive weights and times that are not negative, the queues
are theirs, estimates are positive, and the aggregates are exact. -/
structure Measured (n : Node ℝ D) : Prop where
  nodup : n.VMs.Nodup
  weights : ∀ v ∈ n.VMs, 0 < (n.vm v).weight
  times : ∀ v ∈ n.VMs, 0 ≤ (n.vm v).totalUsedTime
  queueVM : ∀ q ∈ n.queues, (n.que q).VM ∈ n.VMs
  estimates : ∀ q ∈ n.queues, ∀ c ∈ (n.que q).queue, 0 < c.estExecTime
  aggregates : n.Aggregates

namespace Measured

/-- The code's expansion is the cosine. -/
lemma cosValue_eq (h : n.Measured) (hq : q ∈ n.queues) (hready : (n.que q).ready = true) :
    n.cosValue q = n.direction q := by
  obtain ⟨-, hne⟩ := CommandQueue.ready_iff.1 hready
  obtain ⟨comm, rest, hfront⟩ := List.exists_cons_of_ne_nil hne
  have hhead : n.headTime q = comm.estExecTime := by simp [headTime, hfront]
  rw [direction, hhead, cosine_update h.nodup (h.queueVM q hq), ← h.aggregates.inner,
    ← h.aggregates.weights, ← h.aggregates.times]
  simp only [cosValue, hfront, Arith.sqrt_real, one_add_one_eq_two, sq]

lemma direction_pos (h : n.Measured) (hq : q ∈ n.queues) (hready : (n.que q).ready = true) :
    0 < n.direction q := by
  obtain ⟨-, hne⟩ := CommandQueue.ready_iff.1 hready
  obtain ⟨comm, rest, hfront⟩ := List.exists_cons_of_ne_nil hne
  have hcomm : comm ∈ (n.que q).queue := by
    rw [hfront]
    exact List.mem_cons_self ..
  have hhead : n.headTime q = comm.estExecTime := by simp [headTime, hfront]
  rw [direction, hhead]
  exact cosine_update_pos h.nodup (h.queueVM q hq) h.weights h.times (h.estimates q hq comm hcomm)

/-- Every queue a worker may be given beats the value the search starts from. -/
lemma lt_cosValue (h : n.Measured) (hq : q ∈ n.queues) (hready : (n.que q).ready = true) :
    (-1 : ℝ) < n.cosValue q := by
  rw [h.cosValue_eq hq hready]
  linarith [h.direction_pos hq hready]

end Measured

/-- **The scheduler's choice.**  There is none exactly when every queue of the pool is skipped or
empty; otherwise it is the first of the others, in the order of the pool, whose head command brings
the used times closest to the direction of the weights. -/
theorem inOrderSchedule_direction (h : n.Measured) :
    (n.inOrderSchedule = none ↔ ∀ q ∈ n.queues, (n.que q).ready = false) ∧
      ∀ q, n.inOrderSchedule = some q →
        (n.que q).ready = true ∧ ∃ pre post, n.queues = pre ++ q :: post ∧
          (∀ p ∈ pre, (n.que p).ready = true → n.direction p < n.direction q) ∧
          ∀ p ∈ post, (n.que p).ready = true → n.direction p ≤ n.direction q := by
  constructor
  · exact bestFrom_none_iff fun q hq hready => h.lt_cosValue hq hready
  · intro q hchosen
    obtain ⟨hq, hready⟩ := inOrderSchedule_ready hchosen
    obtain ⟨pre, post, hqueues, hpre, hpost⟩ := bestFrom_split hchosen
    have hmem : ∀ p, p ∈ pre ∨ p ∈ post → p ∈ n.queues := by
      intro p hp
      rw [hqueues, List.mem_append, List.mem_cons]
      exact hp.imp_right Or.inr
    refine ⟨hready, pre, post, hqueues, fun p hp hp_ready => ?_, fun p hp hp_ready => ?_⟩
    · have hlt := hpre p hp hp_ready
      rwa [h.cosValue_eq (hmem p (.inl hp)) hp_ready, h.cosValue_eq hq hready] at hlt
    · have hle := hpost p hp hp_ready
      rwa [h.cosValue_eq (hmem p (.inr hp)) hp_ready, h.cosValue_eq hq hready] at hle

/-! ## The states of the compute node -/

lemma Priced.measured (h : n.Priced (0 < ·)) (hl : n.Linked) : n.Measured where
  nodup := hl.nodupVMs
  weights := h.weights
  times := h.times
  queueVM := hl.queueVM
  estimates := by
    intro q _ c hc
    rw [h.unit q c hc]
    exact zero_lt_one
  aggregates := h.aggregates

/-- Two VMs with weights one and two, and three queues, the last two of the second VM. -/
noncomputable def twoVMs : Node ℝ ℕ :=
  ((((Node.init.createVM 1).createVM (1 + 1)).createQueue 0).createQueue 1).createQueue 1

/-- Both VMs have been given the same time, and each queue has a command; the last is skipped. -/
noncomputable def threeQueues : Node ℝ ℕ :=
  ((((((twoVMs.push 0 (Command.new 0 .kernel)).push 1 (Command.new 1 .kernel)).push 2
    (Command.new 2 .kernel)).account 0 1).account 1 1).setSkip 2 true)

lemma twoVMs_priced : twoVMs.Priced (0 < ·) ∧ twoVMs.Linked := by
  have hfirst : ((Node.init : Node ℝ ℕ).createVM 1).Linked := Linked.init.createVM 1
  have hl : (((Node.init : Node ℝ ℕ).createVM 1).createVM (1 + 1)).Linked := hfirst.createVM (1 + 1)
  have hp : (((Node.init : Node ℝ ℕ).createVM 1).createVM (1 + 1)).Priced (0 < ·) :=
    (Priced.init.createVM Linked.init one_pos).createVM hfirst (by norm_num)
  refine ⟨((hp.createQueue 0).createQueue 1).createQueue 1, ?_⟩
  exact ((hl.createQueue (by simp [createVM, Node.init])).createQueue
    (by simp [createQueue, createVM, Node.init])).createQueue
      (by simp [createQueue, createVM, Node.init])

lemma threeQueues_measured : threeQueues.Measured := by
  obtain ⟨hp, hl⟩ := twoVMs_priced
  have hqueues : twoVMs.queues = [0, 1, 2] := rfl
  have hl' := ((hl.push 0 (Command.new 0 .kernel)).push 1 (Command.new 1 .kernel)).push 2
    (Command.new 2 .kernel)
  have hp' := ((hp.push 0 0 .kernel).push 1 1 .kernel).push 2 2 .kernel
  have hp₀ := hp'.account hl' (q := 0) (by simp [hqueues]) zero_le_one
  have hp₁ := hp₀.account (hl'.account 0 1) (q := 1)
    (by simp [Node.account, increaseTimeLengSquare, increaseInnerProduct, hqueues]) zero_le_one
  exact (hp₁.setSkip 2 true).measured (((hl'.account 0 1).account 1 1).setSkip 2 true)

/-- With its head command run the times are `2` and `1` for the first queue, `1` and `2` for the
second. -/
lemma threeQueues_direction : threeQueues.direction 0 = 4 / 5 ∧ threeQueues.direction 1 = 1 := by
  have hVMs : threeQueues.VMs = [0, 1] := rfl
  have hweights : (threeQueues.vm 0).weight = 1 ∧ (threeQueues.vm 1).weight = 1 + 1 := ⟨rfl, rfl⟩
  have htimes : (threeQueues.vm 0).totalUsedTime = 0 + 1 ∧
    (threeQueues.vm 1).totalUsedTime = 0 + 1 := ⟨rfl, rfl⟩
  have howners : (threeQueues.que 0).VM = 0 ∧ (threeQueues.que 1).VM = 1 := ⟨rfl, rfl⟩
  have hheads : threeQueues.headTime 0 = 1 ∧ threeQueues.headTime 1 = 1 := ⟨rfl, rfl⟩
  simp only [direction, cosine, hVMs, howners.1, howners.2, hheads.1, hheads.2, List.map_cons,
    List.map_nil, List.sum_cons, List.sum_nil, Function.update_self, hweights.1, hweights.2,
    htimes.1, htimes.2, Function.update_of_ne one_ne_zero, Function.update_of_ne zero_ne_one]
  constructor <;> norm_num

/-- The second queue's command brings the times closer to the weights, so it is chosen. -/
theorem inOrderSchedule_direction_threeQueues :
    threeQueues.queues = [0, 1, 2] ∧ (threeQueues.que 0).ready = true ∧
      (threeQueues.que 1).ready = true ∧ (threeQueues.que 2).skip = true ∧
      threeQueues.inOrderSchedule = some 1 := by
  have hqueues : threeQueues.queues = [0, 1, 2] := rfl
  have hready₀ : (threeQueues.que 0).ready = true := rfl
  have hready₁ : (threeQueues.que 1).ready = true := rfl
  have hready₂ : (threeQueues.que 2).ready = false := rfl
  obtain ⟨hdir₀, hdir₁⟩ := threeQueues_direction
  obtain ⟨hnone, hsome⟩ := inOrderSchedule_direction threeQueues_measured
  refine ⟨hqueues, hready₀, hready₁, rfl, ?_⟩
  cases hchosen : threeQueues.inOrderSchedule with
  | none =>
      have hnot := hnone.1 hchosen 0 (by simp [hqueues])
      rw [hready₀] at hnot
      cases hnot
  | some q =>
      obtain ⟨hready, pre, post, hsplit, hpre, hpost⟩ := hsome q hchosen
      have hq : q ∈ [0, 1, 2] := by
        rw [← hqueues, hsplit]
        simp
      simp only [List.mem_cons, List.not_mem_nil, or_false] at hq
      rcases hq with rfl | rfl | rfl
      · have hmem : 1 ∈ pre ++ 0 :: post := by
          rw [← hsplit, hqueues]
          simp
        have hle : threeQueues.direction 1 ≤ threeQueues.direction 0 := by
          rcases List.mem_append.1 hmem with hmem | hmem
          · exact (hpre 1 hmem hready₁).le
          · exact hpost 1 ((List.mem_cons.1 hmem).resolve_left one_ne_zero) hready₁
        rw [hdir₀, hdir₁] at hle
        norm_num at hle
      · rfl
      · rw [hready₂] at hready
        cases hready

end Node

/-- What the scheduler needs, it has in every state reached with positive weights and no negative
accounted time. -/
theorem measured_of_exec {W T : Type*} [DecidableEq W] [DecidableEq T] {ls : List (Label ℝ W T)}
    {s : State ℝ W T} (h : computeNode.exec State.init ls = some s)
    (hall : computeNode.AllSteps (Admissible (0 < ·)) State.init ls) : s.node.Measured :=
  (priced_of_exec h hall).measured (coherent_of_exec h).linked

end ElasticFramework
