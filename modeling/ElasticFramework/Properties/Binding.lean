import ElasticFramework.Properties.QueueChoice

/-!
# Whether a binding is respected

A device worker asks `CommandPool::check` whether there is a queue for its device, and then has
`InOrderSchedule` choose one.  Only the first is told the device.  So where a ready queue is bound
to another device the worker may be given that one; whether it is depends on what all clients have
been given so far (`binding_respected_iff`).
-/

namespace ElasticFramework

namespace Node

variable {D : Type*}

/-- The queue is not bound, or to this device. -/
def MayRun {K : Type*} (n : Node K D) (dev : D) (q : ℕ) : Prop :=
  (n.que q).bindingDev = none ∨ (n.que q).bindingDev = some dev

/-- `check` finds a queue that is ready and that the device may run. -/
lemma check_iff {K : Type*} [DecidableEq D] {n : Node K D} {dev : D} :
    n.check dev = true ↔ ∃ q ∈ n.queues, (n.que q).ready = true ∧ n.MayRun dev q := by
  simp [check, MayRun, CommandQueue.ready]

/-- The queue the worker is given is one its device may run. -/
def RespectsBinding {K : Type*} [Arith K] [DecidableEq D] (n : Node K D) (dev : D) : Prop :=
  n.check dev = true → ∀ q, n.inOrderSchedule = some q → n.MayRun dev q

/-! ## In the weights and the used times -/

/-- The used times with the head command of `q` run. -/
def timesAfter (n : Node ℝ D) (q : ℕ) : ℕ → ℝ :=
  Function.update (fun v => (n.vm v).totalUsedTime) (n.que q).VM
    ((n.vm (n.que q).VM).totalUsedTime + n.headTime q)

/-- How much the used times with the head command of `q` run have in common with the weights. -/
def common (n : Node ℝ D) (q : ℕ) : ℝ :=
  (n.VMs.map fun v => (n.vm v).weight * n.timesAfter q v).sum

/-- Their squared length. -/
def lengthSquare (n : Node ℝ D) (q : ℕ) : ℝ := (n.VMs.map fun v => n.timesAfter q v ^ 2).sum

/-- After `q` the used times are as close to the weights as after `p`. -/
def AsClose (n : Node ℝ D) (p q : ℕ) : Prop :=
  n.common p ^ 2 * n.lengthSquare q ≤ n.common q ^ 2 * n.lengthSquare p

namespace Measured

variable {n : Node ℝ D} {p q : ℕ}

lemma timesAfter_nonneg (h : n.Measured) (hq : q ∈ n.queues) : ∀ v ∈ n.VMs,
    0 ≤ n.timesAfter q v := by
  intro v hv
  by_cases hVM : v = (n.que q).VM
  · have hold := h.times _ (h.queueVM q hq)
    have hhead : 0 ≤ n.headTime q := by
      unfold headTime
      cases hfront : (n.que q).queue with
      | nil => simp
      | cons c rest => simpa using (h.estimates q hq c (by simp [hfront])).le
    rw [hVM, timesAfter, Function.update_self]
    exact add_nonneg hold hhead
  · rw [timesAfter, Function.update_of_ne hVM]
    exact h.times v hv

lemma common_nonneg (h : n.Measured) (hq : q ∈ n.queues) : 0 ≤ n.common q := by
  refine List.sum_nonneg fun x hx => ?_
  obtain ⟨v, hv, rfl⟩ := List.mem_map.1 hx
  exact mul_nonneg (h.weights v hv).le (h.timesAfter_nonneg hq v hv)

lemma lengthSquare_pos (h : n.Measured) (hq : q ∈ n.queues) (hready : (n.que q).ready = true) :
    0 < n.lengthSquare q := by
  obtain ⟨-, hne⟩ := CommandQueue.ready_iff.1 hready
  obtain ⟨comm, rest, hfront⟩ := List.exists_cons_of_ne_nil hne
  have hhead : n.headTime q = comm.estExecTime := by simp [headTime, hfront]
  have hcomm := h.estimates q hq comm (by simp [hfront])
  have hold := h.times _ (h.queueVM q hq)
  refine sum_sq_pos (h.queueVM q hq) ?_
  rw [timesAfter, Function.update_self, hhead]
  positivity

/-- The cosines of the scheduler compare the weights and the used times. -/
lemma cosValue_le_iff (h : n.Measured) (hp : p ∈ n.queues) (hpready : (n.que p).ready = true)
    (hq : q ∈ n.queues) (hqready : (n.que q).ready = true) :
    n.cosValue p ≤ n.cosValue q ↔ n.AsClose p q := by
  have hVM := h.queueVM p hp
  rw [h.cosValue_eq hp hpready, h.cosValue_eq hq hqready]
  exact cosine_le_cosine_iff (sum_sq_pos hVM (h.weights _ hVM).ne')
    (h.lengthSquare_pos hp hpready) (h.lengthSquare_pos hq hqready) (h.common_nonneg hp)
    (h.common_nonneg hq)

end Measured

/-! ## When bindings are respected -/

/-- Every ready queue that is bound to another device is outdone by one that the device may run: by
one that leaves the used times closer to the weights, or as close and in front of it. -/
def Outdone (n : Node ℝ D) (dev : D) : Prop :=
  ∀ pre p post, n.queues = pre ++ p :: post → (n.que p).ready = true → ¬ n.MayRun dev p →
    (∃ q ∈ pre, (n.que q).ready = true ∧ n.MayRun dev q ∧ n.AsClose p q) ∨
      ∃ q ∈ post, (n.que q).ready = true ∧ n.MayRun dev q ∧ ¬ n.AsClose q p

/-- Whatever the arithmetic, no binding is broken where there is none to break. -/
lemma respectsBinding_of_mayRun {K : Type*} [Arith K] [DecidableEq D] {n : Node K D} {dev : D}
    (h : ∀ q ∈ n.queues, (n.que q).ready = true → n.MayRun dev q) : n.RespectsBinding dev := by
  intro _ q hq
  obtain ⟨hmem, hready⟩ := inOrderSchedule_ready hq
  exact h q hmem hready

lemma Measured.respectsBinding_iff [DecidableEq D] {n : Node ℝ D} (h : n.Measured) (dev : D) :
    n.RespectsBinding dev ↔ (n.check dev = true → n.Outdone dev) := by
  unfold RespectsBinding
  refine imp_congr_right fun _ => bestFrom_forall_iff.trans ?_
  unfold Outdone
  refine forall₄_congr fun pre p post hqueues => forall_congr' fun hpready => ?_
  have hp : p ∈ n.queues := by simp [hqueues]
  have hpre : ∀ q ∈ pre, q ∈ n.queues := fun q hq => by simp [hqueues, hq]
  have hpost : ∀ q ∈ post, q ∈ n.queues := fun q hq => by simp [hqueues, hq]
  rw [forall_prop_of_true (h.lt_cosValue hp hpready)]
  refine imp_congr_right fun _ => or_congr ?_ ?_
  · refine exists_congr fun q => and_congr_right fun hq => and_congr_right fun hqready => ?_
    rw [h.cosValue_le_iff hp hpready (hpre q hq) hqready]
  · refine exists_congr fun q => and_congr_right fun hq => and_congr_right fun hqready => ?_
    rw [← not_le, h.cosValue_le_iff (hpost q hq) hqready hp hpready]

/-- **Bindings.**  In any arithmetic, a worker is given a queue for its device where every ready
queue is one.  In exact arithmetic, a worker that is let through by `check` is given a queue for its
device if and only if every ready queue for another one is outdone by a queue for its own. -/
theorem binding_respected_iff [DecidableEq D] (dev : D) :
    (∀ (K : Type) [Arith K] (n : Node K D),
      (n.check dev = true → ∀ q ∈ n.queues, (n.que q).ready = true → n.MayRun dev q) →
        n.RespectsBinding dev) ∧
    ∀ n : Node ℝ D, n.Measured →
      (n.RespectsBinding dev ↔ (n.check dev = true → n.Outdone dev)) := by
  constructor
  · intro K _ n h hcheck
    exact respectsBinding_of_mayRun (h hcheck) hcheck
  · intro n hn
    exact hn.respectsBinding_iff dev

/-- Two clients of the same weight with a queue each.  The first has had some time; its queue is
bound to a device, the other to none. -/
noncomputable def oneServed : Node ℝ Bool :=
  { (init : Node ℝ Bool) with
    vm := fun v => { VMInfo.new v 1 with totalUsedTime := if v = 0 then 1 else 0 }
    que := fun q =>
      { VM := q
        bindingDev := if q = 0 then some true else none
        skip := false
        queue := [Command.new q .kernel] }
    VMs := [0, 1]
    basedInnerProduct := 1
    weightLengSquare := 1 + 1
    timeLengSquare := 1
    queues := [0, 1] }

lemma oneServed_measured : oneServed.Measured where
  nodup := by simp [oneServed]
  weights := by simp [oneServed, VMInfo.new]
  times := by
    intro v _
    change 0 ≤ if v = 0 then (1 : ℝ) else 0
    split <;> norm_num
  queueVM := fun q hq => hq
  estimates := by simp [oneServed, Command.new]
  aggregates := by
    constructor <;> simp [oneServed, VMInfo.new, init]

lemma oneServed_timesAfter (q v : ℕ) : oneServed.timesAfter q v =
    (if v = 0 then 1 else 0) + if v = q then 1 else 0 := by
  by_cases hv : v = q
  · subst hv
    simp [timesAfter, oneServed, headTime, Command.new]
  · simp [timesAfter, oneServed, hv]

lemma oneServed_common (q : ℕ) (hq : q = 0 ∨ q = 1) : oneServed.common q = 2 := by
  have hweight : ∀ v, (oneServed.vm v).weight = 1 := fun _ => rfl
  have hVMs : oneServed.VMs = [0, 1] := rfl
  rcases hq with rfl | rfl <;> norm_num [common, hVMs, hweight, oneServed_timesAfter]

lemma oneServed_lengthSquare : oneServed.lengthSquare 0 = 4 ∧ oneServed.lengthSquare 1 = 2 := by
  have hVMs : oneServed.VMs = [0, 1] := rfl
  constructor <;> norm_num [lengthSquare, hVMs, oneServed_timesAfter]

/-- The worker of the other device is given the second queue. -/
theorem binding_respected_iff_oneServed :
    oneServed.queues = [0, 1] ∧ (oneServed.que 0).ready = true ∧ ¬ oneServed.MayRun false 0 ∧
      oneServed.check false = true ∧ oneServed.RespectsBinding false := by
  have hready : ∀ q, (oneServed.que q).ready = true := fun _ => rfl
  have hmayRun : oneServed.MayRun false 1 := Or.inl rfl
  have hnot : ¬ oneServed.AsClose 1 0 := by
    rw [AsClose, oneServed_common 0 (Or.inl rfl), oneServed_common 1 (Or.inr rfl),
      oneServed_lengthSquare.1, oneServed_lengthSquare.2]
    norm_num
  refine ⟨rfl, hready 0, ?_, check_iff.2 ⟨1, by simp [oneServed], hready 1, hmayRun⟩,
    ((binding_respected_iff false).2 oneServed oneServed_measured).2 fun _ => ?_⟩
  · rintro (hnone | hsome)
    · cases hnone
    · cases hsome
  · rintro pre p post hqueues - hp
    obtain _ | ⟨x, pre⟩ := pre
    · obtain ⟨rfl, rfl⟩ : 0 = p ∧ [1] = post := List.cons.inj hqueues
      exact Or.inr ⟨1, List.mem_singleton_self 1, hready 1, hmayRun, hnot⟩
    · -- the second is bound to no device
      have hmem : p ∈ [1] := by
        rw [(List.cons.inj hqueues).2]
        simp
      rw [List.mem_singleton.1 hmem] at hp
      exact absurd hmayRun hp

/-- Two queues of one client, the first bound to a device and the second to none. -/
noncomputable def boundElsewhere : Node ℝ Bool :=
  { (init : Node ℝ Bool) with
    vm := fun _ => VMInfo.new 0 1
    que := fun q =>
      { VM := 0
        bindingDev := if q = 0 then some true else none
        skip := false
        queue := [Command.new q .kernel] }
    VMs := [0]
    weightLengSquare := 1
    queues := [0, 1] }

lemma boundElsewhere_cosValue (q : ℕ) : boundElsewhere.cosValue q = 1 := by
  simp [boundElsewhere, cosValue, VMInfo.new, Command.new, init]

/-- The worker of the other device is given the first. -/
theorem other_device_scheduled :
    ¬ ∀ (n : Node ℝ Bool) (dev : Bool), n.RespectsBinding dev := by
  intro h
  have hready : ∀ q, (boundElsewhere.que q).ready = true := fun _ => rfl
  have hchosen : boundElsewhere.inOrderSchedule = some 0 := by
    have hbest : bestFrom (fun q => (boundElsewhere.que q).ready) boundElsewhere.cosValue
        (-1, none) ([] ++ 0 :: [1]) = (boundElsewhere.cosValue 0, some 0) := by
      refine bestFrom_first (hready 0) ?_ (by simp) (by simp [boundElsewhere_cosValue])
      rw [boundElsewhere_cosValue]
      norm_num
    exact congrArg Prod.snd hbest
  have hcheck : boundElsewhere.check false = true :=
    check_iff.2 ⟨1, by simp [boundElsewhere], hready 1, Or.inl rfl⟩
  rcases h boundElsewhere false hcheck 0 hchosen with hnone | hsome
  · cases hnone
  · cases hsome

end Node

end ElasticFramework
