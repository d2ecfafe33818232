import ElasticFramework.Properties.Bookkeeping
import ElasticFramework.Properties.Tokens
import Mathlib.Tactic.Positivity

/-!
# What the scheduler decides

`InOrderSchedule` starts from a best value of `-1` and takes strict improvements only, so that it
returns a queue at all is a fact about the numbers it compares.  In exact arithmetic the cosine of
every ready queue is positive: the weights are positive, the times are not negative, and a command
is estimated at one time unit.

`Node.Priced P` collects what the node's numbers satisfy, with the weights meeting an arbitrary
`P`; it is preserved by every step that is `Admissible`, that is, connects with a weight meeting
`P` and accounts no negative time.  `never_empty_handed` joins it to the token balance: a worker
that passed `check` and holds the scheduler lock is given a queue, however stale its check.
-/

namespace ElasticFramework

variable {W T : Type*}

/-! ## The numbers of the node -/

namespace Node

variable {D : Type*} {n : Node ℝ D} {P : ℝ → Prop}

/-- The aggregates are exact, the weights of the scheduler's VMs meet `P`, no time is negative,
and every command is estimated at one time unit. -/
structure Priced (P : ℝ → Prop) (n : Node ℝ D) : Prop where
  aggregates : n.Aggregates
  weights : ∀ v ∈ n.VMs, P (n.vm v).weight
  times : ∀ v ∈ n.VMs, 0 ≤ (n.vm v).totalUsedTime
  unit : ∀ q, ∀ c ∈ (n.que q).queue, c.estExecTime = 1

namespace Priced

lemma init : (Node.init : Node ℝ D).Priced P where
  aggregates := Aggregates.init
  weights := by simp [Node.init]
  times := by simp [Node.init]
  unit := by simp [Node.init, CommandQueue.new]

/-- A change of the queues or of the semaphore. -/
lemma congr {n' : Node ℝ D} (h : n.Priced P) (hvm : n'.vm = n.vm) (hVMs : n'.VMs = n.VMs)
    (hinner : n'.basedInnerProduct = n.basedInnerProduct)
    (hweights : n'.weightLengSquare = n.weightLengSquare)
    (htimes : n'.timeLengSquare = n.timeLengSquare)
    (hunit : ∀ q, ∀ c ∈ (n'.que q).queue, c.estExecTime = 1) : n'.Priced P where
  aggregates := by
    constructor
    · rw [hinner, hVMs, hvm, h.aggregates.inner]
    · rw [hweights, hVMs, hvm, h.aggregates.weights]
    · rw [htimes, hVMs, hvm, h.aggregates.times]
  weights := by
    rw [hVMs, hvm]
    exact h.weights
  times := by
    rw [hVMs, hvm]
    exact h.times
  unit := hunit

lemma setQueue (h : n.Priced P) {q : ℕ} {cq : CommandQueue ℝ D}
    (hunit : ∀ c ∈ cq.queue, c.estExecTime = 1) : (n.setQueue q cq).Priced P := by
  refine h.congr rfl rfl rfl rfl rfl fun p c hmem => ?_
  by_cases hp : p = q
  · subst hp
    exact hunit c (by simpa using hmem)
  · exact h.unit p c (by simpa [hp] using hmem)

lemma push (h : n.Priced P) (q ptr : ℕ) (kind : CommandKind) :
    (n.push q (Command.new ptr kind)).Priced P := by
  have hq : (n.setQueue q
      { n.que q with queue := (n.que q).queue ++ [Command.new ptr kind] }).Priced P := by
    refine h.setQueue fun c hc => ?_
    rcases List.mem_append.1 hc with hc | hc
    · exact h.unit q c hc
    · rw [List.mem_singleton.1 hc]
      rfl
  simp only [Node.push]
  split
  · exact hq.congr rfl rfl rfl rfl rfl hq.unit
  · exact hq

lemma pop (h : n.Priced P) (q : ℕ) : (n.pop q).Priced P :=
  h.setQueue fun c hc => h.unit q c (List.mem_of_mem_tail hc)

lemma setSkip (h : n.Priced P) (q : ℕ) (b : Bool) : (n.setSkip q b).Priced P :=
  h.setQueue (h.unit q)

lemma setBindingDev (h : n.Priced P) (q : ℕ) (dev : D) : (n.setBindingDev q dev).Priced P :=
  h.setQueue (h.unit q)

lemma createVM (h : n.Priced P) (hl : n.Linked) {weight : ℝ} (hweight : P weight) :
    (n.createVM weight).Priced P where
  aggregates := h.aggregates.createVM hl weight
  weights := by
    intro v hv
    rcases List.mem_append.1 hv with hv | hv
    · have hlt := hl.freshVMs v hv
      simpa [Node.createVM, hlt.ne] using h.weights v hv
    · rw [List.mem_singleton.1 hv]
      simpa [Node.createVM, VMInfo.new] using hweight
  times := by
    intro v hv
    rcases List.mem_append.1 hv with hv | hv
    · have hlt := hl.freshVMs v hv
      simpa [Node.createVM, hlt.ne] using h.times v hv
    · rw [List.mem_singleton.1 hv]
      simp [Node.createVM, VMInfo.new]
  unit := h.unit

/-- `createQueue` and `destroyQueue` change a reference count and possibly an empty queue. -/
lemma of_refs {n' : Node ℝ D} (h : n.Priced P) {v r : ℕ} (haggregates : n'.Aggregates)
    (hvm : n'.vm = Function.update n.vm v { n.vm v with referenceCount := r })
    (hVMs : n'.VMs = n.VMs) (hunit : ∀ q, ∀ c ∈ (n'.que q).queue, c.estExecTime = 1) :
    n'.Priced P where
  aggregates := haggregates
  weights := by
    intro u hu
    rw [hVMs] at hu
    rw [hvm, apply_update_eq (f := VMInfo.weight) (by rfl) u]
    exact h.weights u hu
  times := by
    intro u hu
    rw [hVMs] at hu
    rw [hvm, apply_update_eq (f := VMInfo.totalUsedTime) (by rfl) u]
    exact h.times u hu
  unit := hunit

lemma createQueue (h : n.Priced P) (v : ℕ) : (n.createQueue v).Priced P := by
  refine h.of_refs (h.aggregates.createQueue v) rfl rfl fun q c hc => ?_
  by_cases hq : q = n.nextQueue
  · simp [Node.createQueue, hq, CommandQueue.new] at hc
  · exact h.unit q c (by simpa [Node.createQueue, hq] using hc)

lemma destroyQueue (h : n.Priced P) (q : ℕ) : (n.destroyQueue q).Priced P :=
  h.of_refs (h.aggregates.destroyQueue q) rfl rfl h.unit

lemma destroyVM (h : n.Priced P) (v : ℕ) : (n.destroyVM v).2.Priced P := by
  have hVMs : ∀ u ∈ (n.destroyVM v).2.VMs, u ∈ n.VMs := by
    intro u hu
    unfold Node.destroyVM at hu
    split at hu
    · exact hu
    · split at hu
      · exact List.mem_of_mem_erase hu
      · exact hu
  constructor
  · exact h.aggregates.destroyVM v
  · intro u hu
    rw [destroyVM_vm]
    exact h.weights u (hVMs u hu)
  · intro u hu
    rw [destroyVM_vm]
    exact h.times u (hVMs u hu)
  · rw [destroyVM_que]
    exact h.unit

lemma account (h : n.Priced P) (hl : n.Linked) {q : ℕ} (hq : q ∈ n.queues) {usedTime : ℝ}
    (husedTime : 0 ≤ usedTime) : (n.account q usedTime).Priced P where
  aggregates := h.aggregates.account hl hq usedTime
  weights := by
    intro u hu
    have hweight : ((n.account q usedTime).vm u).weight = (n.vm u).weight := by
      refine apply_update_eq (f := VMInfo.weight) ?_ u
      rfl
    rw [hweight]
    exact h.weights u hu
  times := by
    intro u hu
    have hold := h.times u hu
    by_cases hv : u = (n.que q).VM
    · subst hv
      simp only [Node.account, Function.update_self]
      linarith
    · simpa [Node.account, increaseTimeLengSquare, increaseInnerProduct, hv] using hold
  unit := h.unit

end Priced

/-! ## The cosine of a ready queue -/

namespace Priced

lemma cosValue_eq (h : n.Priced P) {q : ℕ} {comm : Command ℝ} {rest : List (Command ℝ)}
    (hfront : (n.que q).queue = comm :: rest) :
    n.cosValue q = (n.basedInnerProduct + (n.vm (n.que q).VM).weight) /
      (√n.weightLengSquare *
        √(n.timeLengSquare + (2 * (n.vm (n.que q).VM).totalUsedTime + 1))) := by
  have hunit : comm.estExecTime = 1 := h.unit q comm (by rw [hfront]; exact List.mem_cons_self ..)
  simp only [cosValue, hfront, hunit, Arith.sqrt_real]
  norm_num

lemma basedInnerProduct_nonneg (h : n.Priced P) (hP : ∀ x, P x → 0 < x) :
    0 ≤ n.basedInnerProduct := by
  rw [h.aggregates.inner]
  refine List.sum_nonneg fun x hx => ?_
  obtain ⟨v, hv, rfl⟩ := List.mem_map.1 hx
  have hweight := hP _ (h.weights v hv)
  have htime := h.times v hv
  positivity

lemma weightLengSquare_pos (h : n.Priced P) (hP : ∀ x, P x → 0 < x) {v : ℕ} (hv : v ∈ n.VMs) :
    0 < n.weightLengSquare := by
  have hweight := hP _ (h.weights v hv)
  have hmem : (n.vm v).weight ^ 2 ∈ n.VMs.map fun v => (n.vm v).weight ^ 2 :=
    List.mem_map.2 ⟨v, hv, rfl⟩
  have hle : (n.vm v).weight ^ 2 ≤ (n.VMs.map fun v => (n.vm v).weight ^ 2).sum := by
    refine List.single_le_sum (fun x hx => ?_) _ hmem
    obtain ⟨u, -, rfl⟩ := List.mem_map.1 hx
    positivity
  rw [h.aggregates.weights]
  exact lt_of_lt_of_le (by positivity) hle

lemma timeLengSquare_nonneg (h : n.Priced P) : 0 ≤ n.timeLengSquare := by
  rw [h.aggregates.times]
  refine List.sum_nonneg fun x hx => ?_
  obtain ⟨v, -, rfl⟩ := List.mem_map.1 hx
  positivity

/-- The cosine of a queue with work is positive. -/
lemma cosValue_pos (h : n.Priced P) (hP : ∀ x, P x → 0 < x) {q : ℕ}
    (hv : (n.que q).VM ∈ n.VMs) (hq : (n.que q).queue ≠ []) : 0 < n.cosValue q := by
  obtain ⟨comm, rest, hfront⟩ := List.exists_cons_of_ne_nil hq
  have hinner := h.basedInnerProduct_nonneg hP
  have hweights := h.weightLengSquare_pos hP hv
  have htimes := h.timeLengSquare_nonneg
  have hweight := hP _ (h.weights _ hv)
  have htime := h.times _ hv
  rw [h.cosValue_eq hfront]
  positivity

/-- In exact arithmetic the loop returns a queue whenever the pool holds a ready one. -/
lemma inOrderSchedule_isSome (h : n.Priced P) (hP : ∀ x, P x → 0 < x) (hl : n.Linked) {q : ℕ}
    (hq : q ∈ n.queues) (hready : (n.que q).ready = true) :
    ∃ p, n.inOrderSchedule = some p := by
  obtain ⟨-, hne⟩ := CommandQueue.ready_iff.1 hready
  have hcos := h.cosValue_pos hP (hl.queueVM q hq) hne
  have hlt : (-1 : ℝ) < n.cosValue q := by linarith
  exact bestFrom_some_of_lt hq hready hlt

end Priced

end Node

/-! ## Along a run -/

/-- The time a step accounts. -/
def State.accounts {K : Type*} (s : State K W T) : Label K W T → Option K
  | .account w =>
    match s.worker w with
    | .executed _ _ usedTime => some usedTime
    | _ => none
  | _ => none

lemma State.accounts_executed {K : Type*} {s : State K W T} {w : W} {q : ℕ} {comm : Command K}
    {usedTime : K} (hpc : s.worker w = .executed q comm usedTime) :
    s.accounts (.account w) = some usedTime := by
  simp [State.accounts, hpc]

lemma State.accounts_eq_none {K : Type*} {s : State K W T} {l : Label K W T}
    (hl : ∀ w, l ≠ .account w) : s.accounts l = none := by
  cases l with
  | account w => exact absurd rfl (hl w)
  | _ => rfl

/-- A step that connects with a weight meeting `P` and accounts no negative time. -/
structure Admissible (P : ℝ → Prop) (s : State ℝ W T) (l : Label ℝ W T) : Prop where
  weight : ∀ t x, l = .connect t x → P x
  time : ∀ u, s.accounts l = some u → 0 ≤ u

section Runs

variable [DecidableEq W] [DecidableEq T] {P : ℝ → Prop} {s s' : State ℝ W T} {l : Label ℝ W T}
  {ls : List (Label ℝ W T)}

lemma priced_step (hc : Coherent s) (hp : s.node.Priced P) (hs : Step s l s')
    (hl : Admissible P s l) : s'.node.Priced P := by
  cases hs with
  | connect hpc hlock => exact hp.createVM hc.linked (hl.weight _ _ rfl)
  | createQueue hpc hlock => exact hp.createQueue _
  | bindDev hpc => exact hp.setBindingDev _ _
  | push hpc hkind => exact hp.push _ _ _
  | finish hpc => exact hp.push _ _ _
  | teardown hpc hlock => exact (hp.destroyQueue _).destroyVM _
  | take hpc hsem => exact hp.congr rfl rfl rfl rfl rfl hp.unit
  | giveBack hpc => exact hp.congr rfl rfl rfl rfl rfl hp.unit
  | pick hpc hlock hq hfront => exact hp.setSkip _ _
  | beginExec hpc => simpa [State.goto] using hp
  | @account w q comm usedTime hpc hlock =>
      obtain ⟨hmem, -⟩ := hc.claims.claim w q (by simp [hpc, WorkerPc.queue])
      have husedTime := hl.time usedTime (State.accounts_executed hpc)
      exact hp.account hc.linked hmem husedTime
  | pop hpc => exact hp.pop _
  | testNonempty hpc hempty => exact hp.congr rfl rfl rfl rfl rfl hp.unit
  | clearSkip hpc => exact hp.setSkip _ _
  | _ => exact hp

/-- The numbers of the node after a run of admissible steps. -/
theorem priced_of_exec (h : computeNode.exec State.init ls = some s)
    (hall : computeNode.AllSteps (Admissible P) State.init ls) : s.node.Priced P := by
  have hboth : Coherent s ∧ s.node.Priced P :=
    computeNode.invariant_of_allSteps (I := fun s => Coherent s ∧ s.node.Priced P)
      ⟨Coherent.init, Node.Priced.init⟩
      (fun s l s' ⟨hc, hp⟩ hl hs =>
        ⟨hc.step (step_inv hs), priced_step hc hp (step_inv hs) hl⟩) hall h
  exact hboth.2

/-- **The scheduler never comes back empty-handed.**  In every state reached with positive weights
and no negative accounted time, a worker past `check` that has the scheduler lock to itself is
given a queue of the pool that is not skipped and not empty, and its step is enabled. -/
theorem never_empty_handed [Fintype W] (h : computeNode.exec State.init ls = some s)
    (hall : computeNode.AllSteps (Admissible (0 < ·)) State.init ls) {w : W}
    (hw : s.worker w = .admitted) (hlock : s.procLock = none) :
    ∃ q comm rest, s.node.inOrderSchedule = some q ∧ q ∈ s.node.queues ∧
      (s.node.que q).skip = false ∧ (s.node.que q).queue = comm :: rest ∧
      computeNode.step s (.pick w) =
        some ((s.withNode (s.node.setSkip q true)).goto w (.picked q comm)) := by
  have hp := priced_of_exec h hall
  have hc := coherent_of_exec h
  obtain ⟨p, hp_mem, hp_ready⟩ := ready_of_admitted h hw hlock
  obtain ⟨q, hq⟩ := hp.inOrderSchedule_isSome (fun _ hx => hx) hc.linked hp_mem hp_ready
  obtain ⟨hmem, hready⟩ := Node.inOrderSchedule_ready hq
  obtain ⟨hskip, hne⟩ := CommandQueue.ready_iff.1 hready
  obtain ⟨comm, rest, hfront⟩ := List.exists_cons_of_ne_nil hne
  exact ⟨q, comm, rest, hq, hmem, hskip, hfront, step_pick hw hlock hq hfront⟩

end Runs

/-- Two clients push a command each, and the workers of both devices pass `check`. -/
def twoAdmitted : List (Label ℝ Bool Bool) :=
  [.connect false 1, .connect true (1 + 1), .createQueue true, .createQueue false,
    .bindDev false false, .bindDev true true, .push true .kernel, .take false, .push false .write,
    .take true, .check true, .check false]

/-- The state in which either may pick. -/
noncomputable def twoAdmittedState : State ℝ Bool Bool :=
  (computeNode.exec State.init twoAdmitted).getD State.init

theorem never_empty_handed_run :
    twoAdmittedState.procLock = none ∧ ∀ w, twoAdmittedState.worker w = .admitted ∧
      ∃ q comm rest, twoAdmittedState.node.inOrderSchedule = some q ∧
        q ∈ twoAdmittedState.node.queues ∧ (twoAdmittedState.node.que q).skip = false ∧
        (twoAdmittedState.node.que q).queue = comm :: rest ∧
        computeNode.step twoAdmittedState (.pick w) =
          some ((twoAdmittedState.withNode (twoAdmittedState.node.setSkip q true)).goto w
            (.picked q comm)) := by
  have hrun : computeNode.exec State.init twoAdmitted = some twoAdmittedState := rfl
  have hall : computeNode.AllSteps (Admissible (0 < ·)) State.init twoAdmitted := by
    refine computeNode.allSteps_of_forall_mem fun l hl s => ⟨?_, ?_⟩
    · rintro t x rfl
      have hx : x = 1 ∨ x = 1 + 1 := by
        simp only [twoAdmitted, List.mem_cons, Label.connect.injEq, reduceCtorEq, List.not_mem_nil,
          or_false] at hl
        exact hl.imp And.right And.right
      rcases hx with rfl | rfl <;> norm_num
    · rintro u hu
      cases l with
      | account w => simp [twoAdmitted] at hl
      | _ => cases hu
  refine ⟨rfl, fun w => ?_⟩
  have hpc : twoAdmittedState.worker w = .admitted := by cases w <;> rfl
  exact ⟨hpc, never_empty_handed hrun hall hpc rfl⟩

end ElasticFramework
