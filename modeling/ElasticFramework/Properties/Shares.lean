import ElasticFramework.Framework.Steering
import ElasticFramework.Properties.Fairness
import ElasticFramework.Properties.OneDevice

/-!
# What each client gets

`fair_share` is about VMs of one weight.  Whatever the weights are, `InOrderSchedule` steers the
vector of the used times towards that of the weights.  While no client connects or leaves, and as
long as each command takes a time between two bounds:

* a client that has work is not passed by for ever: only so many commands are accounted before one
  of its own (`nobody_starves`);
* if all clients have work, their shares of the time become those of the weights
  (`shares_become_weights`).

All clients have the one device that `Run` gives them.  `SteeredSince` is the invariant: what has
been accounted is a row of steps in the sense of `Framework/Steering.lean`, and the command at hand
is about to be the next one.
-/

namespace ElasticFramework

variable {W T : Type*}

/-! ## Times and weights -/

namespace Node

variable {D : Type*}

def times (n : Node ℝ D) (v : ℕ) : ℝ := (n.vm v).totalUsedTime

def weights (n : Node ℝ D) (v : ℕ) : ℝ := (n.vm v).weight

/-- Only the queues or the reference counts differ. -/
structure SameTimes (n n' : Node ℝ D) : Prop where
  VMs : n'.VMs = n.VMs
  times : n'.times = n.times
  weights : n'.weights = n.weights

lemma SameTimes.of_vm {n n' : Node ℝ D} (hVMs : n'.VMs = n.VMs) (hvm : n'.vm = n.vm) :
    n.SameTimes n' where
  VMs := hVMs
  times := by
    funext v
    rw [Node.times, Node.times, hvm]
  weights := by
    funext v
    rw [Node.weights, Node.weights, hvm]

lemma times_account (n : Node ℝ D) (q : ℕ) (t : ℝ) :
    (n.account q t).times =
      Function.update n.times (n.que q).VM (n.times (n.que q).VM + t) := by
  funext v
  by_cases hv : v = (n.que q).VM
  · subst hv
    simp [Node.times, Node.account]
  · simp [Node.times, Node.account, increaseTimeLengSquare, increaseInnerProduct, hv]

lemma weights_account (n : Node ℝ D) (q : ℕ) (t : ℝ) : (n.account q t).weights = n.weights := by
  funext v
  refine apply_update_eq (f := VMInfo.weight) ?_ v
  rfl

/-- The VM of `q` is no worse a choice than `v`. -/
def Chosen (n : Node ℝ D) (v q : ℕ) : Prop :=
  Better n.VMs.toFinset n.weights n.times v (n.que q).VM

lemma SameTimes.chosen {n n' : Node ℝ D} (h : n.SameTimes n') {v q : ℕ}
    (hVM : (n'.que q).VM = (n.que q).VM) (hchosen : n.Chosen v q) : n'.Chosen v q := by
  rw [Chosen, h.VMs, h.times, h.weights, hVM]
  exact hchosen

/-- A larger cosine. -/
lemma chosen_of_cosValue_le {n : Node ℝ D} (h : n.Priced (0 < ·)) (hl : n.Linked) {p q : ℕ}
    (hp : p ∈ n.queues) (hq : q ∈ n.queues) (hpne : (n.que p).queue ≠ [])
    (hqne : (n.que q).queue ≠ []) (hle : n.cosValue p ≤ n.cosValue q) :
    n.Chosen (n.que p).VM q := by
  obtain ⟨c, rest, hpfront⟩ := List.exists_cons_of_ne_nil hpne
  obtain ⟨d, rest', hqfront⟩ := List.exists_cons_of_ne_nil hqne
  have hpVM := hl.queueVM p hp
  have hqVM := hl.queueVM q hq
  have hinner := h.basedInnerProduct_nonneg fun _ hx => hx
  have htimes := h.timeLengSquare_nonneg
  have hpweight := h.weights _ hpVM
  have hqweight := h.weights _ hqVM
  have hptime := h.times _ hpVM
  have hqtime := h.times _ hqVM
  rw [h.cosValue_eq hpfront, h.cosValue_eq hqfront, div_sqrt_le_div_sqrt_iff (by positivity)
    (by positivity) (h.weightLengSquare_pos (fun _ hx => hx) hpVM) (by positivity)
    (by positivity), h.aggregates.inner, h.aggregates.times,
    ← List.sum_toFinset _ hl.nodupVMs, ← List.sum_toFinset _ hl.nodupVMs] at hle
  exact (better_iff (List.mem_toFinset.2 hpVM) (List.mem_toFinset.2 hqVM)).2 hle

end Node

/-! ## Steps -/

/-- Nobody connects or leaves, queues are bound to device `d` only, and what is accounted is between
`δ` and `M`. -/
structure Steady (d : W) (δ M : ℝ) (s : State ℝ W T) (l : Label ℝ W T) : Prop where
  connect : ∀ t x, l ≠ .connect t x
  teardown : ∀ t, l ≠ .teardown t
  device : ∀ t dev, l = .bindDev t dev → dev = d
  lower : ∀ u, s.accounts l = some u → δ ≤ u
  upper : ∀ u, s.accounts l = some u → u ≤ M

/-- Whenever device `d` is given a queue, one of `v` has work. -/
def HasWork (d : W) (v : ℕ) (s : State ℝ W T) (l : Label ℝ W T) : Prop :=
  l = .pick d → ∃ q ∈ s.node.queues, (s.node.que q).VM = v ∧ (s.node.que q).queue ≠ []

lemma Steady.admissible {d : W} {δ M : ℝ} {s : State ℝ W T} {l : Label ℝ W T}
    (h : Steady d δ M s l) (hδ : 0 < δ) : Admissible (0 < ·) s l where
  weight t x hl := absurd hl (h.connect t x)
  time u hu := hδ.le.trans (h.lower u hu)

section Steps

variable [DecidableEq W] [DecidableEq T] {d : W} {δ M : ℝ} {s s' : State ℝ W T}
  {l : Label ℝ W T} {v : ℕ}

/-- Only an accounting step moves the times. -/
lemma Steady.sameTimes (h : Steady d δ M s l) (hs : Step s l s') (hl : ∀ w, l ≠ .account w) :
    s.node.SameTimes s'.node := by
  cases hs with
  | connect hpc hlock => exact absurd rfl (h.connect _ _)
  | teardown hpc hlock => exact absurd rfl (h.teardown _)
  | account hpc hlock => exact absurd rfl (hl _)
  | createQueue hpc hlock =>
      refine ⟨rfl, ?_, ?_⟩
      · funext u
        refine apply_update_eq (f := VMInfo.totalUsedTime) ?_ u
        rfl
      · funext u
        refine apply_update_eq (f := VMInfo.weight) ?_ u
        rfl
  | push hpc hkind => exact .of_vm (Node.push_VMs _ _ _) (Node.push_vm _ _ _)
  | finish hpc => exact .of_vm (Node.push_VMs _ _ _) (Node.push_vm _ _ _)
  | @beginExec w q comm hpc =>
      have hnode : ((s.exec comm).goto w (.executing q comm)).node = s.node := by
        simp [State.goto]
      exact .of_vm (by rw [hnode]) (by rw [hnode])
  | _ => exact .of_vm rfl rfl

/-- The command at hand is no worse a choice than one of `v`. -/
def Owed (d : W) (v : ℕ) (s : State ℝ W T) : Prop :=
  ∀ q, (s.worker d).owes = some q → s.node.Chosen v q

namespace Owed

omit [DecidableEq W] [DecidableEq T] in
/-- Where the times are the same and the worker owes no other queue. -/
lemma congr (h : Owed d v s) (hsame : s.node.SameTimes s'.node)
    (howes : ∀ q, (s'.worker d).owes = some q →
      (s.worker d).owes = some q ∧ (s'.node.que q).VM = (s.node.que q).VM) : Owed d v s' := by
  intro q hq
  obtain ⟨hold, hVM⟩ := howes q hq
  exact hsame.chosen hVM (h q hold)

omit [DecidableEq T] in
/-- A worker goes on with what it has, or to where it owes nothing. -/
lemma goto (h : Owed d v s) (hsame : s.node.SameTimes s'.node) {w : W} {pc : WorkerPc ℝ}
    (hworker : s'.worker = Function.update s.worker w pc)
    (hpc : pc.owes = none ∨ pc.owes = (s.worker w).owes)
    (hVM : ∀ q, (s'.node.que q).VM = (s.node.que q).VM) : Owed d v s' := by
  refine h.congr hsame fun q hq => ⟨?_, hVM q⟩
  rw [hworker] at hq
  by_cases hw : d = w
  · subst hw
    rw [Function.update_self] at hq
    rcases hpc with hpc | hpc
    · rw [hpc] at hq
      cases hq
    · rwa [← hpc]
  · rwa [Function.update_of_ne hw] at hq

omit [DecidableEq T] in
/-- The worker is given a queue. -/
lemma pick (hc : Coherent s) (hd : Devoted d s) (hp : s.node.Priced (0 < ·)) {w : W} {q : ℕ}
    {comm : Command ℝ} (hpc : s.worker w = .admitted) (hq : s.node.inOrderSchedule = some q)
    (hwork : HasWork d v s (.pick w)) :
    Owed d v ((s.withNode (s.node.setSkip q true)).goto w (.picked q comm)) := by
  obtain rfl : w = d := hd.eq_of_busy hpc (.inl rfl)
  -- the only worker that is given queues has none, so no queue is skipped
  have hskip : ∀ p, (s.node.que p).skip = false := by
    intro p
    by_contra hp
    obtain ⟨w', hw'⟩ := hc.claims.claimed p (by simpa using hp)
    obtain rfl := hd.eq_of_queue rfl hw'
    rw [hpc] at hw'
    cases hw'
  intro p hp'
  obtain rfl : q = p := by simpa [State.goto, WorkerPc.owes] using hp'
  obtain ⟨hqmem, hready⟩ := Node.inOrderSchedule_ready hq
  obtain ⟨-, hqne⟩ := CommandQueue.ready_iff.1 hready
  obtain ⟨p, hpmem, rfl, hpne⟩ := hwork rfl
  have hpready : (s.node.que p).ready = true := CommandQueue.ready_iff.2 ⟨hskip p, hpne⟩
  have hmax := bestFrom_max (p := fun q => (s.node.que q).ready) (f := s.node.cosValue)
    (-1, none) hpmem hpready
  have hscore : s.node.cosValue p ≤ s.node.cosValue q := hmax.trans_eq (bestFrom_score hq)
  have hchosen := Node.chosen_of_cosValue_le hp hc.linked hpmem hqmem hpne hqne hscore
  have hsame : s.node.SameTimes (s.node.setSkip q true) := .of_vm rfl rfl
  exact hsame.chosen (Node.setSkip_VM s.node q q true) hchosen

lemma step (h : Owed d v s) (hc : Coherent s) (hd : Devoted d s) (hp : s.node.Priced (0 < ·))
    (hsteady : Steady d δ M s l) (hwork : HasWork d v s l) (hl : ∀ w, l ≠ .account w)
    (hs : Step s l s') : Owed d v s' := by
  have hsame := hsteady.sameTimes hs hl
  cases hs with
  | connect hpc hlock => exact absurd rfl (hsteady.connect _ _)
  | teardown hpc hlock => exact absurd rfl (hsteady.teardown _)
  | account hpc hlock => exact absurd rfl (hl _)
  | createQueue hpc hlock =>
      refine h.congr hsame fun q hq => ⟨hq, ?_⟩
      have hlt := hc.claims.lt_nextQueue hc.linked (WorkerPc.queue_of_owes hq)
      simp [State.enter, State.withNode, Node.createQueue, hlt.ne]
  | bindDev hpc => exact h.congr hsame fun q hq => ⟨hq, Node.setBindingDev_VM _ _ _ _⟩
  | push hpc hkind => exact h.congr hsame fun q hq => ⟨hq, Node.push_VM _ _ _ _⟩
  | finish hpc => exact h.congr hsame fun q hq => ⟨hq, Node.push_VM _ _ _ _⟩
  | passWait hpc hsem => exact h.congr hsame fun q hq => ⟨hq, rfl⟩
  | seeEmpty hpc hempty => exact h.congr hsame fun q hq => ⟨hq, rfl⟩
  | take hpc hsem => exact h.goto hsame rfl (.inl rfl) fun _ => rfl
  | check hpc =>
      refine h.goto hsame rfl (.inl ?_) fun _ => rfl
      split <;> rfl
  | giveBack hpc => exact h.goto hsame rfl (.inl rfl) fun _ => rfl
  | pick hpc hlock hq hfront => exact .pick hc hd hp hpc hq hwork
  | @beginExec w q comm hpc =>
      have hworker : ((s.exec comm).goto w (.executing q comm)).worker =
          Function.update s.worker w (.executing q comm) := by simp [State.goto]
      refine h.goto hsame hworker (.inr ?_) (by simp [State.goto])
      rw [hpc]
      rfl
  | endExec hpc =>
      refine h.goto hsame rfl (.inr ?_) fun _ => rfl
      rw [hpc]
      rfl
  | pop hpc => exact h.goto hsame rfl (.inl rfl) fun p => Node.pop_VM _ _ p
  | testEmpty hpc hempty => exact h.goto hsame rfl (.inl rfl) fun _ => rfl
  | testNonempty hpc hempty => exact h.goto hsame rfl (.inl rfl) fun _ => rfl
  | clearSkip hpc => exact h.goto hsame rfl (.inl rfl) fun p => Node.setSkip_VM _ _ p _

end Owed

/-! ## Runs -/

/-- Since `s₀`, `n` commands have been accounted, by steps that do justice to the VMs of `C`. -/
structure SteeredSince (s₀ : State ℝ W T) (d : W) (C : Set ℕ) (δ M : ℝ) (n : ℕ)
    (s : State ℝ W T) : Prop where
  coherent : Coherent s
  devoted : Devoted d s
  priced : s.node.Priced (0 < ·)
  VMs : s.node.VMs = s₀.node.VMs
  weights : s.node.weights = s₀.node.weights
  /-- The command at hand in `s₀` is the first to be accounted, and may have been any. -/
  steered : n = 0 ∧ s.node.times = s₀.node.times ∨
    ∃ k u, n = k + 1 ∧ (∀ i, s₀.node.times i ≤ u i) ∧ (∀ i ∈ s₀.node.VMs.toFinset, 0 ≤ u i) ∧
      √(∑ i ∈ s₀.node.VMs.toFinset, u i ^ 2) ≤
        √(∑ i ∈ s₀.node.VMs.toFinset, s₀.node.times i ^ 2) + M ∧
      Steered s₀.node.VMs.toFinset s₀.node.weights C δ M k u s.node.times ∧ ∀ v ∈ C, Owed d v s

namespace SteeredSince

variable {s₀ : State ℝ W T} {C : Set ℕ} {n : ℕ}

/-- A command is accounted. -/
lemma account (h : SteeredSince s₀ d C δ M n s) (hδ : 0 < δ) {w : W} {q : ℕ} {comm : Command ℝ}
    {t : ℝ} (hpc : s.worker w = .executed q comm t) (hlock : s.procLock = none) (hδt : δ ≤ t)
    (htM : t ≤ M) :
    SteeredSince s₀ d C δ M (n + 1)
      ({ s.withNode (s.node.account q t) with procLock := some w }.goto w (.accounted q)) := by
  have ht : 0 < t := hδ.trans_le hδt
  have hs := Step.account hpc hlock
  obtain rfl := h.devoted.eq_of_queue hpc rfl
  have hqueue : (s.worker w).queue = some q := by rw [hpc]; rfl
  obtain ⟨hqmem, -⟩ := h.coherent.claims.claim w q hqueue
  have hi : (s.node.que q).VM ∈ s₀.node.VMs.toFinset := by
    rw [← h.VMs]
    exact List.mem_toFinset.2 (h.coherent.linked.queueVM q hqmem)
  have hpriced := h.priced.account h.coherent.linked hqmem ht.le
  have htimes := s.node.times_account q t
  have howed : ∀ v ∈ C, Owed w v
      ({ s.withNode (s.node.account q t) with procLock := some w }.goto w (.accounted q)) := by
    intro v _ p hp
    simp [State.goto, WorkerPc.owes] at hp
  refine ⟨h.coherent.step hs, h.devoted.step h.coherent hs (by simp), hpriced, h.VMs,
    (s.node.weights_account q t).trans h.weights, .inr ?_⟩
  rcases h.steered with ⟨rfl, hsame⟩ | ⟨k, u, rfl, hle, hu, hlength, hsteered, howes⟩
  · refine ⟨0, (s.node.account q t).times, rfl, fun i => ?_, fun i hi => ?_, ?_, .refl _, howed⟩
    · rw [htimes, update_add_apply, hsame]
      split <;> linarith
    · rw [← h.VMs] at hi
      exact hpriced.times i (List.mem_toFinset.1 hi)
    · have hlength := sqrt_sum_sq_update_le (u := s.node.times) hi ht.le
      rw [hsame] at hlength htimes
      rw [htimes]
      linarith
  · refine ⟨k + 1, u, rfl, hle, hu, hlength, hsteered.step ?_, howed⟩
    change Steers _ _ _ _ _ _ (s.node.account q t).times
    rw [htimes]
    refine .grow _ t hi hδt htM fun v hv => ?_
    have hchosen := howes v hv q (by rw [hpc]; rfl)
    rw [Node.Chosen, h.VMs, h.weights] at hchosen
    exact hchosen

lemma step (h : SteeredSince s₀ d C δ M n s) (hδ : 0 < δ) (hsteady : Steady d δ M s l)
    (hwork : ∀ v ∈ C, HasWork d v s l) (hs : Step s l s') :
    SteeredSince s₀ d C δ M (n + (s.accounts l).toList.length) s' := by
  by_cases hl : ∀ w, l ≠ .account w
  · have hnone := State.accounts_eq_none (s := s) hl
    have hsame := hsteady.sameTimes hs hl
    rw [hnone]
    refine ⟨h.coherent.step hs, h.devoted.step h.coherent hs hsteady.device,
      priced_step h.coherent h.priced hs (hsteady.admissible hδ), hsame.VMs.trans h.VMs,
      hsame.weights.trans h.weights, ?_⟩
    rw [hsame.times]
    refine h.steered.imp id ?_
    rintro ⟨k, u, hk, hle, hu, hlength, hsteered, howes⟩
    exact ⟨k, u, hk, hle, hu, hlength, hsteered, fun v hv =>
      (howes v hv).step h.coherent h.devoted h.priced hsteady (hwork v hv) hl hs⟩
  · cases hs with
    | @account w q comm t hpc hlock =>
        have hacc := State.accounts_executed hpc
        rw [hacc]
        exact h.account hδ hpc hlock (hsteady.lower t hacc) (hsteady.upper t hacc)
    | _ => exact absurd (by intro w hw; cases hw) hl

end SteeredSince

/-- How many commands a run has accounted. -/
def accounted {K : Type*} [Arith K] (s₀ : State K W T) (ls : List (Label K W T)) : ℕ :=
  (computeNode.trace (fun s l => (s.accounts l).toList) s₀ ls).length

section Results

variable {s₀ : State ℝ W T} {ls₀ ls : List (Label ℝ W T)} {C : Set ℕ}

lemma steeredSince_of_exec (h₀ : computeNode.exec State.init ls₀ = some s₀)
    (hadm₀ : computeNode.AllSteps (Admissible (0 < ·)) State.init ls₀)
    (hdev₀ : ∀ t dev, .bindDev t dev ∈ ls₀ → dev = d) (hδ : 0 < δ)
    (h : computeNode.exec s₀ ls = some s) (hsteady : computeNode.AllSteps (Steady d δ M) s₀ ls)
    (hwork : ∀ v ∈ C, computeNode.AllSteps (HasWork d v) s₀ ls) :
    SteeredSince s₀ d C δ M (accounted s₀ ls) s := by
  refine computeNode.exec_induction (P := fun ls s =>
    computeNode.AllSteps (Steady d δ M) s₀ ls →
      (∀ v ∈ C, computeNode.AllSteps (HasWork d v) s₀ ls) →
        SteeredSince s₀ d C δ M (accounted s₀ ls) s) ?_ ?_ h hsteady hwork
  · exact fun _ _ => ⟨coherent_of_exec h₀, devoted_of_exec h₀ hdev₀, priced_of_exec h₀ hadm₀, rfl,
      rfl, .inl ⟨rfl, rfl⟩⟩
  · intro ls s l s' hs ih hl hsteady hwork
    obtain ⟨hsteady, hsteady'⟩ := computeNode.allSteps_snoc_iff.1 hsteady
    rw [accounted, computeNode.trace_snoc _ l hs, List.length_append]
    exact (ih hsteady fun v hv => (computeNode.allSteps_snoc_iff.1 (hwork v hv)).1).step hδ
      (hsteady' s hs) (fun v hv => (computeNode.allSteps_snoc_iff.1 (hwork v hv)).2 s hs)
      (step_inv hl)

/-- **Nobody starves.**  From any state of a run with positive weights and no negative times in
which all queues are bound to one device: as long as nobody connects or leaves, each command takes
between `δ` and `M`, and `v` has work whenever a queue is chosen, only a bounded number of commands
are accounted before one of `v`. -/
theorem nobody_starves (h₀ : computeNode.exec State.init ls₀ = some s₀)
    (hadm₀ : computeNode.AllSteps (Admissible (0 < ·)) State.init ls₀)
    (hdev₀ : ∀ t dev, .bindDev t dev ∈ ls₀ → dev = d) (hv : v ∈ s₀.node.VMs) (hδ : 0 < δ)
    (hM : δ ≤ M) :
    ∃ N, ∀ ls s, computeNode.exec s₀ ls = some s →
      computeNode.AllSteps (Steady d δ M) s₀ ls → computeNode.AllSteps (HasWork d v) s₀ ls →
      (s.node.vm v).totalUsedTime = (s₀.node.vm v).totalUsedTime → accounted s₀ ls ≤ N := by
  have hM₀ := hδ.trans_le hM
  have hp₀ := priced_of_exec h₀ hadm₀
  obtain ⟨N, hN⟩ := exists_le_of_waits (s := s₀.node.VMs.toFinset) (w := s₀.node.weights)
    (C := {v}) (v := v) (R := √(∑ i ∈ s₀.node.VMs.toFinset, s₀.node.times i ^ 2) + M)
    (fun i hi => hp₀.weights i (List.mem_toFinset.1 hi)) rfl (List.mem_toFinset.2 hv) hδ hM₀
    (by positivity)
  refine ⟨N + 1, fun ls s h hsteady hwork hsame => ?_⟩
  have hsince := steeredSince_of_exec (C := {v}) h₀ hadm₀ hdev₀ hδ h hsteady fun u hu => by
    rwa [Set.mem_singleton_iff.1 hu]
  rcases hsince.steered with ⟨hn, -⟩ | ⟨k, u, hn, hle, hu, hlength, hsteered, -⟩
  · omega
  · have huv : s.node.times v = u v :=
      le_antisymm (hsame.trans_le (hle v)) (hsteered.le hδ v)
    have hk := hN hu hlength hsteered huv
    omega

/-- **The shares become the weights.**  From any such state: as long as nobody connects or leaves,
each command takes between `δ` and `M`, and all VMs have work whenever a queue is chosen, each VM's
share of the time used is within `ε` of its share of the weights as soon as enough commands have
been accounted. -/
theorem shares_become_weights (h₀ : computeNode.exec State.init ls₀ = some s₀)
    (hadm₀ : computeNode.AllSteps (Admissible (0 < ·)) State.init ls₀)
    (hdev₀ : ∀ t dev, .bindDev t dev ∈ ls₀ → dev = d) (hδ : 0 < δ) (hM : δ ≤ M) {ε : ℝ}
    (hε : 0 < ε) :
    ∃ N, ∀ ls s, computeNode.exec s₀ ls = some s →
      computeNode.AllSteps (Steady d δ M) s₀ ls →
      (∀ v ∈ s₀.node.VMs, computeNode.AllSteps (HasWork d v) s₀ ls) → N ≤ accounted s₀ ls →
      ∀ v ∈ s₀.node.VMs,
        |(s.node.vm v).totalUsedTime / (s.node.VMs.map fun i => (s.node.vm i).totalUsedTime).sum -
          (s.node.vm v).weight / (s.node.VMs.map fun i => (s.node.vm i).weight).sum| ≤ ε := by
  have hM₀ := hδ.trans_le hM
  have hp₀ := priced_of_exec h₀ hadm₀
  rcases s₀.node.VMs.eq_nil_or_concat with hnil | ⟨vs, v₀, hconcat⟩
  · exact ⟨0, fun ls s _ _ _ _ v hv => by simp [hnil] at hv⟩
  have hnonempty : s₀.node.VMs.toFinset.Nonempty := ⟨v₀, List.mem_toFinset.2 (by simp [hconcat])⟩
  obtain ⟨N, hN⟩ := exists_shares_le (s := s₀.node.VMs.toFinset) (w := s₀.node.weights)
    (C := {v | v ∈ s₀.node.VMs}) (δ := δ) (M := M)
    (R := √(∑ i ∈ s₀.node.VMs.toFinset, s₀.node.times i ^ 2) + M) hnonempty
    (fun i hi => hp₀.weights i (List.mem_toFinset.1 hi)) (fun i hi => List.mem_toFinset.1 hi) hδ hM₀
    (by positivity) hε
  refine ⟨N + 1, fun ls s h hsteady hwork hn v hv => ?_⟩
  have hsince := steeredSince_of_exec (C := {v | v ∈ s₀.node.VMs}) h₀ hadm₀ hdev₀ hδ h hsteady hwork
  rcases hsince.steered with ⟨hzero, -⟩ | ⟨k, u, hk, -, hu, hlength, hsteered, -⟩
  · omega
  · have hshare := hN (by omega) hu hlength hsteered v (List.mem_toFinset.2 hv)
    have hnodup := hsince.coherent.linked.nodupVMs
    rw [← hsince.VMs, ← hsince.weights, List.sum_toFinset _ hnodup,
      List.sum_toFinset _ hnodup] at hshare
    exact hshare

end Results

end Steps

lemma twoClients_positive :
    computeNode.AllSteps (Admissible (0 < ·)) State.init twoClients :=
  twoClients_admissible.mono computeNode fun _ _ h =>
    ⟨fun t x hl => (h.weight t x hl).symm ▸ one_pos, h.time⟩

lemma Steady.of_quiet {s : State ℝ Unit Bool} {l : Label ℝ Unit Bool}
    (hconnect : ∀ t x, l ≠ .connect t x) (hteardown : ∀ t, l ≠ .teardown t)
    (haccount : ∀ w, l ≠ .account w) : Steady () 1 1 s l := by
  have hnone := State.accounts_eq_none (s := s) haccount
  exact ⟨hconnect, hteardown, fun _ _ _ => rfl, by simp [hnone], by simp [hnone]⟩

/-- Two equal clients, of which the first is served: the second has been passed by once. -/
theorem nobody_starves_twoClients :
    ∃ N, 1 ≤ N ∧ ∀ ls s, computeNode.exec twoClientsState ls = some s →
      computeNode.AllSteps (Steady () 1 1) twoClientsState ls →
      computeNode.AllSteps (HasWork () 1) twoClientsState ls →
      (s.node.vm 1).totalUsedTime = (twoClientsState.node.vm 1).totalUsedTime →
      accounted twoClientsState ls ≤ N := by
  have hstart : computeNode.exec State.init twoClients = some twoClientsState := rfl
  have hmem : 1 ∈ twoClientsState.node.VMs := List.mem_cons_of_mem _ (List.mem_cons_self ..)
  obtain ⟨N, hN⟩ := nobody_starves (d := ()) hstart twoClients_positive (fun _ _ _ => rfl) hmem
    one_pos le_rfl
  refine ⟨N, ?_, hN⟩
  have hrest : computeNode.exec ((twoClientsState.withNode
      (twoClientsState.node.setSkip 0 true)).goto () (.picked 0 (Command.new 0 .write)))
      [.beginExec (), .endExec () 1, .account ()] = some _ := rfl
  have hrun := computeNode.exec_cons_iff.2 ⟨_, twoClients_pick, hrest⟩
  have hsteady : computeNode.AllSteps (Steady () 1 1) twoClientsState
      [.pick (), .beginExec (), .endExec () 1, .account ()] := by
    refine twoClients_allSteps (.of_quiet (by simp) (by simp) (by simp))
      (fun s => .of_quiet (by simp) (by simp) (by simp))
      (fun s => .of_quiet (by simp) (by simp) (by simp))
      fun s q c hs => ⟨by simp, by simp, by simp, ?_, ?_⟩
    · simp [State.accounts_executed hs]
    · simp [State.accounts_executed hs]
  have hwork : computeNode.AllSteps (HasWork () 1) twoClientsState
      [.pick (), .beginExec (), .endExec () 1, .account ()] := by
    refine twoClients_allSteps (fun _ => ?_) (fun s => by simp [HasWork])
      (fun s => by simp [HasWork]) fun s q c hs => by simp [HasWork]
    exact ⟨1, List.mem_cons_of_mem _ (List.mem_cons_self ..), rfl, List.cons_ne_nil _ _⟩
  refine le_trans (le_of_eq ?_) (hN _ _ hrun hsteady hwork rfl)
  simp only [accounted, Machine.trace, twoClients_pick]
  rfl

/-! ## Two clients that do not run out of work -/

/-- A run of steady steps from `twoClientsState`, with `n` commands accounted, has come to `s`; the
worker is at `pc`, and each client has `k` commands at least. -/
structure BothBusy (k : ℕ) (pc : WorkerPc ℝ) (n : ℕ) (s : State ℝ Unit Bool) : Prop where
  run : ∃ ls, computeNode.exec twoClientsState ls = some s ∧
    computeNode.AllSteps (Steady () 1 1) twoClientsState ls ∧
      (∀ v ∈ [0, 1], computeNode.AllSteps (HasWork () v) twoClientsState ls) ∧
        accounted twoClientsState ls = n
  worker : s.worker () = pc
  sessions : ∀ t, s.session t = .serving t.toNat t.toNat
  queues : s.node.queues = [0, 1]
  owners : ∀ q ∈ [0, 1], (s.node.que q).VM = q
  work : ∀ q ∈ [0, 1], k ≤ (s.node.que q).queue.length

namespace BothBusy

variable {k k' n q : ℕ} {pc pc' : WorkerPc ℝ} {s s' : State ℝ Unit Bool} {l : Label ℝ Unit Bool}

lemma start : BothBusy 1 .admitted 0 twoClientsState where
  run := ⟨[], rfl, computeNode.allSteps_nil _ _, fun _ _ => computeNode.allSteps_nil _ _, rfl⟩
  worker := rfl
  sessions t := by cases t <;> rfl
  queues := rfl
  owners := List.forall_mem_cons.2 ⟨rfl, List.forall_mem_singleton.2 rfl⟩
  work := List.forall_mem_cons.2 ⟨le_rfl, List.forall_mem_singleton.2 le_rfl⟩

lemma since (h : BothBusy k pc n s) : SteeredSince twoClientsState () ∅ 1 1 n s := by
  obtain ⟨ls, hls, hsteady, -, rfl⟩ := h.run
  have hstart : computeNode.exec State.init twoClients = some twoClientsState := rfl
  exact steeredSince_of_exec hstart twoClients_positive (fun _ _ _ => rfl) one_pos hls hsteady
    (by simp)

/-- Outside the epilogue the scheduler lock is free. -/
lemma procLock (h : BothBusy k pc n s) (hpc : pc.inEpilogue = false) : s.procLock = none := by
  have hlock := h.since.coherent.lock ()
  rw [h.worker, hpc] at hlock
  cases hs : s.procLock with
  | none => rfl
  | some w => simp [hs] at hlock

/-- One more step. -/
lemma step (h : BothBusy k pc n s) (hs : Step s l s') (hsteady : Steady () 1 1 s l)
    (hpick : l = .pick () → 0 < k) (hworker : s'.worker () = pc')
    (hsession : s'.session = s.session) (hqueues : s'.node.queues = s.node.queues)
    (howners : ∀ q, (s'.node.que q).VM = (s.node.que q).VM)
    (hwork : ∀ q ∈ [0, 1], k' ≤ (s'.node.que q).queue.length) :
    BothBusy k' pc' (n + (s.accounts l).toList.length) s' where
  run := by
    obtain ⟨ls, hls, hall, hall_work, hn⟩ := h.run
    refine ⟨ls ++ [l], computeNode.exec_snoc_iff.2 ⟨s, hls, hs.step_eq⟩, ?_, fun v hv => ?_, ?_⟩
    · refine computeNode.allSteps_snoc_iff.2 ⟨hall, fun t ht => ?_⟩
      cases hls.symm.trans ht
      exact hsteady
    · refine computeNode.allSteps_snoc_iff.2 ⟨hall_work v hv, fun t ht hl => ?_⟩
      cases hls.symm.trans ht
      refine ⟨v, by rwa [h.queues], h.owners v hv, ?_⟩
      exact List.ne_nil_of_length_pos ((hpick hl).trans_le (h.work v hv))
    · rw [accounted, computeNode.trace_snoc _ l hls, List.length_append, ← hn, accounted]
  worker := hworker
  sessions t := by rw [hsession, h.sessions]
  queues := hqueues.trans h.queues
  owners q hq := (howners q).trans (h.owners q hq)
  work := hwork

/-- A move that pushes and takes nothing. -/
lemma move (h : BothBusy k pc n s) (hs : Step s l s') (hsteady : Steady () 1 1 s l)
    (hl : s.accounts l = none) (hpick : l = .pick () → 0 < k) (hworker : s'.worker () = pc')
    (hsession : s'.session = s.session) (hqueues : s'.node.queues = s.node.queues)
    (howners : ∀ q, (s'.node.que q).VM = (s.node.que q).VM)
    (hqueue : ∀ q, (s'.node.que q).queue = (s.node.que q).queue) : BothBusy k pc' n s' := by
  have h' := h.step hs hsteady hpick hworker hsession hqueues howners fun q hq => by
    rw [hqueue]
    exact h.work q hq
  rwa [hl] at h'

lemma length_pushNew {p : ℕ} : ((s.pushNew q .write).node.que p).queue.length =
    (s.node.que p).queue.length + if p = q then 1 else 0 := by
  by_cases hp : p = q
  · subst hp
    simp [State.pushNew]
  · simp [State.pushNew, hp]

/-- Each client pushes a command. -/
lemma pushed (h : BothBusy k .admitted n s) : ∃ s', BothBusy (k + 1) .admitted n s' := by
  have hfirst : Step s (.push false .write) (s.pushNew 0 .write) :=
    .push (h.sessions false) (by decide)
  have hsecond : Step (s.pushNew 0 .write) (.push true .write)
      ((s.pushNew 0 .write).pushNew 1 .write) := .push (h.sessions true) (by decide)
  have h₁ : BothBusy k .admitted n (s.pushNew 0 .write) := by
    refine h.step hfirst (.of_quiet (by simp) (by simp) (by simp)) (by simp) h.worker rfl
      (Node.push_queues ..) (fun p => Node.push_VM _ 0 p _) fun q hq => ?_
    rw [length_pushNew]
    exact (h.work q hq).trans (Nat.le_add_right _ _)
  refine ⟨_, h₁.step hsecond (.of_quiet (by simp) (by simp) (by simp)) (by simp) h₁.worker rfl
    (Node.push_queues ..) (fun p => Node.push_VM _ 1 p _) fun q hq => ?_⟩
  have hle := h.work q hq
  rw [length_pushNew, length_pushNew]
  rcases List.mem_pair.1 hq with rfl | rfl <;> simpa using hle

/-- A queue that no worker has is ready. -/
lemma ready (h : BothBusy (k + 1) pc n s) (hpc : pc.queue = none) (hq : q ∈ [0, 1]) :
    (s.node.que q).ready = true := by
  refine CommandQueue.ready_iff.2 ⟨Bool.eq_false_iff.2 fun hskip => ?_,
    List.ne_nil_of_length_pos (k.succ_pos.trans_le (h.work q hq))⟩
  obtain ⟨w, hw⟩ := h.since.coherent.claims.claimed q hskip
  rw [h.worker, hpc] at hw
  cases hw

/-- The worker picks a command and runs it. -/
lemma executed (h : BothBusy (k + 1) .admitted n s) :
    ∃ s' q c, q ∈ [0, 1] ∧ BothBusy (k + 1) (.executed q c 1) n s' := by
  have hmem₀ : 0 ∈ s.node.queues := by simp [h.queues]
  obtain ⟨q, hchosen⟩ := h.since.priced.inOrderSchedule_isSome (fun _ hx => hx)
    h.since.coherent.linked hmem₀ (h.ready rfl (by simp))
  obtain ⟨hmem, hready⟩ := Node.inOrderSchedule_ready hchosen
  obtain ⟨-, hne⟩ := CommandQueue.ready_iff.1 hready
  obtain ⟨c, rest, hfront⟩ := List.exists_cons_of_ne_nil hne
  have hpick := Step.pick h.worker (h.procLock rfl) hchosen hfront
  have h₁ : BothBusy (k + 1) (.picked q c) n _ :=
    h.move hpick (.of_quiet (by simp) (by simp) (by simp)) rfl (fun _ => k.succ_pos) rfl rfl rfl
      (by simp [State.withNode, State.goto]) (by simp [State.withNode, State.goto])
  have h₂ : BothBusy (k + 1) (.executing q c) n _ :=
    h₁.move (.beginExec h₁.worker) (.of_quiet (by simp) (by simp) (by simp)) rfl (by simp) rfl
      (by simp [State.goto]) (by simp [State.goto]) (by simp [State.goto]) (by simp [State.goto])
  have h₃ : BothBusy (k + 1) (.executed q c 1) n _ :=
    h₂.move (.endExec h₂.worker) (.of_quiet (by simp) (by simp) (by simp)) rfl (by simp) rfl rfl
      rfl (fun _ => rfl) fun _ => rfl
  exact ⟨_, q, c, h.queues ▸ hmem, h₃⟩

/-- The command is accounted and taken off its queue. -/
lemma popped {c : Command ℝ} (h : BothBusy (k + 1) (.executed q c 1) n s) :
    ∃ s', BothBusy k (.popped q) (n + 1) s' := by
  have haccount := Step.account h.worker (h.procLock rfl)
  have hone := State.accounts_executed h.worker
  have h₁ : BothBusy (k + 1) (.accounted q) _ _ :=
    h.step haccount ⟨by simp, by simp, by simp, by simp [hone], by simp [hone]⟩ (by simp) rfl rfl
      rfl (fun _ => rfl) h.work
  rw [hone] at h₁
  refine ⟨_, h₁.step (.pop h₁.worker) (.of_quiet (by simp) (by simp) (by simp)) (by simp) rfl rfl
    rfl
    (by simp [State.withNode, State.goto]) fun p hp => ?_⟩
  have hle := h₁.work p hp
  by_cases hpq : p = q
  · subst hpq
    simpa [State.withNode, State.goto, Node.pop, Node.setQueue] using Nat.le_sub_one_of_lt hle
  · simpa [State.withNode, State.goto, Node.pop, Node.setQueue, hpq] using Nat.le_of_succ_le hle

lemma checked (h : BothBusy (k + 1) .holding n s) : ∃ s', BothBusy (k + 1) .admitted n s' := by
  have hready := h.ready (q := 0) rfl (by simp)
  have hbinding : (s.node.que 0).bindingDev = none ∨ (s.node.que 0).bindingDev = some () := by
    cases (s.node.que 0).bindingDev with
    | none => exact Or.inl rfl
    | some w => exact Or.inr rfl
  have hyes : s.node.check () = true := by
    refine List.any_eq_true.2 ⟨0, by simp [h.queues], ?_⟩
    simpa [CommandQueue.ready, hbinding] using hready
  have hcheck := Step.check h.worker
  rw [hyes] at hcheck
  exact ⟨_, h.move hcheck (.of_quiet (by simp) (by simp) (by simp)) rfl (by simp) rfl rfl rfl
    (fun _ => rfl) fun _ => rfl⟩

/-- There is more, so the worker comes back. -/
lemma admitted (h : BothBusy (k + 1) (.popped q) n s) (hq : q ∈ [0, 1]) :
    ∃ s', BothBusy (k + 1) .admitted n s' := by
  have hne : (s.node.que q).queue ≠ [] :=
    List.ne_nil_of_length_pos (Nat.succ_pos k |>.trans_le (h.work q hq))
  have h₁ : BothBusy (k + 1) (.tested q true) n _ :=
    h.move (.testNonempty h.worker hne) (.of_quiet (by simp) (by simp) (by simp)) rfl (by simp) rfl
      rfl rfl (fun _ => rfl) fun _ => rfl
  have h₂ : BothBusy (k + 1) .waiting n _ :=
    h₁.move (.clearSkip h₁.worker) (.of_quiet (by simp) (by simp) (by simp)) rfl (by simp) rfl rfl
      rfl (by simp [State.withNode, State.goto]) (by simp [State.withNode, State.goto])
  have h₃ : BothBusy (k + 1) .holding n _ :=
    h₂.move (.take h₂.worker (Nat.succ_ne_zero _)) (.of_quiet (by simp) (by simp) (by simp)) rfl
      (by simp) rfl rfl rfl (fun _ => rfl) fun _ => rfl
  exact h₃.checked

/-- It goes on like this. -/
lemma exists_accounted (n : ℕ) : ∃ s, BothBusy 1 .admitted n s := by
  induction n with
  | zero => exact ⟨_, start⟩
  | succ n ih =>
      obtain ⟨s, hs⟩ := ih
      obtain ⟨s₁, h₁⟩ := hs.pushed
      obtain ⟨s₂, q, c, hq, h₂⟩ := h₁.executed
      obtain ⟨s₃, h₃⟩ := h₂.popped
      exact h₃.admitted hq

end BothBusy

/-- Two equal clients get the half each, up to a hundredth, from some time on; there are runs of
any length in which they have work. -/
theorem shares_become_weights_twoClients :
    ∃ N, (∃ ls s, computeNode.exec twoClientsState ls = some s ∧
        computeNode.AllSteps (Steady () 1 1) twoClientsState ls ∧
          (∀ v ∈ twoClientsState.node.VMs,
            computeNode.AllSteps (HasWork () v) twoClientsState ls) ∧
              N ≤ accounted twoClientsState ls) ∧
      ∀ ls s, computeNode.exec twoClientsState ls = some s →
        computeNode.AllSteps (Steady () 1 1) twoClientsState ls →
        (∀ v ∈ twoClientsState.node.VMs,
          computeNode.AllSteps (HasWork () v) twoClientsState ls) →
        N ≤ accounted twoClientsState ls → ∀ v ∈ twoClientsState.node.VMs,
          |(s.node.vm v).totalUsedTime / (s.node.VMs.map fun i => (s.node.vm i).totalUsedTime).sum -
            (s.node.vm v).weight / (s.node.VMs.map fun i => (s.node.vm i).weight).sum| ≤
              1 / 100 := by
  have hstart : computeNode.exec State.init twoClients = some twoClientsState := rfl
  have hhundredth : (0 : ℝ) < 1 / 100 := by norm_num
  obtain ⟨N, hN⟩ := shares_become_weights (d := ()) hstart twoClients_positive (fun _ _ _ => rfl)
    one_pos le_rfl hhundredth
  obtain ⟨s, hs⟩ := BothBusy.exists_accounted N
  obtain ⟨ls, hls, hsteady, hwork, haccounted⟩ := hs.run
  exact ⟨N, ⟨ls, s, hls, hsteady, hwork, haccounted.ge⟩, hN⟩

end ElasticFramework
