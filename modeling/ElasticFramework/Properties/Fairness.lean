import ElasticFramework.Properties.Scheduling

/-!
# Fair sharing

With equal weights the cosine of a queue falls with the time its VM has used, so the largest
cosine is the least-used VM (`totalUsedTime_le_of_cosValue_le`).  One device worker serves one
command at a time; it chose the queue when that queue's VM was least used, and until the command
is accounted nobody else's time moves.  `Fair S U` is the invariant this gives for a set `S` of
VMs whose queues have work at every choice: times within `S` spread by at most `U`, and the VM
that is owed an accounting is least used in `S`.

`fair_share` is the statement about runs.  The run may start in any reachable state, in the middle
of a command, and other VMs come and go.
-/

namespace ElasticFramework

variable {T : Type*}

/-! ## Equal weights -/

/-- With one weight for all, a larger cosine is a less-used VM. -/
lemma Node.totalUsedTime_le_of_cosValue_le {D : Type*} {n : Node ℝ D} {x : ℝ}
    (h : n.Priced (· = x)) (hx : 0 < x) (hl : n.Linked) {p q : ℕ} (hp : p ∈ n.queues)
    (hq : q ∈ n.queues) (hpne : (n.que p).queue ≠ []) (hqne : (n.que q).queue ≠ [])
    (hle : n.cosValue p ≤ n.cosValue q) :
    (n.vm (n.que q).VM).totalUsedTime ≤ (n.vm (n.que p).VM).totalUsedTime := by
  have hP : ∀ y, y = x → 0 < y := fun y hy => hy ▸ hx
  obtain ⟨c, rest, hpfront⟩ := List.exists_cons_of_ne_nil hpne
  obtain ⟨d, rest', hqfront⟩ := List.exists_cons_of_ne_nil hqne
  have hpVM := hl.queueVM p hp
  have hqVM := hl.queueVM q hq
  have hinner := h.basedInnerProduct_nonneg hP
  have hweights := h.weightLengSquare_pos hP hpVM
  have htimes := h.timeLengSquare_nonneg
  have hptime := h.times _ hpVM
  rw [h.cosValue_eq hpfront, h.cosValue_eq hqfront, h.weights _ hpVM, h.weights _ hqVM] at hle
  by_contra hlt
  rw [not_le] at hlt
  set a := n.timeLengSquare + (2 * (n.vm (n.que p).VM).totalUsedTime + 1) with ha
  set b := n.timeLengSquare + (2 * (n.vm (n.que q).VM).totalUsedTime + 1) with hb
  have hapos : 0 < a := by linarith
  have hab : √a < √b := Real.sqrt_lt_sqrt hapos.le (by linarith)
  have hstrict : (n.basedInnerProduct + x) / (√n.weightLengSquare * √b) <
      (n.basedInnerProduct + x) / (√n.weightLengSquare * √a) := by
    have hden : √n.weightLengSquare * √a < √n.weightLengSquare * √b :=
      mul_lt_mul_of_pos_left hab (Real.sqrt_pos.2 hweights)
    exact div_lt_div_of_pos_left (by linarith) (by positivity) hden
  linarith

/-! ## The invariant -/

/-- The queue whose VM the worker still has to account a time to. -/
def WorkerPc.owes {K : Type*} : WorkerPc K → Option ℕ
  | .picked q _ | .executing q _ | .executed q _ _ => some q
  | _ => none

lemma WorkerPc.queue_of_owes {K : Type*} {pc : WorkerPc K} {q : ℕ} (h : pc.owes = some q) :
    pc.queue = some q := by
  cases pc with
  | picked p c => exact h
  | executing p c => exact h
  | executed p c u => exact h
  | _ => cases h

/-- The times in `S` spread by at most `U`, and a VM of `S` that is owed an accounting is least
used. -/
structure Fair (S : Set ℕ) (U : ℝ) (s : State ℝ Unit T) : Prop where
  live : ∀ v ∈ S, v < s.node.nextVM
  spread : ∀ v ∈ S, ∀ u ∈ S,
    (s.node.vm v).totalUsedTime ≤ (s.node.vm u).totalUsedTime + U
  owed : ∀ q, (s.worker ()).owes = some q → (s.node.que q).VM ∈ S →
    ∀ u ∈ S, (s.node.vm (s.node.que q).VM).totalUsedTime ≤ (s.node.vm u).totalUsedTime

/-- At every choice of a queue the VMs of `S` have work. -/
def Backlogged (S : Set ℕ) (s : State ℝ Unit T) (l : Label ℝ Unit T) : Prop :=
  l = .pick () → ∀ v ∈ S, ∃ q ∈ s.node.queues, (s.node.que q).VM = v ∧ (s.node.que q).queue ≠ []

namespace Fair

variable {S : Set ℕ} {U : ℝ} {s s' : State ℝ Unit T} {l : Label ℝ Unit T}

/-- A step that moves no time of a live VM and starts no command. -/
lemma congr (h : Fair S U s) (hlive : s.node.nextVM ≤ s'.node.nextVM)
    (htimes : ∀ v < s.node.nextVM,
      (s'.node.vm v).totalUsedTime = (s.node.vm v).totalUsedTime)
    (howes : ∀ q, (s'.worker ()).owes = some q →
      (s.worker ()).owes = some q ∧ (s'.node.que q).VM = (s.node.que q).VM) : Fair S U s' where
  live := fun v hv => (h.live v hv).trans_le hlive
  spread := by
    intro v hv u hu
    rw [htimes v (h.live v hv), htimes u (h.live u hu)]
    exact h.spread v hv u hu
  owed := by
    intro q hq hmem u hu
    obtain ⟨hold, hVM⟩ := howes q hq
    rw [hVM] at hmem ⊢
    rw [htimes _ (h.live _ hmem), htimes u (h.live u hu)]
    exact h.owed q hold hmem u hu

/-- The worker goes on to a place at which it owes nothing. -/
lemma unowed (h : Fair S U s) (hlive : s.node.nextVM ≤ s'.node.nextVM)
    (hvm : s'.node.vm = s.node.vm) (howes : (s'.worker ()).owes = none) : Fair S U s' := by
  refine h.congr hlive (fun v _ => by rw [hvm]) fun q hq => ?_
  rw [howes] at hq
  cases hq

/-- The owed time is accounted. -/
lemma account (h : Fair S U s) {w : Unit} {q : ℕ} {comm : Command ℝ} {usedTime : ℝ}
    (hpc : s.worker w = .executed q comm usedTime) (hnonneg : 0 ≤ usedTime)
    (hle : usedTime ≤ U) :
    Fair S U ({ s.withNode (s.node.account q usedTime) with procLock := some w }.goto w
      (.accounted q)) := by
  have howes : (s.worker ()).owes = some q := by simp [hpc, WorkerPc.owes]
  set v₀ := (s.node.que q).VM with hv₀
  have hself : ((s.node.account q usedTime).vm v₀).totalUsedTime =
      (s.node.vm v₀).totalUsedTime + usedTime := by
    simp [Node.account, ← hv₀]
  have hother : ∀ v, v ≠ v₀ → ((s.node.account q usedTime).vm v).totalUsedTime =
      (s.node.vm v).totalUsedTime := by
    intro v hv
    simp [Node.account, Node.increaseTimeLengSquare, Node.increaseInnerProduct, ← hv₀, hv]
  constructor
  · exact h.live
  · intro v hv u hu
    have hspread := h.spread v hv u hu
    show ((s.node.account q usedTime).vm v).totalUsedTime ≤
      ((s.node.account q usedTime).vm u).totalUsedTime + U
    by_cases hvv : v = v₀ <;> by_cases huv : u = v₀
    · rw [hvv, huv]
      linarith
    · -- The VM that gains time was least used.
      subst hvv
      have howed := h.owed q howes hv u hu
      rw [hself, hother u huv]
      linarith
    · subst huv
      rw [hself, hother v hvv]
      linarith
    · rw [hother v hvv, hother u huv]
      exact hspread
  · intro p hp
    simp [State.goto, WorkerPc.owes] at hp

/-- The chosen queue's VM is least used among those with work. -/
lemma pick (h : Fair S U s) (hc : Coherent s) {x : ℝ} (hx : 0 < x) (hp : s.node.Priced (· = x))
    {w : Unit} {q : ℕ} {comm : Command ℝ} (hpc : s.worker w = .admitted)
    (hq : s.node.inOrderSchedule = some q) (hbusy : Backlogged S s (.pick ())) :
    Fair S U ((s.withNode (s.node.setSkip q true)).goto w (.picked q comm)) := by
  -- The only worker has no queue, so no queue is skipped.
  have hskip : ∀ p, (s.node.que p).skip = false := by
    intro p
    by_contra hp
    obtain ⟨w', hw'⟩ := hc.claims.claimed p (by simpa using hp)
    simp [hpc, WorkerPc.queue] at hw'
  constructor
  · exact h.live
  · exact h.spread
  · intro p howes hmem u hu
    have hpq : q = p := by simpa [State.goto, WorkerPc.owes] using howes
    subst hpq
    obtain ⟨hqmem, hready⟩ := Node.inOrderSchedule_ready hq
    obtain ⟨-, hqne⟩ := CommandQueue.ready_iff.1 hready
    obtain ⟨p, hpmem, rfl, hpne⟩ := hbusy rfl u hu
    have hpready : (s.node.que p).ready = true := CommandQueue.ready_iff.2 ⟨hskip p, hpne⟩
    have hmax := bestFrom_max (p := fun q => (s.node.que q).ready) (f := s.node.cosValue)
      (-1, none) hpmem hpready
    have hscore : s.node.cosValue p ≤ s.node.cosValue q := hmax.trans_eq (bestFrom_score hq)
    show (s.node.vm ((s.node.setSkip q true).que q).VM).totalUsedTime ≤ _
    rw [Node.setSkip_VM]
    exact Node.totalUsedTime_le_of_cosValue_le hp hx hc.linked hpmem hqmem hpne hqne hscore

variable [DecidableEq T]

lemma step (h : Fair S U s) (hc : Coherent s) {x : ℝ} (hx : 0 < x)
    (hp : s.node.Priced (· = x)) (hl : Admissible (· = x) s l)
    (hle : ∀ u, s.accounts l = some u → u ≤ U) (hbusy : Backlogged S s l) (hs : Step s l s') :
    Fair S U s' := by
  cases hs with
  | connect hpc hlock =>
      refine h.congr (Nat.le_succ _) (fun v hv => ?_) fun q hq => ⟨hq, rfl⟩
      simp [State.enter, State.withNode, Node.createVM, hv.ne]
  | @createQueue t v hpc hlock =>
      refine h.congr le_rfl (fun u _ => ?_) fun q hq => ⟨hq, ?_⟩
      · refine apply_update_eq (f := VMInfo.totalUsedTime) ?_ u
        rfl
      · have hlt := hc.claims.lt_nextQueue hc.linked (WorkerPc.queue_of_owes hq)
        simp [State.enter, State.withNode, Node.createQueue, hlt.ne]
  | @bindDev t dev v q hpc =>
      exact h.congr le_rfl (fun _ _ => rfl) fun p hp => ⟨hp, Node.setBindingDev_VM _ _ _ _⟩
  | @push t kind v q hpc hkind =>
      exact h.congr (by simp [State.pushNew]) (by simp [State.pushNew]) fun p hp =>
        ⟨hp, Node.push_VM _ _ _ _⟩
  | @finish t v q hpc =>
      exact h.congr (by simp [State.pushNew, State.enter]) (by simp [State.pushNew, State.enter])
        fun p hp => ⟨hp, Node.push_VM _ _ _ _⟩
  | @teardown t v q hpc hlock =>
      refine h.congr ?_ (fun u _ => ?_) fun p hp => ⟨hp, ?_⟩
      · simp [State.enter, State.withNode, Node.destroyQueue]
      · simp only [State.enter, State.withNode, Node.destroyVM_vm]
        refine apply_update_eq (f := VMInfo.totalUsedTime) ?_ u
        rfl
      · simp [State.enter, State.withNode, Node.destroyQueue]
  | take hpc hsem => exact h.unowed le_rfl rfl rfl
  | check hpc =>
      refine h.unowed le_rfl rfl ?_
      simp only [State.goto, Function.update_self]
      split <;> rfl
  | giveBack hpc => exact h.unowed le_rfl rfl rfl
  | pick hpc hlock hq hfront => exact h.pick hc hx hp hpc hq hbusy
  | @beginExec w q comm hpc =>
      refine h.congr (by simp [State.goto]) (by simp [State.goto]) fun p hq => ?_
      have howes : (s.worker ()).owes = some q := by simp [hpc, WorkerPc.owes]
      have hpq : q = p := by simpa [State.goto, WorkerPc.owes] using hq
      simp [State.goto, howes, hpq]
  | @endExec w q comm usedTime hpc =>
      refine h.congr le_rfl (fun _ _ => rfl) fun p hq => ⟨?_, rfl⟩
      have howes : (s.worker ()).owes = some q := by simp [hpc, WorkerPc.owes]
      have hpq : q = p := by simpa [State.goto, WorkerPc.owes] using hq
      rw [howes, hpq]
  | @account w q comm usedTime hpc hlock =>
      have hacc := State.accounts_executed hpc
      exact h.account hpc (hl.time usedTime hacc) (hle usedTime hacc)
  | pop hpc => exact h.unowed le_rfl rfl rfl
  | testEmpty hpc hempty => exact h.unowed le_rfl rfl rfl
  | testNonempty hpc hempty => exact h.unowed le_rfl rfl rfl
  | clearSkip hpc => exact h.unowed le_rfl rfl rfl
  | _ => exact h.congr le_rfl (fun _ _ => rfl) fun q hq => ⟨hq, rfl⟩

end Fair

/-! ## Runs -/

section Runs

variable [DecidableEq T] {s₀ s : State ℝ Unit T} {ls₀ ls : List (Label ℝ Unit T)}

/-- **Fair sharing for equal weights.**  One device worker, one weight `x` for every VM.  From any
reachable state, along any run whose commands account times between `0` and `U`, VMs that start
with equal times and have work at every choice of a queue never differ by more than `U`. -/
theorem fair_share {x U : ℝ} (hx : 0 < x) (hU : 0 ≤ U)
    (h₀ : computeNode.exec State.init ls₀ = some s₀)
    (hadm₀ : computeNode.AllSteps (Admissible (· = x)) State.init ls₀)
    (h : computeNode.exec s₀ ls = some s)
    (hadm : computeNode.AllSteps (Admissible (· = x)) s₀ ls)
    (hle : computeNode.AllSteps (fun s l => ∀ u, s.accounts l = some u → u ≤ U) s₀ ls)
    {S : Set ℕ} (hlive : ∀ v ∈ S, v ∈ s₀.node.VMs)
    (hequal : ∀ v ∈ S, ∀ u ∈ S,
      (s₀.node.vm v).totalUsedTime = (s₀.node.vm u).totalUsedTime)
    (hbusy : computeNode.AllSteps (Backlogged S) s₀ ls) :
    ∀ v ∈ S, ∀ u ∈ S,
      |(s.node.vm v).totalUsedTime - (s.node.vm u).totalUsedTime| ≤ U := by
  have hc₀ := coherent_of_exec h₀
  have hp₀ := priced_of_exec h₀ hadm₀
  have hfair₀ : Fair S U s₀ :=
    { live := fun v hv => hc₀.linked.freshVMs v (hlive v hv)
      spread := fun v hv u hu => by
        rw [hequal v hv u hu]
        linarith
      owed := fun q _ hmem u hu => (hequal _ hmem u hu).le }
  obtain ⟨-, -, hfair⟩ : Coherent s ∧ s.node.Priced (· = x) ∧ Fair S U s := by
    refine computeNode.invariant_of_allSteps
      (I := fun s => Coherent s ∧ s.node.Priced (· = x) ∧ Fair S U s)
      (G := fun s l => Admissible (· = x) s l ∧ (∀ u, s.accounts l = some u → u ≤ U) ∧
        Backlogged S s l) ⟨hc₀, hp₀, hfair₀⟩ ?_ ?_ h
    · rintro s l s' ⟨hc, hp, hf⟩ ⟨hadm, hle, hbusy⟩ hl
      have hs := step_inv hl
      exact ⟨hc.step hs, priced_step hc hp hs hadm, hf.step hc hx hp hadm hle hbusy hs⟩
    · intro s l hl
      exact ⟨hadm s l hl, hle s l hl, hbusy s l hl⟩
  intro v hv u hu
  have hvu := hfair.spread v hv u hu
  have huv := hfair.spread u hu v hv
  rw [abs_le]
  constructor <;> linarith

end Runs

/-- Two clients push one command each, and the worker passes `check`. -/
def twoClients : List (Label ℝ Unit Bool) :=
  [.connect false 1, .createQueue false, .bindDev false (), .push false .write, .connect true 1,
    .createQueue true, .bindDev true (), .push true .write, .take (), .check ()]

noncomputable def twoClientsState : State ℝ Unit Bool :=
  (computeNode.exec State.init twoClients).getD State.init

/-- The two cosines are equal, so the first queue stays the best. -/
lemma twoClientsState_inOrderSchedule : twoClientsState.node.inOrderSchedule = some 0 := by
  have hqueues : twoClientsState.node.queues = [0, 1] := rfl
  have hready₀ : (twoClientsState.node.que 0).ready = true := rfl
  have hready₁ : (twoClientsState.node.que 1).ready = true := rfl
  have hcos₀ : twoClientsState.node.cosValue 0 =
      (0 + 1 * 1) / (√(0 + 1 * 1 + 1 * 1) * √(0 + ((1 + 1) * 0 * 1 + 1 * 1))) := rfl
  have hcos₁ : twoClientsState.node.cosValue 1 = twoClientsState.node.cosValue 0 := rfl
  have hpos : 0 ≤ twoClientsState.node.cosValue 0 := by
    rw [hcos₀]
    positivity
  have hlt : (-1 : ℝ) < twoClientsState.node.cosValue 0 := by linarith
  simp [Node.inOrderSchedule, hqueues, improve, hready₀, hready₁, hcos₁, hlt]

/-- The worker picks the first queue. -/
lemma twoClients_pick : computeNode.step twoClientsState (.pick ()) =
    some ((twoClientsState.withNode (twoClientsState.node.setSkip 0 true)).goto ()
      (.picked 0 (Command.new 0 .write))) := by
  have hpc : twoClientsState.worker () = .admitted := rfl
  have hfront : (twoClientsState.node.que 0).queue = [Command.new 0 .write] := rfl
  exact step_pick hpc rfl twoClientsState_inOrderSchedule hfront

/-- The rest of its command: the only step that accounts is the last one, and it accounts `1`. -/
lemma twoClients_allSteps {G : State ℝ Unit Bool → Label ℝ Unit Bool → Prop}
    (hpick : G twoClientsState (.pick ())) (hbegin : ∀ s, G s (.beginExec ()))
    (hend : ∀ s, G s (.endExec () 1))
    (haccount : ∀ s q c, s.worker () = .executed q c 1 → G s (.account ())) :
    computeNode.AllSteps G twoClientsState
      [.pick (), .beginExec (), .endExec () 1, .account ()] := by
  rw [computeNode.allSteps_cons_iff twoClients_pick, computeNode.allSteps_cons_iff rfl,
    computeNode.allSteps_cons_iff rfl, computeNode.allSteps_cons_iff rfl]
  exact ⟨hpick, hbegin _, hend _, haccount _ _ _ rfl, computeNode.allSteps_nil _ _⟩

lemma twoClients_admissible :
    computeNode.AllSteps (Admissible (· = 1)) State.init twoClients := by
  refine computeNode.allSteps_of_forall_mem fun l hl s => ⟨?_, ?_⟩
  · rintro t x rfl
    obtain ⟨-, hx⟩ | ⟨-, hx⟩ : t = false ∧ x = 1 ∨ t = true ∧ x = 1 := by
      simpa [twoClients] using hl
    · exact hx
    · exact hx
  · intro u hu
    cases l with
    | account w => simp [twoClients] at hl
    | _ => cases hu

/-- One of two equal clients is served once, and the other is one time unit behind. -/
theorem fair_share_run :
    ∃ s : State ℝ Unit Bool, computeNode.exec twoClientsState
        [.pick (), .beginExec (), .endExec () 1, .account ()] = some s ∧
      ∀ v ∈ ({0, 1} : Set ℕ), ∀ u ∈ ({0, 1} : Set ℕ),
        |(s.node.vm v).totalUsedTime - (s.node.vm u).totalUsedTime| ≤ 1 := by
  have hstart : computeNode.exec State.init twoClients = some twoClientsState := rfl
  have hrest : computeNode.exec ((twoClientsState.withNode
      (twoClientsState.node.setSkip 0 true)).goto () (.picked 0 (Command.new 0 .write)))
      [.beginExec (), .endExec () 1, .account ()] = some _ := rfl
  have hrun := computeNode.exec_cons_iff.2 ⟨_, twoClients_pick, hrest⟩
  have hadm : computeNode.AllSteps (Admissible (· = 1)) twoClientsState
      [.pick (), .beginExec (), .endExec () 1, .account ()] := by
    refine twoClients_allSteps ⟨by simp, by simp [State.accounts]⟩
      (fun s => ⟨by simp, by simp [State.accounts]⟩)
      (fun s => ⟨by simp, by simp [State.accounts]⟩) fun s q c hs => ⟨by simp, fun u hu => ?_⟩
    have hone : u = 1 := by simpa [State.accounts, hs] using hu.symm
    rw [hone]
    exact zero_le_one
  have hle : computeNode.AllSteps (fun s l => ∀ u, s.accounts l = some u → u ≤ 1) twoClientsState
      [.pick (), .beginExec (), .endExec () 1, .account ()] := by
    refine twoClients_allSteps (by simp [State.accounts]) (fun s => by simp [State.accounts])
      (fun s => by simp [State.accounts]) fun s q c hs u hu => ?_
    have hone : u = 1 := by simpa [State.accounts, hs] using hu.symm
    exact hone.le
  have hbusy : computeNode.AllSteps (Backlogged {0, 1}) twoClientsState
      [.pick (), .beginExec (), .endExec () 1, .account ()] := by
    refine twoClients_allSteps ?_ (fun s => by simp [Backlogged]) (fun s => by simp [Backlogged])
      fun s q c hs => by simp [Backlogged]
    intro _ v hv
    rcases hv with rfl | rfl
    · exact ⟨0, List.mem_cons_self .., rfl, List.cons_ne_nil _ _⟩
    · exact ⟨1, List.mem_cons_of_mem _ (List.mem_cons_self ..), rfl, List.cons_ne_nil _ _⟩
  refine ⟨_, hrun, fair_share one_pos zero_le_one hstart twoClients_admissible hrun hadm hle ?_ ?_
    hbusy⟩
  · intro v hv
    rcases hv with rfl | rfl
    · exact List.mem_cons_self ..
    · exact List.mem_cons_of_mem _ (List.mem_cons_self ..)
  · intro v hv u hu
    rcases hv with rfl | rfl <;> rcases hu with rfl | rfl <;> rfl

end ElasticFramework
