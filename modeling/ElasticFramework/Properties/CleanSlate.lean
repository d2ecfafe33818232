import ElasticFramework.Properties.Scheduling
import ElasticFramework.Properties.TearingDown

/-!
# After the last client

`Run` gives each client a VM and a queue, and takes both away when the client has gone.  `Housed`
and `Owned` say that there are no others: every VM in `VMs_` and every queue in the pool is that of
a session.  So when no session is left the lists are empty, and the sums over them are zero, in
exact arithmetic, whatever the commands have accounted.

What the threads are left with follows from this.  A worker that has a queue has one of the pool;
and the balance of the tokens (`tokens_balance`) has nothing to set against a token that somebody
holds, that waits in the semaphore, or that was lost.

`clean_slate` puts this together.  A run that has lost a token never gets there.
-/

namespace ElasticFramework

variable {W T : Type*}

/-! ## The VMs -/

/-- Every VM is a session's. -/
def Housed {K : Type*} (s : State K W T) : Prop :=
  ∀ v ∈ s.node.VMs, ∃ t, (s.session t).vm = some v

namespace Housed

variable {K : Type*} {s s' : State K W T}

/-- A move that keeps `VMs_`, and the VM of each session. -/
lemma congr (h : Housed s) (hVMs : s'.node.VMs = s.node.VMs)
    (hsession : ∀ t, (s'.session t).vm = (s.session t).vm) : Housed s' := by
  intro v hv
  rw [hVMs] at hv
  obtain ⟨t, ht⟩ := h v hv
  exact ⟨t, (hsession t).trans ht⟩

variable [DecidableEq T]

/-- One session moves on with its VM. -/
lemma enter (h : Housed s) {t : T} {pc : SessionPc}
    (hsession : s'.session = Function.update s.session t pc) (hpc : pc.vm = (s.session t).vm)
    (hVMs : s'.node.VMs = s.node.VMs) : Housed s' := by
  refine h.congr hVMs fun t' => ?_
  rw [hsession]
  by_cases ht : t' = t
  · subst ht
    simpa using hpc
  · simp [ht]

/-- The new VM is that of the session that is connected. -/
lemma connect (h : Housed s) {t : T} {weight : K} [Arith K] (hpc : s.session t = .absent) :
    Housed ((s.withNode (s.node.createVM weight)).enter t (.connected s.node.nextVM)) := by
  intro v hv
  rcases List.mem_append.1 (show v ∈ s.node.VMs ++ [s.node.nextVM] from hv) with hv | hv
  · obtain ⟨t', ht'⟩ := h v hv
    have hne : t' ≠ t := by
      rintro rfl
      simp [hpc, SessionPc.vm] at ht'
    exact ⟨t', by simpa [State.enter, State.withNode, hne] using ht'⟩
  · obtain rfl := List.mem_singleton.1 hv
    exact ⟨t, by simp [State.enter, SessionPc.vm]⟩

/-- The session that leaves takes its VM with it. -/
lemma teardown [Arith K] (h : Housed s) (hc : Coherent s) (ho : Owned s) {t : T} {v q : ℕ}
    (hpc : s.session t = .drained v q) :
    Housed ((s.withNode ((s.node.destroyQueue q).destroyVM v).2).enter t .closed) := by
  intro u hu
  have hmem : u ∈ (s.node.destroyQueue q).VMs := Node.mem_of_mem_destroyVM hu
  have hne : u ≠ v := by
    rintro rfl
    exact (teardown_destroys hc ho hpc).2 hu
  obtain ⟨t', ht'⟩ := h u hmem
  have ht : t' ≠ t := by
    rintro rfl
    rw [hpc] at ht'
    exact hne (Option.some.inj ht').symm
  exact ⟨t', by simpa [State.enter, State.withNode, ht] using ht'⟩

lemma step [Arith K] [DecidableEq W] {l : Label K W T} (h : Housed s) (hc : Coherent s)
    (ho : Owned s) (hs : Step s l s') : Housed s' := by
  cases hs with
  | connect hpc hlock => exact h.connect hpc
  | createQueue hpc hlock => exact h.enter rfl (by simp [hpc, SessionPc.vm]) rfl
  | bindDev hpc => exact h.enter rfl (by simp [hpc, SessionPc.vm]) rfl
  | push hpc hkind => exact h.congr (Node.push_VMs _ _ _) fun _ => rfl
  | finish hpc => exact h.enter rfl (by simp [hpc, SessionPc.vm]) (Node.push_VMs _ _ _)
  | passWait hpc hsem => exact h.enter rfl (by simp [hpc, SessionPc.vm]) rfl
  | seeEmpty hpc hempty => exact h.enter rfl (by simp [hpc, SessionPc.vm]) rfl
  | teardown hpc hlock => exact h.teardown hc ho hpc
  | beginExec hpc => refine h.congr ?_ fun t => ?_ <;> simp [State.goto]
  | _ => exact h.congr rfl fun _ => rfl

end Housed

/-! ## The threads -/

section Threads

variable {K : Type*} {s : State K W T}

/-- Without a queue in the pool no worker has one. -/
lemma Coherent.queue_eq_none (hc : Coherent s) (hqueues : s.node.queues = []) (w : W) :
    (s.worker w).queue = none := by
  refine Option.eq_none_iff_forall_ne_some.2 fun q hw => ?_
  have hmem := (hc.claims.claim w q hw).1
  rw [hqueues] at hmem
  cases hmem

namespace State

variable [Fintype W]

lemma resuming_eq_zero (hnone : ∀ w, (s.worker w).queue = none) : s.resuming = 0 := by
  refine Finset.card_eq_zero.2 (Finset.filter_eq_empty_iff.2 fun w _ hw => ?_)
  have hqueue := hnone w
  cases hpc : s.worker w with
  | tested q b =>
      rw [hpc] at hqueue
      cases hqueue
  | _ =>
      rw [hpc] at hw
      cases hw

/-- A worker without a queue and without a token waits for one. -/
lemma waiting_of_holders (hnone : ∀ w, (s.worker w).queue = none) (hholders : s.holders = 0)
    (w : W) : s.worker w = .waiting := by
  have hqueue := hnone w
  have hholds := Finset.filter_eq_empty_iff.1 (Finset.card_eq_zero.1 hholders) (Finset.mem_univ w)
  cases hpc : s.worker w with
  | waiting => rfl
  | holding | refused | admitted => exact absurd (by rw [hpc]; rfl) hholds
  | _ =>
      rw [hpc] at hqueue
      cases hqueue

end State

end Threads

/-! ## The sums -/

lemma Node.Aggregates.push {D : Type*} {n : Node ℝ D} (h : n.Aggregates) (q : ℕ)
    (comm : Command ℝ) : (n.push q comm).Aggregates := by
  simp only [Node.push]
  split
  · exact ⟨h.inner, h.weights, h.times⟩
  · exact ⟨h.inner, h.weights, h.times⟩

section Runs

variable [DecidableEq W] [DecidableEq T] {s s' : State ℝ W T} {l : Label ℝ W T}
  {ls : List (Label ℝ W T)}

lemma aggregates_step (h : s.node.Aggregates) (hc : Coherent s) (hs : Step s l s') :
    s'.node.Aggregates := by
  cases hs with
  | connect hpc hlock => exact h.createVM hc.linked _
  | createQueue hpc hlock => exact h.createQueue _
  | push hpc hkind => exact h.push _ _
  | finish hpc => exact h.push _ _
  | teardown hpc hlock => exact (h.destroyQueue _).destroyVM _
  | beginExec hpc => simpa [State.goto] using h
  | @account w q comm usedTime hpc hlock =>
      obtain ⟨hmem, -⟩ := hc.claims.claim w q (by simp [hpc, WorkerPc.queue])
      exact h.account hc.linked hmem usedTime
  | _ => exact ⟨h.inner, h.weights, h.times⟩

lemma housed_of_exec (h : computeNode.exec State.init ls = some s) :
    Housed s ∧ s.node.Aggregates := by
  refine computeNode.exec_induction (P := fun _ s => Housed s ∧ s.node.Aggregates) ?_ ?_ h
  · refine ⟨fun v hv => ?_, Node.Aggregates.init⟩
    cases hv
  · rintro ls s l s' hs ⟨hhoused, haggregates⟩ hl
    have hc := coherent_of_exec hs
    exact ⟨hhoused.step hc (owned_of_exec hs) (step_inv hl),
      aggregates_step haggregates hc (step_inv hl)⟩

/-! ## The result -/

/-- As at the start, but for the next addresses. -/
structure State.Blank (s : State ℝ W T) : Prop where
  VMs : s.node.VMs = []
  queues : s.node.queues = []
  inner : s.node.basedInnerProduct = 0
  weights : s.node.weightLengSquare = 0
  times : s.node.timeLengSquare = 0
  sem : s.node.sem = 0
  workers : ∀ w, s.worker w = .waiting
  lock : s.procLock = none

/-- **A clean slate.**  When no session of a run has a VM, the node is as it was at the start: there
are no VMs and no queues, the sums over them are zero, the semaphore is zero, and every device
worker waits for a token.  No token has been lost in the run. -/
theorem clean_slate [Fintype W] (h : computeNode.exec State.init ls = some s)
    (hgone : ∀ t, (s.session t).vm = none) :
    s.Blank ∧ computeNode.trace losses State.init ls = [] := by
  obtain ⟨hhoused, haggregates⟩ := housed_of_exec h
  have hc := coherent_of_exec h
  have hVMs : s.node.VMs = [] := by
    refine List.eq_nil_iff_forall_not_mem.2 fun v hv => ?_
    obtain ⟨t, ht⟩ := hhoused v hv
    rw [hgone t] at ht
    cases ht
  have hqueues : s.node.queues = [] := by
    refine List.eq_nil_iff_forall_not_mem.2 fun q hq => ?_
    obtain ⟨t, -, ht⟩ := owned_of_exec h q hq
    rw [hgone t] at ht
    cases ht
  have hnone := hc.queue_eq_none hqueues
  have hbalance := tokens_balance h
  rw [State.resuming_eq_zero hnone, Node.readyCount, hqueues, List.countP_nil] at hbalance
  have hworkers := State.waiting_of_holders hnone (by omega)
  refine ⟨⟨hVMs, hqueues, ?_, ?_, ?_, by omega, hworkers, ?_⟩,
    List.eq_nil_of_length_eq_zero (by omega)⟩
  · rw [haggregates.inner, hVMs, List.map_nil, List.sum_nil]
  · rw [haggregates.weights, hVMs, List.map_nil, List.sum_nil]
  · rw [haggregates.times, hVMs, List.map_nil, List.sum_nil]
  · refine Option.eq_none_iff_forall_ne_some.2 fun w hw => ?_
    have hepilogue := (hc.lock w).1 hw
    rw [hworkers w] at hepilogue
    cases hepilogue

end Runs

/-- The client of `oneClientBusy` goes when its command is done. -/
def oneClientGone : List (Label ℝ Unit Unit) :=
  oneClientBusy ++ (oneClientEpilogue ++ [.seeEmpty (), .teardown ()])

theorem clean_slate_oneClientGone :
    ∃ s, computeNode.exec State.init oneClientGone = some s ∧ s.Blank := by
  have hstart : computeNode.exec State.init oneClientStart = some oneClientState := rfl
  have hfront : (oneClientState.node.que 0).queue = [Command.new 0 .write] := rfl
  have hpick : step oneClientState (.pick ()) = _ :=
    step_pick rfl rfl oneClientState_inOrderSchedule hfront
  have hbusy : computeNode.exec State.init oneClientBusy = some oneClientBusyState :=
    computeNode.exec_append_iff.2 ⟨_, hstart, computeNode.exec_cons_iff.2 ⟨_, hpick, rfl⟩⟩
  obtain ⟨s, hrest, hgone⟩ : ∃ s, computeNode.exec oneClientBusyState
      (oneClientEpilogue ++ [.seeEmpty (), .teardown ()]) = some s ∧
      (s.session ()).vm = none := ⟨_, rfl, rfl⟩
  have hrun := computeNode.exec_append_iff.2 ⟨_, hbusy, hrest⟩
  exact ⟨s, hrun, (clean_slate hrun fun _ => hgone).1⟩

end ElasticFramework
