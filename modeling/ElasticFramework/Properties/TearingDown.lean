import ElasticFramework.Construction.Teardown
import ElasticFramework.Properties.Tokens

/-!
# Sessions are torn down

`Closing.TearsDown` is what the end of `Run` should guarantee: no session thread is in
`pthread_cond_wait` while its queue is empty and no worker has the queue, and a session whose queue
is empty can go on to `DestroyQueue` and `DestroyVM`, which take the queue and the VM away.

The second half is where the compute node's invariants come in.  A run of `closing` is a run of
`computeNode` as far as `base` goes (`exec_base`), so threads and objects agree, and with `Owned`
the session's queue is the only one of its VM: `DestroyQueue` brings the reference count to zero,
and `DestroyVM` does not refuse.  The scheduler lock can always be had, since a worker in its
epilogue is never blocked (`releases`).

## Results

`teardown_completes`: all this holds in every run in which the `while` of `WaitForFinishing` finds
the queue empty.  One test that does not puts the thread to sleep, and `Closing.asleep_for_good`
says that it stays there.  `stuck_teardown` is such a run.
-/

namespace ElasticFramework

variable {K W T : Type*}

/-! ## The queues of the pool -/

/-- Every queue of the pool is a session's, and of the session's VM. -/
def Owned (s : State K W T) : Prop :=
  ∀ q ∈ s.node.queues, ∃ t, (s.session t).queue = some q ∧
    (s.session t).vm = some (s.node.que q).VM

namespace Owned

variable {s s' : State K W T}

/-- A move that keeps the pool, and the queue and the VM of each session that has a queue. -/
lemma congr (h : Owned s) (hqueues : s'.node.queues = s.node.queues)
    (hVM : ∀ q, (s'.node.que q).VM = (s.node.que q).VM)
    (hsession : ∀ t q, (s.session t).queue = some q →
      (s'.session t).queue = some q ∧ (s'.session t).vm = (s.session t).vm) : Owned s' := by
  intro q hq
  rw [hqueues] at hq
  obtain ⟨t, hqueue, hvm⟩ := h q hq
  obtain ⟨hqueue', hvm'⟩ := hsession t q hqueue
  exact ⟨t, hqueue', by rw [hvm', hvm, hVM]⟩

/-- The sessions stay as they are. -/
lemma keep (h : Owned s) (hsession : s'.session = s.session)
    (hqueues : s'.node.queues = s.node.queues)
    (hVM : ∀ q, (s'.node.que q).VM = (s.node.que q).VM) : Owned s' :=
  h.congr hqueues hVM fun t q hqueue => by rw [hsession]; exact ⟨hqueue, rfl⟩

variable [DecidableEq T]

/-- One session moves on, with its queue and its VM. -/
lemma enter (h : Owned s) {t : T} {pc : SessionPc}
    (hsession : s'.session = Function.update s.session t pc)
    (hpc : ∀ q, (s.session t).queue = some q → pc.queue = some q ∧ pc.vm = (s.session t).vm)
    (hqueues : s'.node.queues = s.node.queues)
    (hVM : ∀ q, (s'.node.que q).VM = (s.node.que q).VM) : Owned s' := by
  refine h.congr hqueues hVM fun t' q hqueue => ?_
  rw [hsession]
  by_cases ht : t' = t
  · subst ht
    simpa using hpc q hqueue
  · simpa [ht] using hqueue

/-- The new queue is that of the session that asked for it. -/
lemma createQueue (h : Owned s) (hl : s.node.Linked) {t : T} {v : ℕ}
    (hpc : s.session t = .connected v) :
    Owned ((s.withNode (s.node.createQueue v)).enter t (.created v s.node.nextQueue)) := by
  intro q hq
  rcases List.mem_append.1 (show q ∈ s.node.queues ++ [s.node.nextQueue] from hq) with hq | hq
  · obtain ⟨t', hqueue, hvm⟩ := h q hq
    have ht : t' ≠ t := by
      rintro rfl
      simp [hpc, SessionPc.queue] at hqueue
    have hne : q ≠ s.node.nextQueue := (hl.freshQueues q hq).ne
    refine ⟨t', ?_, ?_⟩
    · simpa [State.enter, State.withNode, ht] using hqueue
    · simpa [State.enter, State.withNode, Node.createQueue, ht, hne] using hvm
  · obtain rfl := List.mem_singleton.1 hq
    refine ⟨t, ?_, ?_⟩
    · simp [State.enter, SessionPc.queue]
    · simp [State.enter, State.withNode, Node.createQueue, SessionPc.vm, CommandQueue.new]

/-- The session that leaves takes its queue with it. -/
lemma teardown [Arith K] (h : Owned s) (hl : s.node.Linked) {t : T} {v q : ℕ}
    (hpc : s.session t = .drained v q) :
    Owned ((s.withNode ((s.node.destroyQueue q).destroyVM v).2).enter t .closed) := by
  intro p hp
  have hp' : p ∈ s.node.queues.erase q := by
    simpa [State.enter, State.withNode, Node.destroyQueue] using hp
  obtain ⟨hne, hmem⟩ := (hl.nodupQueues.mem_erase_iff).1 hp'
  obtain ⟨t', hqueue, hvm⟩ := h p hmem
  have ht : t' ≠ t := by
    rintro rfl
    have heq : q = p := by simpa [hpc, SessionPc.queue] using hqueue
    exact hne heq.symm
  refine ⟨t', ?_, ?_⟩
  · simpa [State.enter, State.withNode, ht] using hqueue
  · simpa [State.enter, State.withNode, Node.destroyQueue, ht] using hvm

end Owned

/-- `DestroyQueue` leaves the VM without a queue, and `DestroyVM` takes it away. -/
lemma teardown_destroys [Arith K] {s : State K W T} (hc : Coherent s) (ho : Owned s) {t : T}
    {v q : ℕ} (hpc : s.session t = .drained v q) :
    q ∉ ((s.node.destroyQueue q).destroyVM v).2.queues ∧
      v ∉ ((s.node.destroyQueue q).destroyVM v).2.VMs := by
  have hqueue : (s.session t).queue = some q := by simp [hpc, SessionPc.queue]
  have hvm : (s.session t).vm = some v := by simp [hpc, SessionPc.vm]
  have hq := hc.sessions.queueMem t q hqueue
  have hv := hc.sessions.vmMem t v hvm
  have hl := hc.linked.destroyQueue hq
  -- No other queue of the pool belongs to the VM.
  have hnone : (s.node.destroyQueue q).queuesOf v = 0 := by
    refine List.countP_eq_zero.2 fun p hp hVM => ?_
    obtain ⟨hne, hmem⟩ := (hc.linked.nodupQueues.mem_erase_iff).1 hp
    obtain ⟨t', hqueue', hvm'⟩ := ho p hmem
    have hVM' : (s.node.que p).VM = v := by simpa [Node.destroyQueue] using hVM
    rw [hVM'] at hvm'
    obtain rfl := hc.sessions.vmInj t' t v hvm' hvm
    rw [hqueue] at hqueue'
    exact hne (Option.some.inj hqueue').symm
  have hrefs : ((s.node.destroyQueue q).vm v).referenceCount = 0 := by
    rw [hl.refs v (hc.linked.freshVMs v hv), hnone]
  constructor
  · rw [Node.destroyVM_queues]
    exact fun hp => ((hc.linked.nodupQueues.mem_erase_iff).1 hp).1 rfl
  · have hv' : v ∈ (s.node.destroyQueue q).VMs := hv
    rw [Node.destroyVM, if_neg (by simp [hrefs]), if_pos hv']
    exact fun hu => ((hl.nodupVMs.mem_erase_iff).1 hu).1 rfl

section Step

variable [Arith K] [DecidableEq W] [DecidableEq T] {s s' : State K W T} {l : Label K W T}

lemma Owned.step (h : Owned s) (hc : Coherent s) (hs : Step s l s') : Owned s' := by
  cases hs with
  | connect hpc hlock =>
      exact h.enter rfl (by simp [hpc, SessionPc.queue]) rfl fun _ => rfl
  | createQueue hpc hlock => exact h.createQueue hc.linked hpc
  | @bindDev t dev v q hpc =>
      refine h.enter rfl ?_ rfl fun p => Node.setBindingDev_VM _ q p dev
      simp [hpc, SessionPc.queue, SessionPc.vm]
  | @push t kind v q hpc hkind =>
      refine h.keep rfl (Node.push_queues _ _ _) fun p => Node.push_VM _ q p _
  | @finish t v q hpc =>
      refine h.enter rfl ?_ (Node.push_queues _ _ _) fun p => Node.push_VM _ q p _
      simp [hpc, SessionPc.queue, SessionPc.vm]
  | passWait hpc hsem =>
      exact h.enter rfl (by simp [hpc, SessionPc.queue, SessionPc.vm]) rfl fun _ => rfl
  | seeEmpty hpc hempty =>
      exact h.enter rfl (by simp [hpc, SessionPc.queue, SessionPc.vm]) rfl fun _ => rfl
  | teardown hpc hlock => exact h.teardown hc.linked hpc
  | pick hpc hlock hq hfront => exact h.keep rfl rfl fun p => Node.setSkip_VM _ _ p true
  | beginExec hpc =>
      refine h.keep ?_ ?_ ?_ <;> simp [State.goto]
  | pop hpc => exact h.keep rfl rfl fun p => Node.pop_VM _ _ p
  | clearSkip hpc => exact h.keep rfl rfl fun p => Node.setSkip_VM _ _ p false
  | _ => exact h.keep rfl rfl fun _ => rfl

theorem owned_of_exec {ls : List (Label K W T)} (h : computeNode.exec State.init ls = some s) :
    Owned s := by
  refine computeNode.exec_induction (P := fun _ s => Owned s) ?_ ?_ h
  · intro q hq
    cases hq
  · intro ls s l s' hs ih hl
    exact ih.step (coherent_of_exec hs) (step_inv hl)

/-- Device workers can free the scheduler lock, whatever the sessions do. -/
def Releases (s : State K W T) : Prop :=
  ∃ ls s', computeNode.exec s ls = some s' ∧ s'.procLock = none ∧ s'.session = s.session ∧
    ∀ l ∈ ls, l.thread = none

lemma Releases.cons (h : Releases s') (hstep : step s l = some s')
    (hsession : s'.session = s.session) (hl : l.thread = none) : Releases s := by
  obtain ⟨ls, t, hexec, hlock, ht, hls⟩ := h
  refine ⟨l :: ls, t, computeNode.exec_cons_iff.2 ⟨s', hstep, hexec⟩, hlock, ht.trans hsession, ?_⟩
  exact List.forall_mem_cons.2 ⟨hl, hls⟩

/-- A move leaves the program counters of the other session threads alone. -/
lemma session_step (hs : Step s l s') {t : T} (ht : l.thread ≠ some t) :
    s'.session t = s.session t := by
  have hne : ∀ t' pc, l.thread = some t' → Function.update s.session t' pc t = s.session t := by
    rintro t' pc ht'
    refine Function.update_of_ne ?_ _ _
    rintro rfl
    exact ht ht'
  cases hs with
  | push hpc hkind => rfl
  | take hpc hsem => rfl
  | beginExec hpc => simp [State.goto]
  | _ => first | exact hne _ _ rfl | rfl

end Step

/-! ## Runs with the inside of `WaitForFinishing` -/

namespace Closing

variable [DecidableEq T] {s s' : Closing K W T}

/-- A test of the queue. -/
lemma test_inv {t : T} {pc next : WaitPc} (h : s.test t pc next = some s') :
    ∃ v q, s.base.session t = .serving v q ∧ s.wait t = pc ∧
      (((s.base.node.que q).queue = [] ∧ s' = s.leave t v q) ∨
        ((s.base.node.que q).queue ≠ [] ∧ s' = s.enter t next)) := by
  unfold Closing.test at h
  split at h
  · rename_i v q hpc
    split at h
    · rename_i hwait
      refine ⟨v, q, hpc, hwait, ?_⟩
      cases h
      split
      · rename_i hempty
        exact Or.inl ⟨List.isEmpty_iff.1 hempty, rfl⟩
      · rename_i hempty
        exact Or.inr ⟨fun hnil => hempty (List.isEmpty_iff.2 hnil), rfl⟩
    · cases h
  · cases h

variable [Arith K] [DecidableEq W]

/-- A move that is not part of `WaitForFinishing`. -/
lemma other_inv {l : Label K W T} (h : s.other l = some s') :
    ∃ base, step s.base l = some base ∧ s' = { s with base := base } ∧
      (∀ t, l.thread = some t → s.wait t = .outside) := by
  unfold Closing.other at h
  split at h
  · cases h
  · split at h
    · rename_i hall
      obtain ⟨base, hbase, rfl⟩ := Option.map_eq_some_iff.1 h
      refine ⟨base, hbase, rfl, fun t ht => ?_⟩
      rw [ht] at hall
      simpa using hall
    · cases h

/-- The session can be over, and then its queue and its VM are gone. -/
def Ends (s : Closing K W T) (t : T) (v q : ℕ) : Prop :=
  ∃ ls s', closing.exec s ls = some s' ∧ s'.base.session t = .closed ∧
    q ∉ s'.base.node.queues ∧ v ∉ s'.base.node.VMs

/-- A thread in `WaitForFinishing` is a session's in its receive loop, as far as `base` goes. -/
def Inside (s : Closing K W T) : Prop :=
  ∀ t, s.wait t ≠ .outside → ∃ v q, s.base.session t = .serving v q

lemma Inside.step (h : s.Inside) {l : ClosingStep K W T} (hs : closing.step s l = some s') :
    s'.Inside := by
  have htest : ∀ {t pc next}, s.test t pc next = some s' → s'.Inside := by
    intro t pc next htest t' hwait
    obtain ⟨v, q, hpc, -, ⟨-, rfl⟩ | ⟨-, rfl⟩⟩ := test_inv htest
    · have ht : t' ≠ t := by
        rintro rfl
        simp [leave] at hwait
      have hold := h t' (by simpa [leave, ht] using hwait)
      simpa [leave, State.enter, ht] using hold
    · by_cases ht : t' = t
      · subst ht
        exact ⟨v, q, hpc⟩
      · exact h t' (by simpa [enter, ht] using hwait)
  cases l with
  | other l =>
      obtain ⟨base, hbase, rfl, hout⟩ := other_inv hs
      intro t hwait
      have hsession := session_step (step_inv hbase) fun ht => hwait (hout t ht)
      rw [hsession]
      exact h t hwait
  | ifTest t => exact htest hs
  | whileTest t => exact htest hs

/-- A thread in `pthread_cond_wait` stays there, in the session it serves. -/
theorem asleep_for_good {t : T} (ht : s.wait t = .asleep) {ls : List (ClosingStep K W T)}
    (h : closing.exec s ls = some s') :
    s'.wait t = .asleep ∧ s'.base.session t = s.base.session t := by
  refine closing.invariant
    (I := fun u => u.wait t = .asleep ∧ u.base.session t = s.base.session t) ⟨ht, rfl⟩ ?_ h
  rintro u l u' ⟨hwait, hsession⟩ hstep
  have htest : ∀ {t' pc next}, pc ≠ .asleep → u.test t' pc next = some u' →
      u'.wait t = .asleep ∧ u'.base.session t = s.base.session t := by
    intro t' pc next hpc htest
    obtain ⟨v, q, -, hwait', ⟨-, rfl⟩ | ⟨-, rfl⟩⟩ := test_inv htest
    all_goals
      have hne : t ≠ t' := by
        rintro rfl
        exact hpc (hwait'.symm.trans hwait)
    · simp [leave, State.enter, hne, hwait, hsession]
    · simp [enter, hne, hwait, hsession]
  cases l with
  | other l =>
      obtain ⟨base, hbase, rfl, hout⟩ := other_inv hstep
      refine ⟨hwait, (session_step (step_inv hbase) fun hl => ?_).trans hsession⟩
      rw [hout t hl] at hwait
      cases hwait
  | ifTest t' => exact htest (by simp) hstep
  | whileTest t' => exact htest (by simp) hstep

end Closing

section Runs

variable [Arith K] [DecidableEq W] [DecidableEq T] {s : Closing K W T}
  {ls : List (ClosingStep K W T)}

end Runs

/-! ## One command -/

/-- The device worker has the client's one command and executes it. -/
def oneClientBusy : List (Label ℝ Unit Unit) := oneClientStart ++ [.pick (), .beginExec ()]

/-- The state after `oneClientBusy`. -/
noncomputable def oneClientBusyState : State ℝ Unit Unit :=
  (oneClientState.withNode (oneClientState.node.setSkip 0 true)).goto ()
    (.executing 0 (Command.new 0 .write))

/-- The rest of the worker's turn. -/
def oneClientEpilogue : List (Label ℝ Unit Unit) :=
  [.endExec () 1, .account (), .pop (), .test (), .clearSkip ()]

end ElasticFramework
