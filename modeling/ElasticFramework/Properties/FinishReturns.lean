import ElasticFramework.Properties.Draining
import ElasticFramework.Properties.Owed
import ElasticFramework.Properties.TearingDown

/-!
# `clFinish` returns

`HandlerFinish` waits on the semaphore of a command that it has pushed.  The command is the only one
with its address and of class `CommandFinish` (`mem_queue_step`), so that its `Exec` posts, and no
one but its session waits there: once it has begun the semaphore stays up until the session passes
(`posted_of_begun`).  Workers that can empty the queues therefore can let every session pass that
waits (`finish_returns`).
-/

namespace ElasticFramework

variable {K W T : Type*} [Arith K] [DecidableEq W] [DecidableEq T] {s s' : State K W T}
  {l : Label K W T} {ls : List (Label K W T)}

/-! ## The commands on the queues -/

/-- A command on a queue was there before, or is the one a step has pushed. -/
lemma mem_queue_step (hs : Step s l s') {q : ℕ} {comm : Command K}
    (h : comm ∈ (s'.node.que q).queue) : comm ∈ (s.node.que q).queue ∨
      comm.ptr = s.nextPtr ∧ (comm.kind = .finish ∨ ∃ t kind, l = .push t kind) := by
  have hpush : ∀ {p : ℕ} {kind : CommandKind},
      comm ∈ ((s.node.push p (Command.new s.nextPtr kind)).que q).queue →
        comm ∈ (s.node.que q).queue ∨ comm = Command.new s.nextPtr kind := by
    intro p kind hmem
    by_cases hp : q = p
    · subst hp
      simpa [or_comm] using hmem
    · exact .inl (by simpa [hp] using hmem)
  cases hs with
  | createQueue hpc hlock =>
      refine .inl ?_
      by_cases hq : q = s.node.nextQueue
      · subst hq
        simp [State.enter, State.withNode, Node.createQueue, CommandQueue.new] at h
      · simpa [State.enter, State.withNode, Node.createQueue, hq] using h
  | bindDev hpc => exact .inl (Node.setBindingDev_queue _ _ _ _ ▸ h)
  | @push t kind v p hpc hkind =>
      rcases hpush h with hold | rfl
      · exact .inl hold
      · exact .inr ⟨rfl, .inr ⟨t, kind, rfl⟩⟩
  | @finish t v p hpc =>
      rcases hpush h with hold | rfl
      · exact .inl hold
      · exact .inr ⟨rfl, .inl rfl⟩
  | teardown hpc hlock =>
      exact .inl (by simpa [State.enter, State.withNode, Node.destroyQueue] using h)
  | pick hpc hlock hq hfront => exact .inl (Node.setSkip_queue _ _ _ _ ▸ h)
  | beginExec hpc => exact .inl (by simpa [State.goto] using h)
  | @pop w p hpc =>
      refine .inl ?_
      by_cases hp : q = p
      · subst hp
        exact List.mem_of_mem_tail (by simpa [State.goto, State.withNode, Node.pop] using h)
      · simpa [State.goto, State.withNode, Node.pop, hp] using h
  | clearSkip hpc => exact .inl (Node.setSkip_queue _ _ _ _ ▸ h)
  | _ => exact .inl h

/-- The address of a command on a queue has been given out. -/
lemma lt_nextPtr_of_mem (h : computeNode.exec State.init ls = some s) {q : ℕ} {comm : Command K}
    (hmem : comm ∈ (s.node.que q).queue) : comm.ptr < s.nextPtr := by
  have hh := history_of_exec h
  obtain ⟨done, hP, -⟩ := hh.served q
  refine hh.bound (q, comm.ptr) (mem_onQueue.1 ?_)
  rw [hP]
  exact List.mem_append_right _ (List.mem_map_of_mem hmem)

lemma lt_nextPtr_of_finishing (h : computeNode.exec State.init ls = some s) {t : T} {v q p : ℕ}
    (ht : s.session t = .finishing v q p) : p < s.nextPtr :=
  (history_of_exec h).bound _ ((history_of_exec h).waits t v q p ht)

/-- What a session waits for is a `CommandFinish`. -/
lemma finish_of_waited (h : computeNode.exec State.init ls = some s) {t : T} {v q p : ℕ}
    (ht : s.session t = .finishing v q p) {q' : ℕ} {comm : Command K}
    (hmem : comm ∈ (s.node.que q').queue) (hp : comm.ptr = p) : comm.kind = .finish := by
  refine computeNode.exec_induction (P := fun _ s => ∀ t v q p, s.session t = .finishing v q p →
    ∀ q', ∀ comm ∈ (s.node.que q').queue, comm.ptr = p → comm.kind = .finish) ?_ ?_ h t v q p ht q'
    comm hmem hp
  · intro t v q p ht
    cases ht
  · intro ls s l s' hs ih hl t v q p ht q' comm hmem hp
    have hstep : Step s l s' := step_inv hl
    rcases finishing_step hstep ht with hold | ⟨rfl, -, rfl⟩
    · have hlt := lt_nextPtr_of_finishing hs hold
      rcases mem_queue_step hstep hmem with hmem | ⟨hnew, -⟩
      · exact ih t v q p hold q' comm hmem hp
      · omega
    · rcases mem_queue_step hstep hmem with hmem | ⟨-, hkind | ⟨t', kind, hpush⟩⟩
      · have hlt := lt_nextPtr_of_mem hs hmem
        omega
      · exact hkind
      · cases hpush

/-! ## The semaphores -/

lemma begunOn_snoc (h : computeNode.exec State.init ls = some s) (l : Label K W T) (q : ℕ) :
    begunOn (ls ++ [l]) q = begunOn ls q ++ onQueue q (s.begins l) := by
  rw [begunOn, computeNode.trace_snoc _ l h, onQueue_append, begunOn]

/-- Commands that have begun were pushed. -/
lemma begunOn_pushedOn (h : computeNode.exec State.init ls = some s) (q : ℕ) :
    begunOn ls q <+: pushedOn ls q := by
  obtain ⟨done, running, rest, hP, -, hB, -⟩ :=
    ((history_of_exec h).served q).shape (coherent_of_exec h)
  exact ⟨rest, by rw [begunOn, pushedOn, hP, hB, List.append_assoc]⟩

omit [Arith K] [DecidableEq W] [DecidableEq T] in
/-- `Exec` lowers no semaphore, and a `CommandFinish` raises its own. -/
lemma finishSem_exec (s : State K W T) (comm : Command K) {p : ℕ}
    (h : s.finishSem p ≠ 0 ∨ comm.kind = .finish ∧ comm.ptr = p) :
    (s.exec comm).finishSem p ≠ 0 := by
  unfold State.exec
  by_cases hp : p = comm.ptr
  · subst hp
    split
    · simp
    · rename_i hkind
      exact h.resolve_right fun hfinish => hkind hfinish.1
  · have hsem := h.resolve_right fun hfinish => hp hfinish.2.symm
    split
    · simpa [hp] using hsem
    · exact hsem

/-- The semaphore that a session waits on is up once its command has begun. -/
lemma posted_of_begun (h : computeNode.exec State.init ls = some s) {t : T} {v q p : ℕ}
    (ht : s.session t = .finishing v q p) (hp : p ∈ begunOn ls q) : s.finishSem p ≠ 0 := by
  refine computeNode.exec_induction (P := fun ls s => ∀ t v q p, s.session t = .finishing v q p →
    p ∈ begunOn ls q → s.finishSem p ≠ 0) ?_ ?_ h t v q p ht hp
  · intro t v q p ht
    cases ht
  · intro ls s l s' hs ih hl t v q p ht hp
    have hstep : Step s l s' := step_inv hl
    have hc := coherent_of_exec hs
    rw [begunOn_snoc hs] at hp
    rcases finishing_step hstep ht with hold | ⟨rfl, -, rfl⟩
    · cases hstep with
      | @beginExec w q' comm hpc =>
          have hbegins : s.begins (.beginExec w) = [(q', comm.ptr)] := by simp [State.begins, hpc]
          refine finishSem_exec s comm ?_
          rcases List.mem_append.1 hp with hp | hp
          · exact .inl (ih t v q p hold hp)
          · rw [hbegins, mem_onQueue, List.mem_singleton, Prod.mk.injEq] at hp
            obtain ⟨rfl, rfl⟩ := hp
            obtain ⟨-, -, hfits⟩ := hc.claims.claim w q (by rw [hpc]; rfl)
            rw [hpc] at hfits
            have hmem : comm ∈ (s.node.que q).queue := List.mem_of_head? hfits
            exact .inr ⟨finish_of_waited hs hold hmem rfl, rfl⟩
      | @passWait t' v' q' p' hpc hsem =>
          have hp : p ∈ begunOn ls q := by simpa [State.begins, onQueue] using hp
          have hne : t ≠ t' := by
            rintro rfl
            simp [State.enter] at ht
          have hpp : p ≠ p' := by
            rintro rfl
            have hh := history_of_exec hs
            have heq := List.inj_on_of_nodup_map hh.nodup (hh.waits t v q p hold)
              (hh.waits t' v' q' p hpc) rfl
            cases heq
            exact hne (hc.sessions.queueInj t t' q (by rw [hold]; rfl) (by rw [hpc]; rfl))
          have hsem := ih t v q p hold hp
          simpa [State.enter, hpp] using hsem
      | _ =>
          refine ih t v q p hold ?_
          simpa [State.begins, onQueue] using hp
    · have hp : s.nextPtr ∈ begunOn ls q := by simpa [State.begins, onQueue] using hp
      have hpushed := (begunOn_pushedOn hs q).subset hp
      exact absurd ((history_of_exec hs).bound _ (mem_onQueue.1 hpushed)) (lt_irrefl _)

/-- Workers leave the sessions where they are. -/
lemma session_exec (h : computeNode.exec s ls = some s') (hls : ∀ l ∈ ls, l.thread = none) (t : T) :
    s'.session t = s.session t := by
  induction ls generalizing s with
  | nil =>
      cases h
      rfl
  | cons l ls ih =>
      obtain ⟨r, hstep, h⟩ := computeNode.exec_cons_iff.1 h
      obtain ⟨hl, hls⟩ := List.forall_mem_cons.1 hls
      rw [ih h hls]
      exact session_step (step_inv hstep) (by rw [hl]; exact (Option.some_ne_none t).symm)

/-- With its queue empty a session that waits can pass. -/
lemma passes_of_empty (h : computeNode.exec State.init ls = some s) {t : T} {v q p : ℕ}
    (ht : s.session t = .finishing v q p) (hempty : (s.node.que q).queue = []) :
    ∃ b, computeNode.step s (.passWait t) = some b := by
  have hh := history_of_exec h
  obtain ⟨done, hP, hidle, hbusy⟩ := hh.served q
  rw [hempty] at hP hbusy
  have hbegun : begunOn ls q = pushedOn ls q := by
    rw [begunOn, pushedOn, hP]
    cases hskip : (s.node.que q).skip with
    | false => simpa [ptrs] using (hidle hskip).1
    | true =>
        obtain ⟨w, hw⟩ := (coherent_of_exec h).claims.claimed q hskip
        simpa [ptrs] using (hbusy w hw).1
  have hmem : p ∈ begunOn ls q := by
    rw [hbegun]
    exact mem_onQueue.2 (hh.waits t v q p ht)
  have hsem := posted_of_begun h ht hmem
  refine ⟨{ s with finishSem := Function.update s.finishSem p (s.finishSem p - 1) }.enter t
    (.serving v q), ?_⟩
  simp [computeNode, step, stepSession, ht, hsem]

/-! ## The result -/

/-- **`clFinish` returns.**  In every state of a run with positive weights and no negative times
that has lost no token, the device workers can let a session pass that waits for its queue, as long
as each `Exec` ends. -/
theorem finish_returns [Fintype W] [Nonempty W] {s : State ℝ W T} {ls : List (Label ℝ W T)}
    (h : computeNode.exec State.init ls = some s) (hls : ∀ l ∈ ls, l.Timely)
    (hkeeps : computeNode.AllSteps (fun s l => ¬ s.LosesToken l) State.init ls) {t : T}
    {v q p : ℕ} (ht : s.session t = .finishing v q p) :
    ∃ ms s' b, computeNode.exec s ms = some s' ∧ (∀ l ∈ ms, l.thread = none) ∧
      computeNode.step s' (.passWait t) = some b := by
  have hlossless : Lossless s := ⟨ls, h, hls, hkeeps⟩
  obtain ⟨ms, s', hms, hmoves, hdrained⟩ := hlossless.drains
  have hrun := computeNode.exec_append_iff.2 ⟨s, h, hms⟩
  have ht' : s'.session t = .finishing v q p := by
    rw [session_exec hms hmoves t, ht]
  have hq : q ∈ s'.node.queues :=
    (coherent_of_exec hrun).sessions.queueMem t q (by rw [ht']; rfl)
  obtain ⟨b, hb⟩ := passes_of_empty hrun ht' (hdrained q hq)
  exact ⟨ms, s', b, hms, hmoves, hb⟩

/-- A client that waits for the only command it has pushed. -/
theorem finish_returns_run : ∃ s : State ℝ Unit Unit, computeNode.exec State.init
      [.connect () (1 : ℝ), .createQueue (), .bindDev () (), .finish ()] = some s ∧
    ∃ ms s' b, computeNode.exec s ms = some s' ∧ (∀ l ∈ ms, l.thread = none) ∧
      computeNode.step s' (.passWait ()) = some b := by
  have hrun : computeNode.exec (State.init : State ℝ Unit Unit)
      [.connect () (1 : ℝ), .createQueue (), .bindDev () (), .finish ()] = some _ := rfl
  have hbalance := tokens_balance hrun
  have hkeeps := (computeNode.trace_eq_nil_iff losses hrun).1 <| List.length_eq_zero_iff.1 <|
    Nat.add_left_cancel (hbalance.trans (rfl : _ = 1 + 0 + 0))
  have htimely : ∀ l ∈ ([.connect () (1 : ℝ), .createQueue (), .bindDev () (), .finish ()] :
      List (Label ℝ Unit Unit)), l.Timely := by
    simp [Label.Timely]
  exact ⟨_, hrun, finish_returns hrun htimely (by simpa [losses] using hkeeps) rfl⟩

end ElasticFramework
