import ElasticFramework.Properties.SerialExecution

/-!
# What a queue is owed

The commands that have been pushed on a queue and have not returned from `Exec` are those left of
the pushes when as many have been taken off as have ended (`owedOn`).  A push adds one at the end,
an `Exec` that returns takes the first (`owedOn_push`, `owedOn_end`), and when the list of the queue
is empty there are none, although a worker may still be in the epilogue (`owedOn_eq_nil`).

`owedTo` is what the queue of a session is owed.  A session gets its queue with nothing on it and
gives it back so (`owedTo_quiet`).
-/

namespace ElasticFramework

variable {K W T : Type*} [Arith K] [DecidableEq W] [DecidableEq T]
  {s s' : State K W T} {ls : List (Label K W T)} {l : Label K W T} {q : ℕ}

/-- The commands of queue `q` that have been pushed and whose `Exec` has not returned. -/
def owedOn (ls : List (Label K W T)) (q : ℕ) : List ℕ :=
  (pushedOn ls q).drop (endedOn ls q).length

/-- Those of a session's queue. -/
def owedTo (ls : List (Label K W T)) (s : State K W T) (t : T) : List ℕ :=
  ((s.session t).queue.map (owedOn ls)).getD []

lemma owedTo_eq {t : T} (hq : (s.session t).queue = some q) : owedTo ls s t = owedOn ls q := by
  rw [owedTo, hq, Option.map_some, Option.getD_some]

lemma pushedOn_snoc (h : computeNode.exec State.init ls = some s) (l : Label K W T) (q : ℕ) :
    pushedOn (ls ++ [l]) q = pushedOn ls q ++ onQueue q (s.pushes l) := by
  rw [pushedOn, computeNode.trace_snoc _ l h, onQueue_append, pushedOn]

lemma endedOn_snoc (h : computeNode.exec State.init ls = some s) (l : Label K W T) (q : ℕ) :
    endedOn (ls ++ [l]) q = endedOn ls q ++ onQueue q (s.ends l) := by
  rw [endedOn, computeNode.trace_snoc _ l h, onQueue_append, endedOn]

/-- Commands end in the order they were pushed. -/
lemma endedOn_pushedOn (h : computeNode.exec State.init ls = some s) (q : ℕ) :
    endedOn ls q <+: pushedOn ls q := by
  obtain ⟨done, running, rest, hP, -, -, hE⟩ :=
    ((history_of_exec h).served q).shape (coherent_of_exec h)
  rw [endedOn, pushedOn, hP]
  rcases hE with hE | hE
  · exact ⟨running ++ rest, by rw [hE]⟩
  · exact ⟨rest, by rw [hE, List.append_assoc]⟩

lemma lt_nextPtr_of_owed (h : computeNode.exec State.init ls = some s) {p : ℕ}
    (hp : p ∈ owedOn ls q) : p < s.nextPtr :=
  (history_of_exec h).bound (q, p) (mem_onQueue.1 (List.mem_of_mem_drop hp))

lemma lt_nextPtr_of_owedTo (h : computeNode.exec State.init ls = some s) {t : T} {p : ℕ}
    (hp : p ∈ owedTo ls s t) : p < s.nextPtr := by
  cases hq : (s.session t).queue with
  | none =>
      rw [owedTo, hq] at hp
      cases hp
  | some q => exact lt_nextPtr_of_owed h (owedTo_eq hq ▸ hp)

/-- With nothing in its list a queue is owed nothing. -/
lemma owedOn_eq_nil (h : computeNode.exec State.init ls = some s)
    (hq : (s.node.que q).queue = []) : owedOn ls q = [] := by
  obtain ⟨done, hP, hidle, hbusy⟩ := (history_of_exec h).served q
  have hE : endedOn ls q = done := by
    cases hskip : (s.node.que q).skip with
    | false => exact (hidle hskip).2
    | true =>
        obtain ⟨w, hw⟩ := (coherent_of_exec h).claims.claimed q hskip
        rw [endedOn, (hbusy w hw).2, hq, List.take_nil, ptrs, List.map_nil, List.append_nil]
  have hP' : pushedOn ls q = done := by
    rw [pushedOn, hP, hq, ptrs, List.map_nil, List.append_nil]
  rw [owedOn, hE, hP', List.drop_length]

/-! ## One step -/

/-- A step that neither pushes nor ends a command. -/
lemma owedOn_quiet (h : computeNode.exec State.init ls = some s) (hpushes : s.pushes l = [])
    (hends : s.ends l = []) (q : ℕ) : owedOn (ls ++ [l]) q = owedOn ls q := by
  rw [owedOn, pushedOn_snoc h, endedOn_snoc h, hpushes, hends]
  simp [onQueue, owedOn]

lemma owedOn_push (h : computeNode.exec State.init ls = some s) {p : ℕ}
    (hpushes : s.pushes l = [(q, p)]) (hends : s.ends l = []) (q' : ℕ) :
    owedOn (ls ++ [l]) q' = owedOn ls q' ++ if q = q' then [p] else [] := by
  have hle : (endedOn ls q').length ≤ (pushedOn ls q').length := (endedOn_pushedOn h q').length_le
  have hnone : onQueue q' ([] : List (ℕ × ℕ)) = [] := rfl
  rw [owedOn, pushedOn_snoc h, endedOn_snoc h, hpushes, hends, onQueue_singleton, hnone,
    List.append_nil, List.drop_append_of_le_length hle, owedOn]

/-- It is the first that ends. -/
lemma owedOn_end (h : computeNode.exec State.init ls = some s)
    (hs : computeNode.step s l = some s') {p : ℕ} (hpushes : s.pushes l = [])
    (hends : s.ends l = [(q, p)]) (q' : ℕ) :
    owedOn ls q' = (if q = q' then [p] else []) ++ owedOn (ls ++ [l]) q' := by
  have hnone : onQueue q' ([] : List (ℕ × ℕ)) = [] := rfl
  obtain ⟨rest, hrest⟩ := endedOn_pushedOn (computeNode.exec_snoc_iff.2 ⟨s, h, hs⟩) q'
  rw [endedOn_snoc h, pushedOn_snoc h, hpushes, hends, onQueue_singleton, hnone, List.append_nil,
    List.append_assoc] at hrest
  have hafter : pushedOn ls q' = (endedOn ls q' ++ if q = q' then [p] else []) ++ rest := by
    rw [← hrest, List.append_assoc]
  rw [owedOn, owedOn, pushedOn_snoc h, endedOn_snoc h, hpushes, hends, onQueue_singleton, hnone,
    List.append_nil, ← hrest, List.drop_left, ← List.append_assoc, List.drop_left]

/-- What a session is owed changes by its pushes and by what ends. -/
lemma owedTo_quiet (h : computeNode.exec State.init ls = some s)
    (hs : computeNode.step s l = some s') (hpushes : s.pushes l = []) (hends : s.ends l = [])
    (t : T) : owedTo (ls ++ [l]) s' t = owedTo ls s t := by
  have hsame : (s'.session t).queue = (s.session t).queue →
      owedTo (ls ++ [l]) s' t = owedTo ls s t := by
    intro hq
    rw [owedTo, owedTo, hq]
    cases (s.session t).queue with
    | none => rfl
    | some q => exact owedOn_quiet h hpushes hends q
  have hempty : ∀ q, (s.node.que q).queue = [] → owedOn (ls ++ [l]) q = [] := fun q hq =>
    (owedOn_quiet h hpushes hends q).trans (owedOn_eq_nil h hq)
  have hkeep : ∀ {t' : T} {pc pc' : SessionPc}, s.session t' = pc → pc'.queue = pc.queue →
      (Function.update s.session t' pc' t).queue = (s.session t).queue := by
    intro t' pc pc' hpc hq
    exact apply_update_eq (f := SessionPc.queue) (by rw [hpc, hq]) t
  cases step_inv hs with
  | @createQueue t' v hpc hlock =>
      by_cases ht : t = t'
      · have hfresh := (history_of_exec h).fresh _ le_rfl
        simp [owedTo, State.enter, ht, hpc, SessionPc.queue, hempty _ hfresh]
      · exact hsame (by simp [State.enter, ht, State.withNode])
  | @teardown t' v q hpc hlock =>
      by_cases ht : t = t'
      · have hdrained := (coherent_of_exec h).sessions.drained t' v q hpc
        simp [owedTo, State.enter, ht, hpc, SessionPc.queue, owedOn_eq_nil h hdrained]
      · exact hsame (by simp [State.enter, ht, State.withNode])
  | connect hpc hlock => exact hsame (hkeep hpc rfl)
  | bindDev hpc => exact hsame (hkeep hpc rfl)
  | passWait hpc hsem => exact hsame (hkeep hpc rfl)
  | seeEmpty hpc hq => exact hsame (hkeep hpc rfl)
  | @push t' kind v q hpc hkind => simp [State.pushes, hpc, SessionPc.queue] at hpushes
  | @finish t' v q hpc => simp [State.pushes, hpc, SessionPc.queue] at hpushes
  | beginExec hpc => exact hsame (by simp [State.goto])
  | _ => exact hsame rfl

section Session

variable {t₀ : T} {p : ℕ}

/-- No two sessions have one queue. -/
lemma queue_eq_iff {t : T} {q' : ℕ} (h : computeNode.exec State.init ls = some s)
    (hq : (s.session t₀).queue = some q) (ht : (s.session t).queue = some q') :
    q = q' ↔ t = t₀ := by
  constructor
  · rintro rfl
    exact (coherent_of_exec h).sessions.queueInj t t₀ q ht hq
  · rintro rfl
    exact Option.some.inj (hq.symm.trans ht)

/-- A command is pushed for the session of its queue, and for no other. -/
lemma owedTo_push (h : computeNode.exec State.init ls = some s) (hq : (s.session t₀).queue = some q)
    (hpushes : s.pushes l = [(q, p)]) (hends : s.ends l = [])
    (hsession : ∀ t, (s'.session t).queue = (s.session t).queue) (t : T) :
    owedTo (ls ++ [l]) s' t = owedTo ls s t ++ if t = t₀ then [p] else [] := by
  cases ht : (s.session t).queue with
  | none =>
      have hne : t ≠ t₀ := by
        rintro rfl
        cases ht.symm.trans hq
      rw [owedTo, owedTo, hsession, ht, if_neg hne]
      rfl
  | some q' =>
      rw [owedTo_eq (hsession t ▸ ht), owedTo_eq ht, owedOn_push h hpushes hends]
      simp only [queue_eq_iff h hq ht]

/-- A command ends for the session of its queue, and for no other. -/
lemma owedTo_end (h : computeNode.exec State.init ls = some s)
    (hs : computeNode.step s l = some s') (hq : (s.session t₀).queue = some q)
    (hpushes : s.pushes l = []) (hends : s.ends l = [(q, p)])
    (hsession : s'.session = s.session) (t : T) :
    owedTo ls s t = (if t = t₀ then [p] else []) ++ owedTo (ls ++ [l]) s' t := by
  cases ht : (s.session t).queue with
  | none =>
      have hne : t ≠ t₀ := by
        rintro rfl
        cases ht.symm.trans hq
      rw [owedTo, owedTo, hsession, ht, if_neg hne]
      rfl
  | some q' =>
      rw [owedTo_eq ht, owedTo_eq (s := s') (hsession ▸ ht), owedOn_end h hs hpushes hends]
      simp only [queue_eq_iff h hq ht]

end Session

/-- A session keeps its queue while that is owed something. -/
lemma queue_step (h : computeNode.exec State.init ls = some s) (hs : computeNode.step s l = some s')
    {t : T} (hq : (s.session t).queue = some q) (howed : owedOn ls q ≠ []) :
    (s'.session t).queue = some q := by
  have hkeep : ∀ {t' : T} {pc pc' : SessionPc}, s.session t' = pc → pc'.queue = pc.queue →
      (Function.update s.session t' pc' t).queue = some q := by
    intro t' pc pc' hpc hpc'
    rw [apply_update_eq (f := SessionPc.queue) (by rw [hpc, hpc']) t, hq]
  cases step_inv hs with
  | @createQueue t' v hpc hlock =>
      have hne : t ≠ t' := by
        rintro rfl
        rw [hpc] at hq
        cases hq
      simpa [State.enter, State.withNode, hne] using hq
  | @teardown t' v q' hpc hlock =>
      have hne : t ≠ t' := by
        rintro rfl
        rw [hpc] at hq
        cases hq
        exact howed (owedOn_eq_nil h ((coherent_of_exec h).sessions.drained t v q hpc))
      simpa [State.enter, State.withNode, hne] using hq
  | connect hpc hlock => exact hkeep hpc rfl
  | bindDev hpc => exact hkeep hpc rfl
  | finish hpc => exact hkeep hpc rfl
  | passWait hpc hsem => exact hkeep hpc rfl
  | seeEmpty hpc hnil => exact hkeep hpc rfl
  | beginExec hpc => simpa [State.goto] using hq
  | _ => exact hq

/-! ## The finish command -/

/-- A session that waits for its finish command has waited before, or has just pushed it. -/
lemma finishing_step (hs : Step s l s') {t : T} {v p : ℕ}
    (ht : s'.session t = .finishing v q p) :
    s.session t = .finishing v q p ∨
      l = .finish t ∧ (s.session t).queue = some q ∧ p = s.nextPtr := by
  have hold : ∀ {t' : T} {pc : SessionPc}, (∀ v q p, pc ≠ .finishing v q p) →
      Function.update s.session t' pc t = .finishing v q p → s.session t = .finishing v q p := by
    intro t' pc hpc ht'
    have hne : t ≠ t' := by
      rintro rfl
      rw [Function.update_self] at ht'
      exact hpc v q p ht'
    rwa [Function.update_of_ne hne] at ht'
  cases hs with
  | @finish t' v' q' hpc =>
      by_cases htt : t = t'
      · subst htt
        simp only [State.enter, Function.update_self, SessionPc.finishing.injEq] at ht
        obtain ⟨-, rfl, rfl⟩ := ht
        exact .inr ⟨rfl, by rw [hpc, SessionPc.queue], rfl⟩
      · exact .inl (by simpa [State.enter, State.pushNew, htt] using ht)
  | connect hpc hlock => exact .inl (hold (by simp) ht)
  | createQueue hpc hlock => exact .inl (hold (by simp) ht)
  | bindDev hpc => exact .inl (hold (by simp) ht)
  | passWait hpc hsem => exact .inl (hold (by simp) ht)
  | seeEmpty hpc hempty => exact .inl (hold (by simp) ht)
  | teardown hpc hlock => exact .inl (hold (by simp) ht)
  | beginExec hpc => exact .inl (by simpa [State.goto] using ht)
  | _ => exact .inl ht

/-- Nothing is pushed on the queue of a session that waits. -/
lemma pushes_of_finishing (hc : Coherent s) {t : T} {v p : ℕ}
    (ht : s.session t = .finishing v q p) (l : Label K W T) (hs : Step s l s') :
    onQueue q (s.pushes l) = [] := by
  have hq : (s.session t).queue = some q := by rw [ht, SessionPc.queue]
  have hother : ∀ {t' : T} {v' q' : ℕ}, s.session t' = .serving v' q' → q' ≠ q := by
    rintro t' v' q' hpc rfl
    have htt : t' = t := hc.sessions.queueInj t' t q' (by rw [hpc, SessionPc.queue]) hq
    rw [htt, ht] at hpc
    cases hpc
  cases hs with
  | push hpc hkind =>
      simp [State.pushes, hpc, SessionPc.queue, onQueue_singleton, hother hpc]
  | finish hpc => simp [State.pushes, hpc, SessionPc.queue, onQueue_singleton, hother hpc]
  | _ => rfl

/-- The finish command a session waits for is the last of its queue. -/
lemma finishing_last (h : computeNode.exec State.init ls = some s) {t : T} {v p : ℕ}
    (ht : s.session t = .finishing v q p) : ∃ before, pushedOn ls q = before ++ [p] := by
  refine computeNode.exec_induction (P := fun ls s => ∀ t v q p,
    s.session t = .finishing v q p → ∃ before, pushedOn ls q = before ++ [p]) ?_ ?_ h t v q p ht
  · intro t v q p ht
    cases ht
  · intro ls s l s' hs ih hl t v q p ht
    have hstep : Step s l s' := step_inv hl
    rw [pushedOn_snoc hs]
    rcases finishing_step hstep ht with hold | ⟨rfl, hq, rfl⟩
    · obtain ⟨before, hbefore⟩ := ih t v q p hold
      rw [pushes_of_finishing (coherent_of_exec hs) hold l hstep, List.append_nil]
      exact ⟨before, hbefore⟩
    · refine ⟨pushedOn ls q, ?_⟩
      rw [State.pushes, hq, onQueue_singleton, if_pos rfl]

/-- When the wait for a finish command is over, the queue is owed nothing else. -/
lemma owedOn_of_passWait (h : computeNode.exec State.init ls = some s) {t : T} {v p : ℕ}
    (ht : s.session t = .finishing v q p) (hpass : computeNode.step s (.passWait t) = some s') :
    owedOn ls q = [] ∨ owedOn ls q = [p] := by
  obtain ⟨done, running, rest, hP, hlen, hB, hE⟩ :=
    ((history_of_exec h).served q).shape (coherent_of_exec h)
  have hbegun := finish_begun h ht hpass
  rw [begunOn, hB] at hbegun
  obtain ⟨before, after, hsplit, hended⟩ := before_of_begun hlen hE hbegun
  have hpushed : pushedOn ls q = before ++ p :: after := by rw [pushedOn, hP, hsplit]
  -- the finish command is pushed once, and last
  have hnil : after = [] := by
    obtain ⟨before', hlast⟩ := finishing_last h ht
    rcases List.eq_nil_or_concat after with hnil | ⟨after', x, rfl⟩
    · exact hnil
    · have hnodup : (pushedOn ls q).Nodup :=
        (onQueue_sublist q _).nodup (history_of_exec h).nodup
      have hends : before' ++ [p] = (before ++ p :: after') ++ [x] := by
        rw [← hlast, hpushed, List.concat_eq_append, List.append_assoc, List.cons_append]
      obtain ⟨rfl, hx⟩ := List.append_inj' hends rfl
      obtain rfl := List.singleton_inj.1 hx
      rw [hlast] at hnodup
      simp [List.nodup_append] at hnodup
  have hle : before.length ≤ (endedOn ls q).length := hended.length_le
  rw [owedOn, hpushed, hnil, List.drop_append, List.drop_eq_nil_of_le hle, List.nil_append]
  cases (endedOn ls q).length - before.length with
  | zero => exact .inr rfl
  | succ n => exact .inl (List.drop_eq_nil_of_le (by simp))

end ElasticFramework
