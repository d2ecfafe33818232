import ElasticFramework.Construction.NodeList
import Mathlib.Data.Real.Basic

/-!
# Adding and deleting nodes

What a sequence of `AddCN` and `DelCN` keeps, in exact arithmetic: `i_leng_square_` as the sum of
the squared capacities, the ids that are returned as different from each other, and the node under
each of them until it is deleted.

## Results

Two things break it, and nothing else.  `DelCN` takes a node out of the map and leaves its square
in `i_leng_square_`, where nothing ever takes anything away (`slack_mono`); and the overloads of
`AddCN` count on their own from the same number, so that the first ids of both are `0`
(`count_zero_returned`).  `keepsBooks_iff` says so of every sequence of calls.

`toRegistry_exec`: where only the overload with an address is called, as in the dispatcher, the
list is the one of `Registry`.
-/

namespace ElasticFramework

namespace CNList

/-! ## Sums over the map -/

section Sums

variable {K : Type*} {m : AList fun _ : ℤ => CNRecord K} {id : ℤ} {cn : CNRecord K}

lemma erase_of_notMem (h : id ∉ m) : m.erase id = m :=
  AList.ext (List.kerase_of_notMem_keys h)

variable [AddCommMonoid K] (f : CNRecord K → K)

lemma sum_insert (cn : CNRecord K) (h : id ∉ m) :
    ((m.insert id cn).entries.map fun x => f x.2).sum =
      (m.entries.map fun x => f x.2).sum + f cn := by
  rw [AList.entries_insert_of_notMem h, List.map_cons, List.sum_cons, add_comm]

/-- What a key that is erased takes with it. -/
lemma sum_erase (h : m.lookup id = some cn) :
    ((m.erase id).entries.map fun x => f x.2).sum + f cn =
      (m.entries.map fun x => f x.2).sum := by
  have hmem : id ∈ m := AList.lookup_isSome.1 (by rw [h]; rfl)
  obtain ⟨cn', l₁, l₂, -, hentries, herase⟩ := List.exists_of_kerase (AList.mem_keys.1 hmem)
  have hcn' : m.lookup id = some cn' :=
    AList.mem_lookup_iff.2 (by rw [hentries]; simp)
  cases h.symm.trans hcn'
  have herase' : (m.erase id).entries = l₁ ++ l₂ := herase
  rw [herase', hentries]
  simp only [List.map_append, List.sum_append, List.map_cons, List.sum_cons]
  abel

end Sums

/-! ## One call -/

/-- What a call does: it adds a node under the next number of its overload, or deletes one. -/
inductive Moves {K : Type*} [Add K] [Mul K] (s : CNList K) : Call K → CNList K → Prop
  | add {c : Call K} {o : Overload} {cn : CNRecord K} (hadds : c.adds = some (o, cn))
      (hlt : s.cnId o < 2 ^ 31 - 1) : s.Moves c
        { CNs := insertNew s.CNs (s.cnId o + 1) cn
          cnId := Function.update s.cnId o (s.cnId o + 1)
          iLengSquare := s.iLengSquare + cn.capacity * cn.capacity }
  | del (id : ℤ) : s.Moves (.delCN id) (s.delCN id)

lemma moves_of_add {K : Type*} [Zero K] [Add K] [Mul K] {s s' : CNList K} {c : Call K}
    {o : Overload} {cn : CNRecord K} (hadds : c.adds = some (o, cn))
    (h : (s.add o cn).map Prod.snd = some s') : s.Moves c s' := by
  unfold add at h
  split at h
  · rename_i hlt
    cases h
    exact .add hadds hlt
  · cases h

lemma moves_of_step {K : Type*} [Zero K] [Add K] [Mul K] {s s' : CNList K} {c : Call K}
    (h : machine.step s c = some s') : s.Moves c s' := by
  cases c with
  | addCNInfo cn => exact moves_of_add (by rfl) h
  | addCN IP capacity weight usedTime => exact moves_of_add (by rfl) h
  | delCN id =>
      cases h
      exact .del id

/-- The list reached from `calls`. -/
abbrev Reaches (calls : List (Call ℝ)) (s : CNList ℝ) : Prop := machine.exec init calls = some s

/-- The ids that `calls` return, the first one first. -/
noncomputable abbrev ids (calls : List (Call ℝ)) : List ℤ :=
  machine.trace returned (init : CNList ℝ) calls

/-! ## What no call takes away -/

section Slack

variable {s s' : CNList ℝ} {c : Call ℝ}

/-- How much `i_leng_square_` is above the sum. -/
noncomputable def slack (s : CNList ℝ) : ℝ := s.iLengSquare - s.sumSquares

/-- A key that is new adds to both. -/
lemma slack_insertNew (s : CNList ℝ) {id : ℤ} {cn : CNRecord ℝ} {cnId : Overload → ℤ}
    (h : id ∉ s.CNs) :
    slack { CNs := insertNew s.CNs id cn, cnId := cnId,
            iLengSquare := s.iLengSquare + cn.capacity * cn.capacity } = s.slack := by
  have hsum := sum_insert (fun cn => cn.capacity * cn.capacity) cn h
  rw [slack, sumSquares, insertNew, if_neg h, hsum, slack, sumSquares]
  ring

/-- A key that is there adds to one of them only. -/
lemma slack_insertNew_of_mem (s : CNList ℝ) {id : ℤ} {cn : CNRecord ℝ} {cnId : Overload → ℤ}
    (h : id ∈ s.CNs) :
    slack { CNs := insertNew s.CNs id cn, cnId := cnId,
            iLengSquare := s.iLengSquare + cn.capacity * cn.capacity } =
      s.slack + cn.capacity * cn.capacity := by
  rw [slack, sumSquares, insertNew, if_pos h, slack, sumSquares]
  ring

/-- A node that is deleted is taken off one of them only. -/
lemma slack_delCN {id : ℤ} {cn : CNRecord ℝ} (h : s.getCN id = some cn) :
    (s.delCN id).slack = s.slack + cn.capacity * cn.capacity := by
  have hsum := sum_erase (fun cn => cn.capacity * cn.capacity) h
  rw [slack, sumSquares, slack, sumSquares, ← hsum, delCN]
  ring

lemma delCN_of_getCN_eq_none {id : ℤ} (h : s.getCN id = none) : s.delCN id = s := by
  rw [delCN, erase_of_notMem (AList.lookup_eq_none.1 h)]

lemma slack_step (h : s.Moves c s') : s.slack ≤ s'.slack := by
  cases h with
  | @add _ o cn hadds hlt =>
      by_cases hmem : s.cnId o + 1 ∈ s.CNs
      · rw [slack_insertNew_of_mem s hmem]
        exact le_add_of_nonneg_right (mul_self_nonneg _)
      · rw [slack_insertNew s hmem]
  | del id =>
      cases hid : s.getCN id with
      | none => rw [delCN_of_getCN_eq_none hid]
      | some cn =>
          rw [slack_delCN hid]
          exact le_add_of_nonneg_right (mul_self_nonneg _)

/-- Nothing is ever taken off `i_leng_square_`. -/
lemma slack_mono {calls : List (Call ℝ)} (h : machine.exec s calls = some s') :
    s.slack ≤ s'.slack :=
  machine.invariant (I := fun t => s.slack ≤ t.slack) le_rfl
    (fun _ _ _ hle hstep => hle.trans (slack_step (moves_of_step hstep))) h

end Slack

/-! ## The ids -/

section Ids

variable {s s' : CNList ℝ} {c : Call ℝ} {calls : List (Call ℝ)}

lemma returned_of_adds {K : Type*} {s : CNList K} {c : Call K} {o : Overload} {cn : CNRecord K}
    (hadds : c.adds = some (o, cn)) : s.returned c = [s.cnId o + 1] := by
  rw [returned, added, hadds]
  rfl

lemma ids_snoc (c : Call ℝ) (h : Reaches calls s) :
    ids (calls ++ [c]) = ids calls ++ s.returned c :=
  machine.trace_snoc _ c h

lemma ids_append (more : List (Call ℝ)) (h : Reaches calls s) :
    ids (calls ++ more) = ids calls ++ machine.trace returned s more :=
  machine.trace_append _ more h

/-- The numbers only go up. -/
lemma neg_one_le_cnId (h : Reaches calls s) (o : Overload) : -1 ≤ s.cnId o := by
  refine machine.invariant (I := fun s => -1 ≤ s.cnId o) le_rfl ?_ h
  intro t c t' hle hstep
  cases moves_of_step hstep with
  | @add _ p cn hadds hlt =>
      show -1 ≤ Function.update t.cnId p (t.cnId p + 1) o
      by_cases hp : o = p
      · subst hp
        rw [Function.update_self]
        omega
      · rwa [Function.update_of_ne hp]
  | del id => exact hle

/-- Whether an overload has been called. -/
def started (s : CNList ℝ) (o : Overload) : ℕ := if s.cnId o = -1 then 0 else 1

lemma started_add (s : CNList ℝ) (o : Overload) :
    s.started .info + s.started .address = s.started o + s.started o.other := by
  cases o with
  | info => rfl
  | address => exact Nat.add_comm _ _

/-- Each overload that has been called has returned `0`. -/
lemma count_zero_returned (h : Reaches calls s) :
    (ids calls).count 0 = s.started .info + s.started .address := by
  refine machine.exec_induction (P := fun calls s =>
    (ids calls).count 0 = s.started .info + s.started .address) rfl ?_ h
  intro calls t c t' ht ih hstep
  rw [ids_snoc c ht, List.count_append, ih]
  cases moves_of_step hstep with
  | @add _ o cn hadds hlt =>
      have hle := neg_one_le_cnId ht o
      have hself : Function.update t.cnId o (t.cnId o + 1) o = t.cnId o + 1 :=
        Function.update_self ..
      have hother : Function.update t.cnId o (t.cnId o + 1) o.other = t.cnId o.other :=
        Function.update_of_ne (by cases o <;> decide) ..
      rw [returned_of_adds hadds, started_add _ o, started_add _ o]
      -- The first id of an overload is the only one that is `0`.
      have hzero : List.count 0 [t.cnId o + 1] + t.started o = 1 := by
        rw [started, List.count_singleton]
        by_cases hfirst : t.cnId o = -1
        · simp [hfirst]
        · have hne : t.cnId o + 1 ≠ 0 := by omega
          simp [hfirst, hne]
      have hnow : ¬ t.cnId o + 1 = -1 := by omega
      simp only [started, hself, hother, hnow, if_false] at hzero ⊢
      omega
  | del id => exact Nat.add_zero _

end Ids

/-! ## Sequences of calls -/

section Calls

variable {s s' : CNList ℝ} {c : Call ℝ} {calls : List (Call ℝ)}

/-- A node that was added and not deleted is found under the id that was returned for it. -/
def Found (calls : List (Call ℝ)) (s : CNList ℝ) : Prop :=
  ∀ pre c post t id cn, calls = pre ++ c :: post → Reaches pre t → t.added c = some (id, cn) →
    Call.delCN id ∉ post → s.getCN id = some cn

/-- The calls can be made, and what they leave and return is as it is to be. -/
def KeepsBooks (calls : List (Call ℝ)) : Prop :=
  ∃ s, Reaches calls s ∧ s.iLengSquare = s.sumSquares ∧ (ids calls).Nodup ∧ Found calls s

/-- A call that breaks nothing: the other overload has not been used and there are numbers left, or
the node that is deleted is of no capacity. -/
def Sound (s : CNList ℝ) : Call ℝ → Prop
  | .addCNInfo _ => s.cnId .address = -1 ∧ s.cnId .info < 2 ^ 31 - 1
  | .addCN _ _ _ _ => s.cnId .info = -1 ∧ s.cnId .address < 2 ^ 31 - 1
  | .delCN id => ∀ cn, s.getCN id = some cn → cn.capacity = 0

lemma sound_iff {o : Overload} {cn : CNRecord ℝ} (hadds : c.adds = some (o, cn)) :
    s.Sound c ↔ s.cnId o.other = -1 ∧ s.cnId o < 2 ^ 31 - 1 := by
  cases c with
  | addCNInfo _ =>
      cases hadds
      exact Iff.rfl
  | addCN _ _ _ _ =>
      cases hadds
      exact Iff.rfl
  | delCN _ => cases hadds

lemma enabled_of_sound (s : CNList ℝ) (c : Call ℝ) (h : s.Sound c) :
    ∃ s', machine.step s c = some s' := by
  cases c with
  | addCNInfo cn => exact ⟨_, congrArg (Option.map Prod.snd) (if_pos h.2)⟩
  | addCN IP capacity weight usedTime => exact ⟨_, congrArg (Option.map Prod.snd) (if_pos h.2)⟩
  | delCN id => exact ⟨_, rfl⟩

/-- The ids that were returned are different, no overload has yet to return them, and the keys are
among them. -/
structure Numbered (s : CNList ℝ) (l : List ℤ) : Prop where
  nodup : l.Nodup
  past : ∀ id ∈ l, ∃ o, id ≤ s.cnId o
  keys : ∀ id ∈ s.CNs, id ∈ l

lemma Numbered.fresh {l : List ℤ} (h : s.Numbered l) {o : Overload} (hle : -1 ≤ s.cnId o)
    (hother : s.cnId o.other = -1) : s.cnId o + 1 ∉ l := by
  intro hmem
  obtain ⟨p, hp⟩ := h.past _ hmem
  have hcases : p = o ∨ p = o.other := by cases p <;> cases o <;> decide
  rcases hcases with rfl | rfl
  · omega
  · omega

lemma Numbered.notMem {l : List ℤ} (h : s.Numbered l) {o : Overload} (hle : -1 ≤ s.cnId o)
    (hother : s.cnId o.other = -1) : s.cnId o + 1 ∉ s.CNs :=
  fun hmem => h.fresh hle hother (h.keys _ hmem)

lemma numbered_step {l : List ℤ} (h : s.Numbered l) (hle : ∀ o, -1 ≤ s.cnId o)
    (hother : ∀ o cn, c.adds = some (o, cn) → s.cnId o.other = -1) (hmove : s.Moves c s') :
    s'.Numbered (l ++ s.returned c) := by
  cases hmove with
  | @add _ o cn hadds hlt =>
      have hother := hother o cn hadds
      rw [returned_of_adds hadds]
      refine ⟨?_, ?_, ?_⟩
      · rw [List.nodup_append_comm, List.singleton_append, List.nodup_cons]
        exact ⟨h.fresh (hle o) hother, h.nodup⟩
      · intro id hid
        rcases List.mem_append.1 hid with hid | hid
        · obtain ⟨p, hp⟩ := h.past id hid
          refine ⟨p, hp.trans ?_⟩
          show s.cnId p ≤ Function.update s.cnId o (s.cnId o + 1) p
          by_cases hpo : p = o
          · subst hpo
            rw [Function.update_self]
            omega
          · rw [Function.update_of_ne hpo]
        · rw [List.mem_singleton.1 hid]
          exact ⟨o, (Function.update_self (f := s.cnId) ..).ge⟩
      · intro id hid
        change id ∈ insertNew s.CNs (s.cnId o + 1) cn at hid
        rw [insertNew, if_neg (h.notMem (hle o) hother), AList.mem_insert] at hid
        rcases hid with rfl | hid
        · simp
        · exact List.mem_append_left _ (h.keys id hid)
  | del id =>
      refine ⟨by simpa [returned, added, Call.adds] using h.nodup, fun id' hid' => ?_,
        fun id' hid' => ?_⟩
      · exact h.past id' (by simpa [returned, added, Call.adds] using hid')
      · exact List.mem_append_left _ (h.keys id' (AList.mem_erase.1 hid').2)

lemma getCN_add_self {o : Overload} {cn : CNRecord ℝ} (hadds : c.adds = some (o, cn))
    (hmove : s.Moves c s') (hnew : s.cnId o + 1 ∉ s.CNs) : s'.getCN (s.cnId o + 1) = some cn := by
  cases hmove with
  | @add _ p cn' hadds' hlt =>
      cases hadds.symm.trans hadds'
      show (insertNew s.CNs (s.cnId o + 1) cn).lookup (s.cnId o + 1) = some cn
      rw [insertNew, if_neg hnew, AList.lookup_insert]
  | del id => cases hadds

/-- A node stays under its id until that is deleted. -/
lemma getCN_keep {id : ℤ} {cn : CNRecord ℝ} (h : s.getCN id = some cn)
    (hdel : c ≠ .delCN id) (hmove : s.Moves c s') : s'.getCN id = some cn := by
  cases hmove with
  | @add _ o cn' hadds hlt =>
      show (insertNew s.CNs (s.cnId o + 1) cn').lookup id = some cn
      rw [insertNew]
      split
      · exact h
      · rename_i hnew
        have hne : id ≠ s.cnId o + 1 := by
          rintro rfl
          exact hnew (AList.lookup_isSome.1 (by rw [← getCN, h]; rfl))
        rw [AList.lookup_insert_ne hne]
        exact h
  | del id' =>
      have hne : id ≠ id' := fun heq => hdel (by rw [heq])
      exact (AList.lookup_erase_ne hne).trans h

lemma found_snoc (hs : Reaches calls s) (h : Found calls s) (hmove : s.Moves c s')
    (hnew : ∀ o cn, c.adds = some (o, cn) → s.cnId o + 1 ∉ s.CNs) : Found (calls ++ [c]) s' := by
  intro pre c' post t id cn hsplit ht hadded hdel
  rcases List.eq_nil_or_concat post with rfl | ⟨post', x, rfl⟩
  · -- The call that returned the id is the last one.
    obtain ⟨rfl, hlast⟩ := List.append_inj' hsplit rfl
    cases hlast
    cases hs.symm.trans ht
    obtain ⟨⟨o, cn'⟩, hadds, hpair⟩ := Option.map_eq_some_iff.1 hadded
    cases hpair
    exact getCN_add_self hadds hmove (hnew o _ hadds)
  · have hsplit' : calls ++ [c] = (pre ++ c' :: post') ++ [x] := by simpa using hsplit
    obtain ⟨rfl, hlast⟩ := List.append_inj' hsplit' rfl
    cases hlast
    rw [List.concat_eq_append, List.mem_append, List.mem_singleton, not_or] at hdel
    exact getCN_keep (h pre c' post' t id cn rfl ht hadded hdel.1) (Ne.symm hdel.2) hmove

/-- One sound call. -/
lemma slack_of_sound (hc : s.Sound c) (hmove : s.Moves c s')
    (hnew : ∀ o cn, c.adds = some (o, cn) → s.cnId o + 1 ∉ s.CNs) : s'.slack = s.slack := by
  cases hmove with
  | @add _ o cn hadds hlt => exact slack_insertNew s (hnew o cn hadds)
  | del id =>
      cases hid : s.getCN id with
      | none => rw [delCN_of_getCN_eq_none hid]
      | some cn => rw [slack_delCN hid, hc cn hid, mul_zero, add_zero]

/-- What a run of sound calls leaves. -/
lemma books_of_sound (h : Reaches calls s) (hcalls : machine.AllSteps Sound init calls) :
    s.slack = 0 ∧ s.Numbered (ids calls) ∧ Found calls s := by
  refine machine.exec_induction (P := fun calls s => machine.AllSteps Sound init calls →
    s.slack = 0 ∧ s.Numbered (ids calls) ∧ Found calls s) ?_ ?_ h hcalls
  · intro _
    refine ⟨sub_self 0, ⟨List.nodup_nil, ?_, ?_⟩, ?_⟩
    · rintro id ⟨⟩
    · exact fun id hid => absurd hid (AList.notMem_empty id)
    · rintro pre c post t id cn hsplit
      simp at hsplit
  · intro calls s c s' hs ih hstep hcalls
    obtain ⟨hcalls, hlast⟩ := machine.allSteps_snoc_iff.1 hcalls
    obtain ⟨hslack, hnumbered, hfound⟩ := ih hcalls
    have hc := hlast s hs
    have hmove := moves_of_step hstep
    have hother : ∀ o cn, c.adds = some (o, cn) → s.cnId o.other = -1 :=
      fun o cn hadds => ((sound_iff hadds).1 hc).1
    have hnew : ∀ o cn, c.adds = some (o, cn) → s.cnId o + 1 ∉ s.CNs :=
      fun o cn hadds => hnumbered.notMem (neg_one_le_cnId hs o) (hother o cn hadds)
    refine ⟨(slack_of_sound hc hmove hnew).trans hslack, ?_, found_snoc hs hfound hmove hnew⟩
    rw [ids_snoc c hs]
    exact numbered_step hnumbered (neg_one_le_cnId hs) hother hmove

/-- In a run that keeps the books every call is sound. -/
lemma sound_of_books {pre post : List (Call ℝ)} {t : CNList ℝ}
    (hcalls : calls = pre ++ c :: post) (ht : Reaches pre t) (h : Reaches calls s)
    (hslack : s.slack = 0) (hids : (ids calls).Nodup) : t.Sound c := by
  subst hcalls
  have hsplit : pre ++ c :: post = (pre ++ [c]) ++ post := by simp
  obtain ⟨t', ht', hpost⟩ := machine.exec_append_iff.1 (hsplit ▸ h)
  obtain ⟨_, hpre, hstep⟩ := machine.exec_snoc_iff.1 ht'
  cases ht.symm.trans hpre
  have hmove := moves_of_step hstep
  cases hmove with
  | @add _ o cn hadds hlt =>
      refine (sound_iff hadds).2 ⟨?_, hlt⟩
      by_contra hother
      have hcount : (ids (pre ++ [c])).count 0 ≤ 1 := by
        have hle := List.nodup_iff_count_le_one.1 hids 0
        rw [hsplit, ids_append post ht', List.count_append] at hle
        omega
      rw [count_zero_returned ht', started_add _ o, started, started] at hcount
      have hself : Function.update t.cnId o (t.cnId o + 1) o = t.cnId o + 1 :=
        Function.update_self ..
      have hkeep : Function.update t.cnId o (t.cnId o + 1) o.other = t.cnId o.other :=
        Function.update_of_ne (by cases o <;> decide) ..
      have hle := neg_one_le_cnId ht o
      have hnow : ¬ t.cnId o + 1 = -1 := by omega
      simp only [hself, hkeep, hnow, hother, if_false] at hcount
      omega
  | del id =>
      intro cn hcn
      have hbefore : (0 : ℝ) ≤ t.slack := by
        have hle := slack_mono ht
        rwa [show (init : CNList ℝ).slack = 0 from sub_self 0] at hle
      have hafter := slack_mono hpost
      rw [slack_delCN hcn, hslack] at hafter
      have hsquare : cn.capacity * cn.capacity ≤ 0 := by linarith
      exact mul_self_eq_zero.1 (le_antisymm hsquare (mul_self_nonneg _))

/-- A sequence of calls keeps the books exactly when only one of the overloads is ever called, and
not beyond the range of its numbers, and no node that has a capacity is deleted. -/
theorem keepsBooks_iff (calls : List (Call ℝ)) :
    KeepsBooks calls ↔ machine.AllSteps Sound init calls := by
  constructor
  · rintro ⟨s, hs, hsquare, hids, -⟩ t c ⟨pre, post, hcalls, ht⟩
    exact sound_of_books hcalls ht hs (sub_eq_zero.2 hsquare) hids
  · intro hcalls
    obtain ⟨s, hs⟩ := machine.exec_of_allSteps enabled_of_sound hcalls
    obtain ⟨hslack, hnumbered, hfound⟩ := books_of_sound hs hcalls
    exact ⟨s, hs, sub_eq_zero.1 hslack, hnumbered.nodup, hfound⟩

/-- A node of capacity `1` that is added and deleted: nothing is left in the map, and `1` in
`i_leng_square_`. -/
theorem square_outlives_node : ¬ KeepsBooks [.addCN [] 1 0 0, .delCN 0] := by
  rintro ⟨s, hs, hsquare, hids, -⟩
  obtain ⟨t, ht, cn, hcn, hcapacity⟩ : ∃ t : CNList ℝ, Reaches [.addCN [] 1 0 0] t ∧
      ∃ cn, t.getCN 0 = some cn ∧ cn.capacity = 1 := ⟨_, rfl, _, rfl, rfl⟩
  have hcalls : [.addCN [] 1 0 0, .delCN 0] = [Call.addCN [] (1 : ℝ) 0 0] ++ .delCN 0 :: [] := rfl
  have hsound := sound_of_books hcalls ht hs (sub_eq_zero.2 hsquare) hids
  exact one_ne_zero (hcapacity.symm.trans (hsound cn hcn))

end Calls

/-! ## The dispatcher's calls -/

section Dispatcher

variable {s s' : CNList ℝ} {c : Call ℝ} {calls : List (Call ℝ)}

/-- The list as `Registry` has it. -/
noncomputable def toRegistry (s : CNList ℝ) : Registry ℝ where
  CNs := s.CNs.entries.reverse.map fun x => (x.1, x.2.toCNInfo)
  cnId := s.cnId .address
  basedInnerProduct := 0
  vLengSquare := 0
  iLengSquare := s.iLengSquare

/-- A call of the dispatcher. -/
inductive OfDispatcher : Call ℝ → (Registry ℝ → Registry ℝ) → Prop
  | addCN (IP : List UInt8) (capacity : ℝ) :
      OfDispatcher (.addCN IP capacity 0 0) fun r => (r.addCN capacity).2
  | delCN (id : ℤ) : OfDispatcher (.delCN id) fun r => r.delCN id

lemma kerase_eq_filter {β : Type*} (id : ℤ) {l : List (Σ _ : ℤ, β)} (h : l.NodupKeys) :
    l.kerase id = l.filter fun x => x.1 != id := by
  induction l with
  | nil => rfl
  | cons x l ih =>
      obtain ⟨hx, hl⟩ := List.nodupKeys_cons.1 h
      by_cases hid : id = x.1
      · have hrest : l.filter (fun x => x.1 != id) = l := by
          rw [← ih hl, hid, List.kerase_of_notMem_keys hx]
        rw [List.kerase_cons_eq hid, List.filter_cons_of_neg (by simp [hid]), hrest]
      · rw [List.kerase_cons_ne hid, List.filter_cons_of_pos (by simp [Ne.symm hid]), ih hl]

lemma toRegistry_delCN (s : CNList ℝ) (id : ℤ) :
    (s.delCN id).toRegistry = s.toRegistry.delCN id := by
  have hentries : (s.CNs.erase id).entries = s.CNs.entries.filter fun x => x.1 != id :=
    kerase_eq_filter id s.CNs.nodupKeys
  simp only [toRegistry, delCN, Registry.delCN, hentries, ← List.filter_reverse, List.filter_map]
  rfl

lemma toRegistry_addCN {IP : List UInt8} {capacity : ℝ} (hnew : s.cnId .address + 1 ∉ s.CNs)
    (hmove : s.Moves (.addCN IP capacity 0 0) s') :
    s'.toRegistry = (s.toRegistry.addCN capacity).2 := by
  cases hmove with
  | add hadds hlt =>
      cases hadds
      simp only [toRegistry, insertNew, if_neg hnew, AList.entries_insert_of_notMem hnew,
        List.reverse_cons, List.map_append, Registry.addCN, Function.update_self]
      rfl

/-- The dispatcher has no use for the overload of a `CNInfo`. -/
lemma OfDispatcher.adds {f : Registry ℝ → Registry ℝ} (h : OfDispatcher c f) {o : Overload}
    {cn : CNRecord ℝ} (hadds : c.adds = some (o, cn)) : o = .address := by
  cases h with
  | addCN IP capacity =>
      cases hadds
      rfl
  | delCN id => cases hadds

lemma OfDispatcher.cnId_info {f : Registry ℝ → Registry ℝ} (h : OfDispatcher c f)
    (hmove : s.Moves c s') : s'.cnId .info = s.cnId .info := by
  cases hmove with
  | add hadds hlt =>
      cases h.adds hadds
      have hne : Overload.info ≠ .address := by decide
      show Function.update s.cnId .address (s.cnId .address + 1) .info = s.cnId .info
      rw [Function.update_of_ne hne]
  | del id => rfl

/-- What the dispatcher's calls do to the list is what they do to the `Registry`. -/
theorem toRegistry_exec {calls : List (Call ℝ × (Registry ℝ → Registry ℝ))}
    (hcalls : ∀ x ∈ calls, OfDispatcher x.1 x.2) {s : CNList ℝ}
    (h : Reaches (calls.map Prod.fst) s) :
    s.toRegistry = calls.foldl (fun r x => x.2 r) Registry.init := by
  suffices hall : s.cnId .info = -1 ∧ s.Numbered (ids (calls.map Prod.fst)) ∧
      s.toRegistry = calls.foldl (fun r x => x.2 r) Registry.init from hall.2.2
  induction calls using List.reverseRecOn generalizing s with
  | nil =>
      cases h
      refine ⟨rfl, ⟨List.nodup_nil, ?_, ?_⟩, rfl⟩
      · rintro id ⟨⟩
      · exact fun id hid => absurd hid (AList.notMem_empty id)
  | append_singleton calls x ih =>
      rw [List.map_append] at h ⊢
      obtain ⟨t, ht, hstep⟩ := machine.exec_snoc_iff.1 h
      obtain ⟨hinfo, hnumbered, hview⟩ := ih (fun y hy => hcalls y (List.mem_append_left _ hy)) ht
      have hmove := moves_of_step hstep
      have hx := hcalls x (List.mem_append_right _ (List.mem_singleton_self x))
      have hother : ∀ o cn, x.1.adds = some (o, cn) → t.cnId o.other = -1 := by
        intro o cn hadds
        rw [hx.adds hadds]
        exact hinfo
      have hnext : s.toRegistry = x.2 t.toRegistry := by
        obtain ⟨c, f⟩ := x
        cases hx with
        | addCN IP capacity =>
            exact toRegistry_addCN (hnumbered.notMem (neg_one_le_cnId ht _) hinfo) hmove
        | delCN id =>
            cases hmove with
            | add hadds hlt => cases hadds
            | del id => exact toRegistry_delCN t id
      refine ⟨(hx.cnId_info hmove).trans hinfo, ?_, ?_⟩
      · rw [List.map_singleton, ids_snoc x.1 ht]
        exact numbered_step hnumbered (neg_one_le_cnId ht) hother hmove
      · rw [List.foldl_append, List.foldl_cons, List.foldl_nil, ← hview, hnext]

/-- A node comes and goes, and another comes. -/
theorem toRegistry_exec_second : ∃ s : CNList ℝ,
    Reaches [.addCN [] 1 0 0, .delCN 0, .addCN [] 1 0 0] s ∧ s.toRegistry.ids = [1] := by
  obtain ⟨s, hs⟩ : ∃ s : CNList ℝ, Reaches [.addCN [] 1 0 0, .delCN 0, .addCN [] 1 0 0] s :=
    ⟨_, rfl⟩
  have hcalls : ∀ x ∈ [(Call.addCN [] (1 : ℝ) 0 0, fun r : Registry ℝ => (r.addCN 1).2),
      (.delCN 0, fun r => r.delCN 0), (.addCN [] 1 0 0, fun r => (r.addCN 1).2)],
      OfDispatcher x.1 x.2 :=
    List.forall_mem_cons.2 ⟨.addCN _ _, List.forall_mem_cons.2 ⟨.delCN _,
      List.forall_mem_singleton.2 (.addCN _ _)⟩⟩
  refine ⟨s, hs, ?_⟩
  rw [toRegistry_exec hcalls hs]
  rfl

end Dispatcher

end CNList

end ElasticFramework
