import ElasticFramework.Construction.Dispatcher
import Mathlib.Data.List.Perm.Basic
import Mathlib.Data.List.Nodup

/-!
# The nodes of the registry

What the operations do to the keys of `CNs_`, and what one step of the dispatcher is:
`Dispatcher.Moves` lists the moves with their conditions, and `moves_of_step` says that there are
no others.  `Registry.Numbered` is the invariant about keys alone; every other invariant of the
dispatcher is a case analysis on `Moves`.
-/

namespace ElasticFramework

variable {C K : Type*}

/-! ## Keys -/

namespace Registry

variable {r : Registry K}

lemma isSome_getCN_iff {key : ℤ} : (r.getCN key).isSome ↔ key ∈ r.ids := by
  simp [getCN, ids, List.find?_isSome]

lemma getCN_eq_none_iff {key : ℤ} : r.getCN key = none ↔ key ∉ r.ids := by
  rw [← isSome_getCN_iff, Option.not_isSome_iff_eq_none]

@[simp] lemma ids_modify (key : ℤ) (f : CNInfo K → CNInfo K) : (r.modify key f).ids = r.ids := by
  simp only [ids, modify, List.map_map]
  refine List.map_congr_left fun x _ => ?_
  simp only [Function.comp_apply]
  split <;> rfl

/-- `UpdateCNWeight` and `UpdateCNUsedTime` change nothing or the node under the key. -/
lemma updateCNWeight_cases (key : ℤ) (weight : K) :
    (r.updateCNWeight key weight).2 = r ∨
      (r.updateCNWeight key weight).2 = r.modify key fun cn => { cn with weight := weight } := by
  unfold updateCNWeight
  split
  · exact Or.inl rfl
  · exact Or.inr rfl

lemma updateCNUsedTime_cases (key : ℤ) (usedTime : K) :
    (r.updateCNUsedTime key usedTime).2 = r ∨
      (r.updateCNUsedTime key usedTime).2 =
        r.modify key fun cn => { cn with usedTime := usedTime } := by
  unfold updateCNUsedTime
  split
  · exact Or.inl rfl
  · exact Or.inr rfl

@[simp] lemma ids_updateCNWeight (key : ℤ) (weight : K) :
    (r.updateCNWeight key weight).2.ids = r.ids := by
  rcases r.updateCNWeight_cases key weight with h | h <;> simp [h]

@[simp] lemma ids_updateCNUsedTime (key : ℤ) (usedTime : K) :
    (r.updateCNUsedTime key usedTime).2.ids = r.ids := by
  rcases r.updateCNUsedTime_cases key usedTime with h | h <;> simp [h]

@[simp] lemma cnId_updateCNWeight (key : ℤ) (weight : K) :
    (r.updateCNWeight key weight).2.cnId = r.cnId := by
  rcases r.updateCNWeight_cases key weight with h | h <;> rw [h]; rfl

@[simp] lemma cnId_updateCNUsedTime (key : ℤ) (usedTime : K) :
    (r.updateCNUsedTime key usedTime).2.cnId = r.cnId := by
  rcases r.updateCNUsedTime_cases key usedTime with h | h <;> rw [h]; rfl

lemma mem_ids_delCN {id cnId : ℤ} : id ∈ (r.delCN cnId).ids ↔ id ∈ r.ids ∧ id ≠ cnId := by
  simp only [ids, delCN, List.mem_map, List.mem_filter, bne_iff_ne]
  constructor
  · rintro ⟨x, ⟨hx, hne⟩, rfl⟩
    exact ⟨⟨x, hx, rfl⟩, hne⟩
  · rintro ⟨⟨x, hx, rfl⟩, hne⟩
    exact ⟨x, ⟨hx, hne⟩, rfl⟩

lemma reorder_perm (i : ℕ) : (r.reorder i).CNs.Perm r.CNs := by
  change ((r.CNs[i]?).toList ++ r.CNs.eraseIdx i).Perm r.CNs
  by_cases hi : i < r.CNs.length
  · rw [List.getElem?_eq_getElem hi]
    exact (List.getElem_cons_eraseIdx_perm hi)
  · rw [List.getElem?_eq_none (not_lt.1 hi), List.eraseIdx_of_length_le (not_lt.1 hi)]
    exact List.Perm.refl _

lemma mem_ids_reorder {i : ℕ} {id : ℤ} : id ∈ (r.reorder i).ids ↔ id ∈ r.ids :=
  ((r.reorder_perm i).map Prod.fst).mem_iff

lemma ids_addCN [Arith K] (capacity : K) :
    (r.addCN capacity).2.ids = r.ids ++ [r.cnId + 1] := by
  simp [ids, addCN]

/-- Keys are distinct and have been given out. -/
structure Numbered (r : Registry K) : Prop where
  nodup : r.ids.Nodup
  range : ∀ id ∈ r.ids, 0 ≤ id ∧ id ≤ r.cnId
  cnId : -1 ≤ r.cnId

namespace Numbered

/-- The same keys, in another order perhaps. -/
lemma congr {r' : Registry K} (h : r.Numbered) (hids : r'.ids.Perm r.ids)
    (hcnId : r'.cnId = r.cnId) : r'.Numbered where
  nodup := hids.nodup_iff.2 h.nodup
  range := by
    intro id hid
    rw [hcnId]
    exact h.range id (hids.mem_iff.1 hid)
  cnId := hcnId ▸ h.cnId

lemma addCN [Arith K] (h : r.Numbered) (capacity : K) : (r.addCN capacity).2.Numbered := by
  have hcnId : (r.addCN capacity).2.cnId = r.cnId + 1 := rfl
  have hlow := h.cnId
  refine ⟨?_, ?_, ?_⟩
  · rw [ids_addCN]
    refine List.nodup_append.2 ⟨h.nodup, List.nodup_singleton _, ?_⟩
    intro id hid x hx
    have hle := (h.range id hid).2
    rw [List.mem_singleton.1 hx]
    omega
  · intro id hid
    rw [ids_addCN, List.mem_append, List.mem_singleton] at hid
    rw [hcnId]
    rcases hid with hid | rfl
    · have hrange := h.range id hid
      omega
    · omega
  · omega

lemma delCN (h : r.Numbered) (cnId : ℤ) : (r.delCN cnId).Numbered where
  nodup := h.nodup.sublist (List.filter_sublist.map Prod.fst)
  range := fun id hid => h.range id (mem_ids_delCN.1 hid).1
  cnId := h.cnId

lemma init [Arith K] : (Registry.init : Registry K).Numbered where
  nodup := List.nodup_nil
  range := fun _ hid => absurd hid List.not_mem_nil
  cnId := le_rfl

end Numbered

end Registry

/-! ## Moves -/

namespace Dispatcher

variable {s s' : Dispatcher C K} {l : DispatcherStep C K}

/-- The thread is in `recv`. -/
def Idle (s : Dispatcher C K) (c : C) : Prop :=
  (s.thread c).returned = false ∧ (s.thread c).keys = []

lemma idle_of_not {c : C} (h : ¬ ((s.thread c).returned = true ∨ (s.thread c).keys ≠ [])) :
    s.Idle c := by
  obtain ⟨hreturned, hkeys⟩ := not_or.1 h
  exact ⟨Bool.eq_false_iff.2 hreturned, not_not.1 hkeys⟩

variable [DecidableEq C]

lemma thread_setThread_of_ne {a c : C} (t : RunThread) (ha : a ≠ c) :
    (s.setThread a t).thread c = s.thread c := by
  simp only [setThread, Function.update_of_ne ha.symm]

@[simp] lemma thread_setThread_self (c : C) (t : RunThread) : (s.setThread c t).thread c = t := by
  simp only [setThread, Function.update_self]

variable [Arith K]

/-- `GetCN` has found its node. -/
def found (s : Dispatcher C K) (c : C) (key : ℤ) (keys : List ℤ) : Dispatcher C K :=
  { s.setThread c { s.thread c with keys := keys } with
    registry := if (s.thread c).binding then
      s.registry.modify key fun cn => { cn with weight := cn.weight + 1 } else s.registry }

/-- `Run` has returned. -/
def leave (s : Dispatcher C K) (c : C) : Dispatcher C K :=
  s.setThread c { s.thread c with returned := true }

omit [Arith K] in
@[simp] lemma keys_leave (c c' : C) : ((s.leave c).thread c').keys = (s.thread c').keys := by
  by_cases hc : c = c'
  · subst hc
    rw [leave, thread_setThread_self]
  · rw [leave, thread_setThread_of_ne _ hc]

/-- The moves of the dispatcher. -/
inductive Moves (s : Dispatcher C K) : DispatcherStep C K → Dispatcher C K → Prop
  | receive {c m junk} (hidle : s.Idle c) : Moves s (.receive c m junk) (s.handle c m junk)
  | found {c key keys} (hkeys : (s.thread c).keys = key :: keys) (hmem : key ∈ s.registry.ids) :
      Moves s (.getCN c) (s.found c key keys)
  | missed {c key keys} (hkeys : (s.thread c).keys = key :: keys) (hmem : key ∉ s.registry.ids) :
      Moves s (.getCN c) { s with down := true }
  | leave {c orderly} (hidle : s.Idle c)
      (hstay : ¬ (orderly = true ∧ (s.thread c).clientType = .cn)) :
      Moves s (.close c orderly) (s.leave c)
  | deregister {c} (hidle : s.Idle c) (hcn : (s.thread c).clientType = .cn) :
      Moves s (.close c true)
        { s.leave c with registry := s.registry.delCN (s.thread c).cnId }
  | reorder {i} : Moves s (.reorder i) { s with registry := s.registry.reorder i }

lemma moves_getCN {c : C} (h : s.getCN c = some s') : s.Moves (.getCN c) s' := by
  unfold Dispatcher.getCN at h
  split at h
  · cases h
  · rename_i key keys hkeys
    split at h
    · rename_i hnone
      cases h
      exact .missed hkeys (Registry.getCN_eq_none_iff.1 hnone)
    · rename_i cn hsome
      have hmem : key ∈ s.registry.ids := Registry.isSome_getCN_iff.1 (by rw [hsome]; rfl)
      have hmove := Moves.found hkeys hmem
      have heq : s.found c key keys = s' := by
        rw [← Option.some.inj h, Dispatcher.found]
        split <;> rfl
      exact heq ▸ hmove

lemma moves_close {c : C} {orderly : Bool} (h : s.close c orderly = some s') :
    s.Moves (.close c orderly) s' := by
  unfold Dispatcher.close at h
  simp only at h
  split at h
  · cases h
  · rename_i hidle
    split at h
    · rename_i hcn
      obtain ⟨rfl, hcn⟩ := hcn
      cases h
      exact .deregister (idle_of_not hidle) hcn
    · rename_i hstay
      cases h
      exact .leave (idle_of_not hidle) hstay

@[simp] lemma ids_found {c : C} {key : ℤ} {keys : List ℤ} :
    (s.found c key keys).registry.ids = s.registry.ids := by
  simp only [found]
  split
  · exact Registry.ids_modify _ _
  · rfl

lemma ids_handle_cnReg {c : C} {capacity : K} {junk : ℕ → ℤ} :
    (s.handle c (.cnReg capacity) junk).registry.ids = s.registry.ids ++ [s.registry.cnId + 1] :=
  Registry.ids_addCN capacity

/-- No handler takes a node off. -/
lemma mem_ids_handle {id : ℤ} (hid : id ∈ s.registry.ids) {c : C} {m : DispatcherMsg K}
    {junk : ℕ → ℤ} : id ∈ (s.handle c m junk).registry.ids := by
  cases m with
  | cnReg capacity =>
      rw [ids_handle_cnReg]
      exact List.mem_append_left _ hid
  | loadInfo cnId weight usedTime => simpa [Dispatcher.handle] using hid
  | getBestCN levelCnt =>
      simp only [Dispatcher.handle]
      split <;> exact hid
  | _ => exact hid

/-- An orderly end takes one node of its connection off, and nothing else takes a node off. -/
lemma mem_ids_of_moves (hs : s.Moves l s') {id : ℤ} (hid : id ∈ s.registry.ids) :
    id ∈ s'.registry.ids ∨ ∃ c, l = .close c true ∧ (s.thread c).clientType = .cn ∧
      id = (s.thread c).cnId := by
  cases hs with
  | receive hidle => exact Or.inl (mem_ids_handle hid)
  | found hkeys hmem => exact Or.inl (by rwa [ids_found])
  | missed hkeys hmem => exact Or.inl hid
  | leave hidle hstay => exact Or.inl hid
  | @deregister a hidle hcn =>
      by_cases heq : id = (s.thread a).cnId
      · exact Or.inr ⟨a, rfl, hcn, heq⟩
      · exact Or.inl (Registry.mem_ids_delCN.2 ⟨hid, heq⟩)
  | reorder => exact Or.inl (Registry.mem_ids_reorder.2 hid)

/-- A step is one of the moves, of a process that is up. -/
theorem moves_of_step (h : dispatcher.step s l = some s') : s.down = false ∧ s.Moves l s' := by
  change (if s.down = true then none else s.move l) = some s' at h
  split at h
  · cases h
  · rename_i hdown
    refine ⟨Bool.eq_false_iff.2 hdown, ?_⟩
    cases l with
    | receive c m junk =>
        change s.receive c m junk = some s' at h
        unfold Dispatcher.receive at h
        split at h
        · cases h
        · rename_i hidle
          cases h
          exact .receive (idle_of_not hidle)
    | getCN c => exact moves_getCN h
    | close c orderly => exact moves_close h
    | reorder i =>
        cases h
        exact .reorder

end Dispatcher

/-! ## Invariants of the registry -/

/-- The messages that are received meet a condition. -/
def DispatcherStep.Receives (ok : DispatcherMsg K → Prop) : DispatcherStep C K → Prop
  | receive _ m _ => ok m
  | _ => True

/-- Every operation keeps `P`, on messages that are `ok`. -/
structure Registry.Stable [Arith K] (P : Registry K → Prop) (ok : DispatcherMsg K → Prop) :
    Prop where
  loadInfo : ∀ r cnId weight usedTime, P r → ok (.loadInfo cnId weight usedTime) →
    P ((r.updateCNWeight cnId weight).2.updateCNUsedTime cnId usedTime).2
  cnReg : ∀ r capacity, P r → ok (.cnReg capacity) → P (r.addCN capacity).2
  binding : ∀ r key, P r → P (r.modify key fun cn => { cn with weight := cn.weight + 1 })
  delCN : ∀ r cnId, P r → P (r.delCN cnId)
  reorder : ∀ r i, P r → P (r.reorder i)

namespace Registry.Stable

variable [DecidableEq C] [Arith K] {P : Registry K → Prop} {ok : DispatcherMsg K → Prop}
  {s s' : Dispatcher C K}

lemma handle (hP : Registry.Stable P ok) (h : P s.registry) {c : C} {m : DispatcherMsg K}
    (hm : ok m) (junk : ℕ → ℤ) : P (s.handle c m junk).registry := by
  cases m with
  | loadInfo cnId weight usedTime => exact hP.loadInfo _ _ _ _ h hm
  | cnReg capacity => exact hP.cnReg _ _ h hm
  | getBestCN levelCnt =>
      simp only [Dispatcher.handle]
      split <;> exact h
  | _ => exact h

lemma step (hP : Registry.Stable P ok) (h : P s.registry) {l : DispatcherStep C K}
    (hl : l.Receives ok) (hs : s.Moves l s') : P s'.registry := by
  cases hs with
  | receive hidle => exact hP.handle h hl _
  | @found c key keys hkeys hmem =>
      simp only [Dispatcher.found]
      split
      · exact hP.binding _ _ h
      · exact h
  | missed hkeys hmem => exact h
  | leave hidle hstay => exact h
  | deregister hidle hcn => exact hP.delCN _ _ h
  | reorder => exact hP.reorder _ _ h

/-- What every operation keeps holds after a run. -/
theorem run (hP : Registry.Stable P ok) (hinit : P Registry.init) {ls : List (DispatcherStep C K)}
    (hls : ∀ l ∈ ls, l.Receives ok) (h : dispatcher.exec Dispatcher.init ls = some s) :
    P s.registry := by
  have hall : dispatcher.AllSteps (fun (_ : Dispatcher C K) l => l.Receives ok)
      Dispatcher.init ls := dispatcher.allSteps_of_forall_mem fun l hl _ => hls l hl
  exact dispatcher.invariant_of_allSteps (I := fun s => P s.registry) hinit
    (fun _ _ _ hPs hl hs => hP.step hPs hl (Dispatcher.moves_of_step hs).2) hall h

end Registry.Stable

section Runs

variable [DecidableEq C] [Arith K] {s : Dispatcher C K} {ls : List (DispatcherStep C K)}

lemma Registry.Numbered.stable :
    Registry.Stable (Registry.Numbered (K := K)) fun _ => True where
  loadInfo := fun r cnId weight usedTime h _ => h.congr (by simp) (by simp)
  cnReg := fun _ capacity h _ => h.addCN capacity
  binding := fun r key h => h.congr (by simp) rfl
  delCN := fun _ cnId h => h.delCN cnId
  reorder := fun r i h => h.congr ((r.reorder_perm i).map Prod.fst) rfl

theorem numbered_of_exec (h : dispatcher.exec Dispatcher.init ls = some s) : s.registry.Numbered :=
  Registry.Numbered.stable.run Registry.Numbered.init
    (fun l _ => by cases l <;> exact trivial) h

end Runs

end ElasticFramework
