import Mathlib.Algebra.BigOperators.Ring.Finset
import Mathlib.Data.Fintype.Basic
import Mathlib.Tactic.Abel

/-!
# Sums and counts under a change at one point

A state machine whose state is a family indexed by queues or threads changes one member at a
time.  The lemmas here say what that does to a sum or a count over the family, in a form
without subtraction: new total plus old value is old total plus new value.

`sum_map_update` is the statement over a list without repetitions, `countP_update` its reading
for counts, and `card_filter_update` the count over a finite index type.  `sum_map_congr_of_ne`
and `card_filter_congr` are the cases in which nothing changes, and `apply_update_eq` the case
in which the change is not seen by the function at hand.
-/

namespace ElasticFramework

/-- A change at one index that `f` does not see is not seen at any index. -/
lemma apply_update_eq {ι α β : Type*} [DecidableEq ι] {f : α → β} {g : ι → α} {i : ι} {a : α}
    (h : f a = f (g i)) (j : ι) : f (Function.update g i a j) = f (g j) := by
  by_cases hj : j = i
  · subst hj
    simpa using h
  · rw [Function.update_of_ne hj]

section Lists

variable {α M : Type*} [AddCommMonoid M]

/-- Changing a function at one entry of a list without repetitions moves the sum by exactly
the change at that entry. -/
lemma sum_map_update {l : List α} (hl : l.Nodup) {a : α} (ha : a ∈ l) {f g : α → M}
    (h : ∀ b ∈ l, b ≠ a → g b = f b) :
    (l.map g).sum + f a = (l.map f).sum + g a := by
  induction l with
  | nil => simp at ha
  | cons x l ih =>
      obtain ⟨hx, hl⟩ := List.nodup_cons.1 hl
      simp only [List.map_cons, List.sum_cons]
      rcases List.mem_cons.1 ha with rfl | ha
      · -- The entry is the head, so the tails agree.
        have htail : l.map g = l.map f := by
          refine List.map_congr_left fun b hb => h b (List.mem_cons_of_mem _ hb) ?_
          rintro rfl
          exact hx hb
        rw [htail]
        abel
      · have hxa : x ≠ a := by
          rintro rfl
          exact hx ha
        have hstep := ih hl ha fun b hb => h b (List.mem_cons_of_mem _ hb)
        rw [h x (List.mem_cons_self ..) hxa, add_assoc, hstep, add_assoc]

lemma sum_map_congr_of_ne {l : List α} {a : α} (ha : a ∉ l) {f g : α → M}
    (h : ∀ b, b ≠ a → g b = f b) : (l.map g).sum = (l.map f).sum := by
  congr 1
  refine List.map_congr_left fun b hb => h b ?_
  rintro rfl
  exact ha hb

/-- The count of `p` over a list as a sum of ones and zeros. -/
lemma countP_eq_sum_map (p : α → Bool) (l : List α) :
    l.countP p = (l.map fun a => if p a then 1 else 0).sum := by
  induction l with
  | nil => rfl
  | cons x l ih => cases h : p x <;> simp [ih, h, add_comm]

/-- The count after a predicate changes at one entry. -/
lemma countP_update {l : List α} (hl : l.Nodup) {a : α} (ha : a ∈ l) {p q : α → Bool}
    (h : ∀ b ∈ l, b ≠ a → q b = p b) :
    l.countP q + (if p a then 1 else 0) = l.countP p + (if q a then 1 else 0) := by
  rw [countP_eq_sum_map, countP_eq_sum_map]
  exact sum_map_update (f := fun b => if p b then 1 else 0)
    (g := fun b => if q b then 1 else 0) hl ha fun b hb hba => by simp only [h b hb hba]

end Lists

section Finite

variable {ι : Type*} [Fintype ι]

/-- The number of indices with a property after the property changes at one index. -/
lemma card_filter_update [DecidableEq ι] (i : ι) {p q : ι → Prop} [DecidablePred p]
    [DecidablePred q] (h : ∀ j, j ≠ i → (q j ↔ p j)) :
    (Finset.univ.filter q).card + (if p i then 1 else 0) =
      (Finset.univ.filter p).card + (if q i then 1 else 0) := by
  simp only [Finset.card_filter]
  have hrest : ∑ j ∈ Finset.univ.erase i, (if q j then 1 else 0) =
      ∑ j ∈ Finset.univ.erase i, (if p j then 1 else 0) :=
    Finset.sum_congr rfl fun j hj => by simp only [h j (Finset.ne_of_mem_erase hj)]
  rw [← Finset.add_sum_erase _ _ (Finset.mem_univ i),
    ← Finset.add_sum_erase (Finset.univ : Finset ι) (fun j => if p j then 1 else 0)
      (Finset.mem_univ i), hrest]
  omega

lemma card_filter_congr {p q : ι → Prop} [DecidablePred p] [DecidablePred q]
    (h : ∀ j, q j ↔ p j) : (Finset.univ.filter q).card = (Finset.univ.filter p).card := by
  simp only [h]

end Finite

end ElasticFramework
