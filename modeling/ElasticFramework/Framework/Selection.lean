import Mathlib.Order.Lattice
import Mathlib.Data.List.Basic
import Mathlib.Data.List.Induction

/-!
# First strict improvement over a list

The loop "remember the best score so far; on a candidate with a strictly larger score, take the
candidate" is `bestFrom`: a fold whose accumulator is the best score with the candidate that
gave it.  Entries that fail a guard are passed over.

## What needs an order and what does not

That a candidate returned is an entry of the list that passes the guard (`bestFrom_mem`), and that
there is one once some admissible entry beats the starting bound (`bestFrom_some_of_lt`), holds for
any comparison at all, so it survives arithmetic with rounding or with incomparable values.  Over a
linear order the fold computes a maximum: `bestFrom_max` with `bestFrom_score` say that what it
returns is one, `bestFrom_first` and `bestFrom_split` that it is the first of them, and
`bestFrom_forall_iff` what it takes for all that can be returned to have a property.
-/

namespace ElasticFramework

variable {α K : Type*}

section Comparison

variable [LT K] [DecidableLT K]

/-- One entry of the loop: pass over it, or take it when its score beats the best so far. -/
def improve (p : α → Bool) (f : α → K) (acc : K × Option α) (a : α) : K × Option α :=
  if p a then if acc.1 < f a then (f a, some a) else acc else acc

/-- The loop, from a starting score and candidate. -/
def bestFrom (p : α → Bool) (f : α → K) (acc : K × Option α) (l : List α) : K × Option α :=
  l.foldl (improve p f) acc

variable {p : α → Bool} {f : α → K}

@[simp] lemma bestFrom_nil (acc : K × Option α) : bestFrom p f acc [] = acc := rfl

@[simp] lemma bestFrom_cons (acc : K × Option α) (a : α) (l : List α) :
    bestFrom p f acc (a :: l) = bestFrom p f (improve p f acc a) l := rfl

lemma improve_cases (acc : K × Option α) (a : α) :
    improve p f acc a = acc ∨
      p a = true ∧ acc.1 < f a ∧ improve p f acc a = (f a, some a) := by
  unfold improve
  by_cases hp : p a = true
  · by_cases hlt : acc.1 < f a
    · exact Or.inr ⟨hp, hlt, by simp [hp, hlt]⟩
    · exact Or.inl (by simp [hlt])
  · exact Or.inl (by simp [hp])

/-- The loop ends where it started or at an entry that passes the guard, with its score. -/
lemma bestFrom_cases (acc : K × Option α) (l : List α) :
    bestFrom p f acc l = acc ∨
      ∃ a ∈ l, p a = true ∧ bestFrom p f acc l = (f a, some a) := by
  induction l generalizing acc with
  | nil => exact Or.inl rfl
  | cons x l ih =>
      rw [bestFrom_cons]
      rcases ih (improve p f acc x) with h | ⟨a, ha, hp, h⟩
      · rw [h]
        rcases improve_cases (p := p) (f := f) acc x with hx | ⟨hp, -, hx⟩
        · exact Or.inl hx
        · exact Or.inr ⟨x, List.mem_cons_self .., hp, hx⟩
      · exact Or.inr ⟨a, List.mem_cons_of_mem _ ha, hp, h⟩

/-- A candidate returned by a loop that started without one is an admissible entry. -/
lemma bestFrom_mem {b : K} {l : List α} {a : α} (h : (bestFrom p f (b, none) l).2 = some a) :
    a ∈ l ∧ p a = true := by
  rcases bestFrom_cases (p := p) (f := f) (b, none) l with h' | ⟨c, hc, hp, h'⟩
  · rw [h'] at h
    cases h
  · rw [h'] at h
    cases h
    exact ⟨hc, hp⟩

lemma bestFrom_append (acc : K × Option α) (l m : List α) :
    bestFrom p f acc (l ++ m) = bestFrom p f (bestFrom p f acc l) m :=
  List.foldl_append ..

/-- Once some admissible entry beats the starting bound, a candidate is returned. -/
lemma bestFrom_some_of_lt {b : K} {l : List α} {a : α} (ha : a ∈ l) (hp : p a = true)
    (hlt : b < f a) : ∃ c, (bestFrom p f (b, none) l).2 = some c := by
  induction l with
  | nil => cases ha
  | cons x l ih =>
      rw [bestFrom_cons]
      by_cases hx : p x = true ∧ b < f x
      · have hstep : improve p f (b, none) x = (f x, some x) := by simp [improve, hx.1, hx.2]
        rw [hstep]
        rcases bestFrom_cases (p := p) (f := f) (f x, some x) l with h | ⟨c, -, -, h⟩
        · exact ⟨x, by rw [h]⟩
        · exact ⟨c, by rw [h]⟩
      · have hstep : improve p f (b, none) x = (b, none) := by
          rcases improve_cases (p := p) (f := f) (b, none) x with h | ⟨hpx, hbx, -⟩
          · exact h
          · exact absurd ⟨hpx, hbx⟩ hx
        have hne : a ≠ x := by
          rintro rfl
          exact hx ⟨hp, hlt⟩
        rw [hstep]
        exact ih ((List.mem_cons.1 ha).resolve_left hne)

/-- When every admissible entry beats the starting bound, there is a candidate unless there is no
admissible entry. -/
lemma bestFrom_none_iff {b : K} {l : List α} (h : ∀ a ∈ l, p a = true → b < f a) :
    (bestFrom p f (b, none) l).2 = none ↔ ∀ a ∈ l, p a = false := by
  constructor
  · intro hnone a ha
    by_contra hp
    rw [Bool.not_eq_false] at hp
    obtain ⟨c, hc⟩ := bestFrom_some_of_lt ha hp (h a ha hp)
    rw [hnone] at hc
    cases hc
  · intro hnone
    rw [Option.eq_none_iff_forall_ne_some]
    intro c hc
    obtain ⟨hmem, hp⟩ := bestFrom_mem hc
    rw [hnone c hmem] at hp
    cases hp

end Comparison

section Order

variable [LinearOrder K] [DecidableLT K] {p : α → Bool} {f : α → K}

lemma le_improve (acc : K × Option α) (a : α) : acc.1 ≤ (improve p f acc a).1 := by
  rcases improve_cases (p := p) (f := f) acc a with h | ⟨-, hlt, h⟩
  · rw [h]
  · rw [h]
    exact hlt.le

lemma le_bestFrom (acc : K × Option α) (l : List α) : acc.1 ≤ (bestFrom p f acc l).1 := by
  induction l generalizing acc with
  | nil => exact le_rfl
  | cons x l ih => exact (le_improve acc x).trans (ih _)

lemma le_improve_of_guard (acc : K × Option α) {a : α} (hp : p a = true) :
    f a ≤ (improve p f acc a).1 := by
  unfold improve
  by_cases hlt : acc.1 < f a
  · simp [hp, hlt]
  · simpa [hp, hlt] using not_lt.1 hlt

/-- The final score is at least the score of every admissible entry. -/
lemma bestFrom_max (acc : K × Option α) {l : List α} {a : α} (ha : a ∈ l) (hp : p a = true) :
    f a ≤ (bestFrom p f acc l).1 := by
  induction l generalizing acc with
  | nil => simp at ha
  | cons x l ih =>
      rcases List.mem_cons.1 ha with rfl | ha
      · exact (le_improve_of_guard acc hp).trans (le_bestFrom _ l)
      · exact ih _ ha

/-- A candidate returned beats the starting bound and carries the final score. -/
lemma bestFrom_score {b : K} {l : List α} {a : α}
    (h : (bestFrom p f (b, none) l).2 = some a) : (bestFrom p f (b, none) l).1 = f a := by
  rcases bestFrom_cases (p := p) (f := f) (b, none) l with h' | ⟨c, -, -, h'⟩
  · rw [h'] at h
    cases h
  · rw [h'] at h ⊢
    cases h
    rfl

/-- What is chosen has been chosen before the last entry, which does not beat it, or is that
entry. -/
lemma bestFrom_concat_cases {b : K} {l : List α} {y a : α}
    (h : (bestFrom p f (b, none) (l ++ [y])).2 = some a) :
    ((bestFrom p f (b, none) l).2 = some a ∧ (p y = true → f y ≤ f a)) ∨
      (a = y ∧ (bestFrom p f (b, none) l).1 < f y) := by
  rw [bestFrom_append, bestFrom_cons, bestFrom_nil] at h
  rcases improve_cases (p := p) (f := f) (bestFrom p f (b, none) l) y with hy | ⟨-, hlt, hy⟩
  · rw [hy] at h
    refine Or.inl ⟨h, fun hp => ?_⟩
    have hle := le_improve_of_guard (f := f) (bestFrom p f (b, none) l) hp
    rwa [hy, bestFrom_score h] at hle
  · rw [hy] at h
    cases h
    exact Or.inr ⟨rfl, hlt⟩

lemma bestFrom_lt {b : K} {l : List α} {a : α} (h : (bestFrom p f (b, none) l).2 = some a) :
    b < f a := by
  induction l using List.reverseRecOn with
  | nil => cases h
  | append_singleton l y ih =>
      rcases bestFrom_concat_cases h with ⟨h, -⟩ | ⟨rfl, hlt⟩
      · exact ih h
      · exact (le_bestFrom _ l).trans_lt hlt

/-- The loop keeps what it has when nothing beats it. -/
lemma bestFrom_of_le {acc : K × Option α} {l : List α} (h : ∀ x ∈ l, f x ≤ acc.1) :
    bestFrom p f acc l = acc := by
  induction l with
  | nil => rfl
  | cons x l ih =>
      obtain ⟨hx, hl⟩ := List.forall_mem_cons.1 h
      have hstep : improve p f acc x = acc := by simp [improve, not_lt.2 hx]
      rw [bestFrom_cons, hstep]
      exact ih hl

/-- Among entries of the same score the loop takes the first. -/
lemma bestFrom_first {b : K} {pre post : List α} {a : α} (hp : p a = true) (hb : b < f a)
    (hpre : ∀ x ∈ pre, f x < f a) (hpost : ∀ x ∈ post, f x ≤ f a) :
    bestFrom p f (b, none) (pre ++ a :: post) = (f a, some a) := by
  have hlt : (bestFrom p f (b, none) pre).1 < f a := by
    rcases bestFrom_cases (p := p) (f := f) (b, none) pre with h | ⟨x, hx, -, h⟩
    · rw [h]
      exact hb
    · rw [h]
      exact hpre x hx
  have htake : improve p f (bestFrom p f (b, none) pre) a = (f a, some a) := by
    simp [improve, hp, hlt]
  rw [bestFrom_append, bestFrom_cons, htake]
  exact bestFrom_of_le hpost

/-- The loop returns the first maximum of the admissible entries. -/
lemma bestFrom_split {b : K} {l : List α} {a : α} (h : (bestFrom p f (b, none) l).2 = some a) :
    ∃ pre post, l = pre ++ a :: post ∧ (∀ x ∈ pre, p x = true → f x < f a) ∧
      ∀ x ∈ post, p x = true → f x ≤ f a := by
  induction l using List.reverseRecOn with
  | nil => cases h
  | append_singleton l y ih =>
      rcases bestFrom_concat_cases h with ⟨h, hy⟩ | ⟨rfl, hlt⟩
      · obtain ⟨pre, post, rfl, hpre, hpost⟩ := ih h
        refine ⟨pre, post ++ [y], by simp, hpre, fun x hx hp => ?_⟩
        rcases List.mem_append.1 hx with hx | hx
        · exact hpost x hx hp
        · rw [List.mem_singleton.1 hx] at hp ⊢
          exact hy hp
      · exact ⟨l, [], rfl, fun x hx hp => (bestFrom_max _ hx hp).trans_lt hlt, by simp⟩

/-- What the loop returns has a property exactly when every admissible entry without it is beaten by
one with it: by a larger score, or by one as large in front of it. -/
lemma bestFrom_forall_iff {g : α → Prop} {b : K} {l : List α} :
    (∀ a, (bestFrom p f (b, none) l).2 = some a → g a) ↔
      ∀ pre a post, l = pre ++ a :: post → p a = true → b < f a → ¬ g a →
        (∃ e ∈ pre, p e = true ∧ g e ∧ f a ≤ f e) ∨
          ∃ e ∈ post, p e = true ∧ g e ∧ f a < f e := by
  constructor
  · rintro h pre a post rfl ha hb hg
    obtain ⟨e, he⟩ := bestFrom_some_of_lt (l := pre ++ a :: post) (by simp) ha hb
    obtain ⟨-, hp⟩ := bestFrom_mem he
    have hge := h e he
    obtain ⟨pre', post', hsplit, hpre, hpost⟩ := bestFrom_split he
    -- Where `e` stands, seen from `a`.
    rcases List.append_eq_append_iff.1 hsplit with ⟨mid, hpre', hmid⟩ | ⟨mid, hpre', hmid⟩
    · cases mid with
      | nil =>
          cases hmid
          exact absurd hge hg
      | cons x mid =>
          obtain ⟨rfl, rfl⟩ := List.cons.inj hmid
          refine Or.inr ⟨e, by simp, hp, hge, hpre a ?_ ha⟩
          rw [hpre']
          simp
    · cases mid with
      | nil =>
          cases hmid
          exact absurd hge hg
      | cons x mid =>
          obtain ⟨rfl, rfl⟩ := List.cons.inj hmid
          refine Or.inl ⟨e, ?_, hp, hge, hpost a (by simp) ha⟩
          rw [hpre']
          simp
  · intro h a ha
    by_contra hg
    obtain ⟨-, hp⟩ := bestFrom_mem ha
    obtain ⟨pre, post, rfl, hpre, hpost⟩ := bestFrom_split ha
    rcases h pre a post rfl hp (bestFrom_lt ha) hg with ⟨e, he, hpe, -, hle⟩ | ⟨e, he, hpe, -, hlt⟩
    · exact absurd (hpre e he hpe) (not_lt.2 hle)
    · exact absurd (hpost e he hpe) (not_le.2 hlt)

/-- A list has a first maximum. -/
lemma exists_first_max (f : α → K) {l : List α} (hl : l ≠ []) :
    ∃ pre a post, l = pre ++ a :: post ∧ (∀ x ∈ pre, f x < f a) ∧ ∀ x ∈ post, f x ≤ f a := by
  induction l with
  | nil => exact absurd rfl hl
  | cons y l ih =>
      rcases eq_or_ne l [] with rfl | hne
      · exact ⟨[], y, [], rfl, by simp, by simp⟩
      · obtain ⟨pre, a, post, rfl, hpre, hpost⟩ := ih hne
        by_cases hy : f y < f a
        · refine ⟨y :: pre, a, post, rfl, ?_, hpost⟩
          exact List.forall_mem_cons.2 ⟨hy, hpre⟩
        · have hle : f a ≤ f y := not_lt.1 hy
          refine ⟨[], y, pre ++ a :: post, rfl, by simp, fun x hx => ?_⟩
          rcases List.mem_append.1 hx with hx | hx
          · exact (hpre x hx).le.trans hle
          · rcases List.mem_cons.1 hx with rfl | hx
            · exact hle
            · exact (hpost x hx).trans hle

end Order

end ElasticFramework
