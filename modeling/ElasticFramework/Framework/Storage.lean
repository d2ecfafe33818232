import Mathlib.Algebra.Order.Ring.Nat

/-!
# Growing storage and references into it

A vector keeps its entries in one block of storage.  Appending to a full one asks for a larger
block and moves every entry there; a pointer taken before then points into storage that is gone.

`Storage` counts the blocks a vector has had, its `generation`, and `Reference` remembers the
generation it was taken in, so that a pointer that dangles is one of an earlier generation.  How
much a full vector is given is the library's affair (`Growth`); it is more than it had.

A reference into a vector that is not full survives `push` (`Denotes.push`); one into a full vector
becomes stale (`stale_push`), and stays so (`Stale.push`).
-/

namespace ElasticFramework

/-- How much storage a full vector of some capacity is given. -/
structure Growth where
  next : ℕ → ℕ
  lt_next : ∀ n, n < next n

/-- Twice as much, and something for a vector that had nothing. -/
def Growth.double : Growth where
  next n := 2 * n + (1 - n)
  lt_next n := by omega

/-- A vector: how often its entries have been moved, the entries, and the room there is. -/
structure Storage (α : Type*) where
  generation : ℕ
  entries : List α
  capacity : ℕ
  fits : entries.length ≤ capacity

/-- A pointer to an entry, with the generation it was taken in. -/
structure Reference where
  generation : ℕ
  index : ℕ
  deriving DecidableEq, Repr

namespace Storage

variable {α : Type*} {v : Storage α} {G : Growth} {r : Reference} {x : α}

def empty : Storage α where
  generation := 0
  entries := []
  capacity := 0
  fits := le_rfl

/-- The next entry will not fit. -/
def Full (v : Storage α) : Prop := v.entries.length = v.capacity

instance (v : Storage α) : Decidable v.Full := inferInstanceAs (Decidable (_ = _))

lemma length_push_le (G : Growth) (v : Storage α) (x : α) (h : v.Full) :
    (v.entries ++ [x]).length ≤ G.next v.capacity := by
  rw [List.length_append, h, List.length_singleton]
  exact G.lt_next v.capacity

lemma length_push_le_of_not_full (v : Storage α) (x : α) (h : ¬ v.Full) :
    (v.entries ++ [x]).length ≤ v.capacity := by
  rw [List.length_append, List.length_singleton]
  exact lt_of_le_of_ne v.fits h

/-- `push_back`. -/
def push (G : Growth) (v : Storage α) (x : α) : Storage α :=
  if h : v.Full then
    { generation := v.generation + 1
      entries := v.entries ++ [x]
      capacity := G.next v.capacity
      fits := length_push_le G v x h }
  else
    { v with entries := v.entries ++ [x], fits := length_push_le_of_not_full v x h }

@[simp] lemma entries_push : (v.push G x).entries = v.entries ++ [x] := by
  unfold push
  split <;> rfl

lemma generation_push_of_full (h : v.Full) : (v.push G x).generation = v.generation + 1 := by
  rw [push, dif_pos h]

lemma generation_push_of_not_full (h : ¬ v.Full) : (v.push G x).generation = v.generation := by
  rw [push, dif_neg h]

lemma generation_le_push : v.generation ≤ (v.push G x).generation := by
  by_cases h : v.Full
  · rw [generation_push_of_full h]
    exact Nat.le_succ _
  · rw [generation_push_of_not_full h]

/-! ## References -/

/-- `&v[i]`. -/
def ref (v : Storage α) (i : ℕ) : Reference := ⟨v.generation, i⟩

/-- The reference is into the storage the vector has now, at an entry. -/
def Denotes (v : Storage α) (r : Reference) : Prop :=
  r.generation = v.generation ∧ r.index < v.entries.length

instance (v : Storage α) (r : Reference) : Decidable (v.Denotes r) :=
  inferInstanceAs (Decidable (_ ∧ _))

/-- What is found through a reference, if anything is. -/
def deref (v : Storage α) (r : Reference) : Option α :=
  if r.generation = v.generation then v.entries[r.index]? else none

lemma denotes_ref {i : ℕ} (h : v.entries[i]? = some x) : v.Denotes (v.ref i) :=
  ⟨rfl, (List.getElem?_eq_some_iff.1 h).1⟩

/-- What a reference denotes is the entry with its index. -/
lemma deref_eq_some_iff : v.deref r = some x ↔ v.Denotes r ∧ v.entries[r.index]? = some x := by
  unfold deref Denotes
  constructor
  · intro h
    split at h
    · next hgen => exact ⟨⟨hgen, (List.getElem?_eq_some_iff.1 h).1⟩, h⟩
    · cases h
  · rintro ⟨⟨hgen, -⟩, h⟩
    rw [if_pos hgen, h]

lemma Denotes.deref (h : v.Denotes r) : ∃ x, v.deref r = some x :=
  ⟨_, deref_eq_some_iff.2 ⟨h, List.getElem?_eq_getElem h.2⟩⟩

/-- A vector with room leaves its entries where they are. -/
lemma Denotes.push (h : v.Denotes r) (hroom : ¬ v.Full) : (v.push G x).Denotes r := by
  refine ⟨h.1.trans (generation_push_of_not_full hroom).symm, ?_⟩
  rw [entries_push, List.length_append]
  exact Nat.lt_add_right _ h.2

/-! ## Stale references -/

/-- The storage the reference points into has been given back. -/
def Stale (v : Storage α) (r : Reference) : Prop := r.generation < v.generation

lemma Stale.not_denotes (h : v.Stale r) : ¬ v.Denotes r :=
  fun hr => h.ne hr.1

/-- A full vector moves all its entries. -/
lemma stale_push (h : r.generation ≤ v.generation) (hfull : v.Full) : (v.push G x).Stale r := by
  rw [Stale, generation_push_of_full hfull]
  exact Nat.lt_succ_of_le h

/-- Storage that has been given back is never the vector's again. -/
lemma Stale.push (h : v.Stale r) : (v.push G x).Stale r :=
  lt_of_lt_of_le h generation_le_push

end Storage

end ElasticFramework
