import Mathlib.Tactic.Common

/-!
# Readers of a stream

A `Reader` takes tokens off the front of a stream and either returns a value or stops with a
reason; what it has not taken is kept in both cases.

## Specifications

`Yields r input x` says that `r` takes exactly `input`, whatever follows it, and comes to `x`.  It
composes along `bind` (`Yields.bind`, `Yields.bind_error`), so the specification of a protocol
handler is put together from those of its reads.

`Takes r n` says that `r` takes `n` tokens whenever it returns, whatever they are.  It is what a
reader can be refuted with: one that takes fewer tokens than were sent for it has not read them
all.
-/

namespace ElasticFramework

universe u

variable {β ε : Type*} {α γ : Type u}

/-- Take tokens off a stream: a value or the reason to stop, and what is left. -/
def Reader (β ε α : Type*) := List β → Except ε α × List β

namespace Reader

instance : Monad (Reader β ε) where
  pure a := fun l => (.ok a, l)
  bind r f := fun l =>
    match r l with
    | (.ok a, l) => f a l
    | (.error e, l) => (.error e, l)

lemma bind_ok {r : Reader β ε α} {f : α → Reader β ε γ} {l l' : List β} {a : α}
    (h : r l = (.ok a, l')) : (r >>= f) l = f a l' := by
  show (match r l with
    | (.ok a, l) => f a l
    | (.error e, l) => (.error e, l)) = _
  rw [h]

lemma bind_error {r : Reader β ε α} {f : α → Reader β ε γ} {l l' : List β} {e : ε}
    (h : r l = (.error e, l')) : (r >>= f) l = (.error e, l') := by
  show (match r l with
    | (.ok a, l) => f a l
    | (.error e, l) => (.error e, l)) = _
  rw [h]

lemma bind_eq_ok {r : Reader β ε α} {f : α → Reader β ε γ} {l l' : List β} {c : γ}
    (h : (r >>= f) l = (.ok c, l')) : ∃ a l₁, r l = (.ok a, l₁) ∧ f a l₁ = (.ok c, l') := by
  cases hr : r l with
  | mk x l₁ =>
      cases x with
      | ok a =>
          rw [bind_ok hr] at h
          exact ⟨a, l₁, rfl, h⟩
      | error e =>
          rw [bind_error hr] at h
          cases (Prod.mk.inj h).1

/-- What follows a read matters for the values the read can come to. -/
lemma bind_congr {r : Reader β ε α} {f g : α → Reader β ε γ}
    (h : ∀ l a l', r l = (.ok a, l') → f a = g a) : r >>= f = r >>= g := by
  funext l
  cases hr : r l with
  | mk x l' =>
      cases x with
      | ok a => rw [bind_ok hr, bind_ok hr, h l a l' hr]
      | error e => rw [bind_error hr, bind_error hr]

lemma bind_pure (r : Reader β ε α) : r >>= pure = r := by
  funext l
  cases hr : r l with
  | mk x l' =>
      cases x with
      | ok a => exact bind_ok hr
      | error e => exact bind_error hr

lemma bind_assoc {δ : Type u} (r : Reader β ε α) (f : α → Reader β ε γ) (g : γ → Reader β ε δ) :
    r >>= f >>= g = r >>= fun a => f a >>= g := by
  funext l
  cases hr : r l with
  | mk x l' =>
      cases x with
      | ok a =>
          have hrf : (r >>= f) l = f a l' := bind_ok hr
          rw [bind_ok (r := r) hr]
          cases hf : f a l' with
          | mk y l'' =>
              rw [hf] at hrf
              cases y with
              | ok c => rw [bind_ok (r := r >>= f) hrf, bind_ok (r := f a) hf]
              | error e => rw [bind_error (r := r >>= f) hrf, bind_error (r := f a) hf]
      | error e =>
          have hrf : (r >>= f) l = (.error e, l') := bind_error hr
          rw [bind_error (r := r >>= f) hrf, bind_error (r := r) hr]

/-- Stop for a reason. -/
def stop (e : ε) : Reader β ε α := fun l => (.error e, l)

/-- A value, or a reason to stop when there is none. -/
def orStop (e : ε) : Option α → Reader β ε α
  | some a => pure a
  | none => stop e

/-- The next `n` tokens; `short` when there are fewer. -/
def next (short : ε) (n : ℕ) : Reader β ε (List β) := fun l =>
  if n ≤ l.length then (.ok (l.take n), l.drop n) else (.error short, l)

/-! ## What a reader takes and comes to -/

/-- The reader takes exactly `input` and comes to `x`. -/
def Yields (r : Reader β ε α) (input : List β) (x : Except ε α) : Prop :=
  ∀ rest, r (input ++ rest) = (x, rest)

namespace Yields

lemma pure (a : α) : Yields (Pure.pure a : Reader β ε α) [] (.ok a) := fun _ => rfl

lemma stop (e : ε) : Yields (stop e : Reader β ε α) [] (.error e) := fun _ => rfl

lemma orStop_some (e : ε) (a : α) : Yields (orStop e (some a) : Reader β ε α) [] (.ok a) :=
  fun _ => rfl

lemma next (short : ε) (input : List β) :
    Yields (next short input.length) input (.ok input) := by
  intro rest
  have hle : input.length ≤ (input ++ rest).length := by
    rw [List.length_append]
    omega
  rw [Reader.next, if_pos hle, List.take_left, List.drop_left]

lemma bind {r : Reader β ε α} {f : α → Reader β ε γ} {input more : List β} {a : α}
    {x : Except ε γ} (hr : Yields r input (.ok a)) (hf : Yields (f a) more x) :
    Yields (r >>= f) (input ++ more) x := by
  intro rest
  rw [List.append_assoc, bind_ok (hr (more ++ rest))]
  exact hf rest

lemma bind_error {r : Reader β ε α} {f : α → Reader β ε γ} {input : List β} {e : ε}
    (hr : Yields r input (.error e)) : Yields (r >>= f) input (.error e) :=
  fun rest => Reader.bind_error (hr rest)

/-- A step that takes nothing. -/
lemma bind_nil {r : Reader β ε α} {f : α → Reader β ε γ} {input : List β} {a : α}
    {x : Except ε γ} (hr : Yields r [] (.ok a)) (hf : Yields (f a) input x) :
    Yields (r >>= f) input x :=
  bind hr hf

end Yields

/-- The reader takes `n` tokens whenever it returns. -/
def Takes (r : Reader β ε α) (n : ℕ) : Prop :=
  ∀ l a l', r l = (.ok a, l') → l.length = n + l'.length

namespace Takes

lemma pure (a : α) : Takes (Pure.pure a : Reader β ε α) 0 := by
  intro l a' l' h
  cases h
  omega

lemma stop (e : ε) (n : ℕ) : Takes (stop e : Reader β ε α) n := by
  intro l a l' h
  cases h

lemma ite {p : Prop} [Decidable p] {r s : Reader β ε α} {n : ℕ} (hr : Takes r n)
    (hs : Takes s n) : Takes (if p then r else s) n := by
  by_cases hp : p
  · rwa [if_pos hp]
  · rwa [if_neg hp]

lemma orStop (e : ε) (x : Option α) : Takes (orStop e x : Reader β ε α) 0 := by
  cases x with
  | none => exact stop e 0
  | some a => exact pure a

lemma next (short : ε) (n : ℕ) : Takes (next short n : Reader β ε (List β)) n := by
  intro l a l' h
  unfold Reader.next at h
  split at h
  · cases h
    rw [List.length_drop]
    omega
  · cases h

lemma bind {r : Reader β ε α} {f : α → Reader β ε γ} {n m : ℕ} (hr : Takes r n)
    (hf : ∀ a, Takes (f a) m) : Takes (r >>= f) (n + m) := by
  intro l c l' h
  obtain ⟨a, l₁, h₁, h₂⟩ := bind_eq_ok h
  have hn := hr l a l₁ h₁
  have hm := hf a l₁ c l' h₂
  omega

end Takes

/-- What follows the tokens the reader has taken makes no difference to it. -/
def Local (r : Reader β ε α) : Prop :=
  ∀ l a l', r l = (.ok a, l') → ∀ rest, r (l ++ rest) = (.ok a, l' ++ rest)

namespace Local

lemma pure (a : α) : Local (Pure.pure a : Reader β ε α) := by
  intro l a' l' h rest
  cases h
  rfl

lemma stop (e : ε) : Local (stop e : Reader β ε α) := by
  intro l a l' h
  cases h

lemma ite {p : Prop} [Decidable p] {r s : Reader β ε α} (hr : Local r) (hs : Local s) :
    Local (if p then r else s) := by
  by_cases hp : p
  · rwa [if_pos hp]
  · rwa [if_neg hp]

lemma orStop (e : ε) (x : Option α) : Local (orStop e x : Reader β ε α) := by
  cases x with
  | none => exact stop e
  | some a => exact pure a

lemma next (short : ε) (n : ℕ) : Local (next short n : Reader β ε (List β)) := by
  intro l a l' h rest
  unfold Reader.next at h
  split at h
  · rename_i hle
    cases h
    have hle' : n ≤ (l ++ rest).length := by
      rw [List.length_append]
      omega
    rw [Reader.next, if_pos hle', List.take_append_of_le_length hle,
      List.drop_append_of_le_length hle]
  · cases h

lemma bind {r : Reader β ε α} {f : α → Reader β ε γ} (hr : Local r) (hf : ∀ a, Local (f a)) :
    Local (r >>= f) := by
  intro l c l' h rest
  obtain ⟨a, l₁, h₁, h₂⟩ := bind_eq_ok h
  rw [bind_ok (hr l a l₁ h₁ rest)]
  exact hf a l₁ c l' h₂ rest

end Local

end Reader

end ElasticFramework
