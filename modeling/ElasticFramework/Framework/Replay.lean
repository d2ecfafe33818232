import Mathlib.Data.List.Induction
import Mathlib.Logic.Function.Basic

/-!
# Replaying writes to a keyed store

A log of writes is a list of pairs of a key and a value, oldest first; `replay` applies it to a
store, a partial function on keys.  The store a replay leaves depends on the last write to each
key only (`replay_apply`), so two logs that agree key by key replay alike (`replay_congr`).

In particular a log may be split into classes and the classes replayed one after the other, as
long as no key has writes in two classes (`replay_partition`).  `replay_eq_self_iff` says when a
replay changes nothing.
-/

namespace ElasticFramework

variable {ι α : Type*} [DecidableEq ι]

/-- The writes to one key, in order. -/
def writesTo (i : ι) (l : List (ι × α)) : List (ι × α) := l.filter fun x => x.1 = i

/-- The value last written to a key. -/
def lastWrite (i : ι) (l : List (ι × α)) : Option α := (writesTo i l).getLast?.map Prod.snd

/-- Apply a log of writes, oldest first. -/
def replay (l : List (ι × α)) (f : ι → Option α) : ι → Option α :=
  l.foldl (fun f x => Function.update f x.1 (some x.2)) f

@[simp] lemma replay_nil (f : ι → Option α) : replay [] f = f := rfl

@[simp] lemma replay_cons (x : ι × α) (l : List (ι × α)) (f : ι → Option α) :
    replay (x :: l) f = replay l (Function.update f x.1 (some x.2)) := rfl

lemma replay_append (l m : List (ι × α)) (f : ι → Option α) :
    replay (l ++ m) f = replay m (replay l f) :=
  List.foldl_append

lemma replay_snoc (l : List (ι × α)) (x : ι × α) (f : ι → Option α) :
    replay (l ++ [x]) f = Function.update (replay l f) x.1 (some x.2) :=
  replay_append l [x] f

lemma lastWrite_snoc (i : ι) (l : List (ι × α)) (x : ι × α) :
    lastWrite i (l ++ [x]) = if x.1 = i then some x.2 else lastWrite i l := by
  by_cases hx : x.1 = i
  · simp [lastWrite, writesTo, hx]
  · simp [lastWrite, writesTo, hx]

lemma lastWrite_append (i : ι) (l m : List (ι × α)) :
    lastWrite i (l ++ m) = (lastWrite i m).or (lastWrite i l) := by
  rw [lastWrite, writesTo, List.filter_append, List.getLast?_append, Option.map_or]
  rfl

/-- A key holds its last write, and what it held before when there is none. -/
lemma replay_apply (l : List (ι × α)) (f : ι → Option α) (i : ι) :
    replay l f i = (lastWrite i l).or (f i) := by
  induction l using List.reverseRecOn with
  | nil => rfl
  | append_singleton l x ih =>
      rw [replay_snoc, lastWrite_snoc]
      by_cases hx : x.1 = i
      · subst hx
        simp
      · rw [Function.update_of_ne (Ne.symm hx), ih, if_neg hx]

/-- Logs that agree key by key replay alike. -/
lemma replay_congr {l m : List (ι × α)} (h : ∀ i, writesTo i l = writesTo i m)
    (f : ι → Option α) : replay l f = replay m f := by
  funext i
  rw [replay_apply, replay_apply, lastWrite, lastWrite, h i]

/-- Splitting a log into two classes of keys keeps the writes to each key. -/
lemma writesTo_partition {l : List (ι × α)} {p : ι × α → Bool} {c : ι → Bool}
    (h : ∀ x ∈ l, p x = c x.1) (i : ι) :
    writesTo i (l.filter p ++ l.filter fun x => !p x) = writesTo i l := by
  have hclass : ∀ q : ι × α → Bool, ∀ b : Bool, (∀ x ∈ l, x.1 = i → q x = b) →
      (l.filter q).filter (fun x => x.1 = i) = if b then writesTo i l else [] := by
    intro q b hq
    rw [List.filter_filter]
    cases b with
    | true =>
        refine List.filter_congr fun x hx => ?_
        by_cases hi : x.1 = i
        · simp [hi, hq x hx hi]
        · simp [hi]
    | false =>
        refine List.filter_eq_nil_iff.2 fun x hx => ?_
        by_cases hi : x.1 = i
        · simp [hq x hx hi]
        · simp [hi]
  have hp : ∀ x ∈ l, x.1 = i → p x = c i := fun x hx hi => hi ▸ h x hx
  have hnp : ∀ x ∈ l, x.1 = i → (!p x) = !c i := fun x hx hi => by rw [hp x hx hi]
  rw [writesTo, List.filter_append, hclass p (c i) hp, hclass (fun x => !p x) (!c i) hnp]
  cases c i <;> simp

lemma lastWrite_partition {l : List (ι × α)} {p : ι × α → Bool} {c : ι → Bool}
    (h : ∀ x ∈ l, p x = c x.1) (i : ι) :
    lastWrite i (l.filter p ++ l.filter fun x => !p x) = lastWrite i l := by
  rw [lastWrite, lastWrite, writesTo_partition h]

/-- A log may be replayed class by class when no key has writes in both classes. -/
lemma replay_partition {l : List (ι × α)} {p : ι × α → Bool} {c : ι → Bool}
    (h : ∀ x ∈ l, p x = c x.1) (f : ι → Option α) :
    replay (l.filter p ++ l.filter fun x => !p x) f = replay l f :=
  replay_congr (writesTo_partition h) f

/-- Changing the values of a log changes the last write alike. -/
lemma lastWrite_map {β : Type*} (g : α → β) (i : ι) (l : List (ι × α)) :
    lastWrite i (l.map fun x => (x.1, g x.2)) = (lastWrite i l).map g := by
  induction l using List.reverseRecOn with
  | nil => rfl
  | append_singleton l x ih =>
      rw [List.map_append, List.map_singleton, lastWrite_snoc, lastWrite_snoc, ih]
      by_cases hx : x.1 = i
      · simp [hx]
      · simp [hx]

/-- A key that no entry has is not written. -/
lemma lastWrite_eq_none {i : ι} {l : List (ι × α)} (h : ∀ x ∈ l, x.1 ≠ i) :
    lastWrite i l = none := by
  have hnone : writesTo i l = [] := List.filter_eq_nil_iff.2 fun x hx => by simpa using h x hx
  rw [lastWrite, hnone]
  rfl

lemma mem_of_lastWrite {i : ι} {a : α} {l : List (ι × α)} (h : lastWrite i l = some a) :
    (i, a) ∈ l := by
  obtain ⟨x, hx, rfl⟩ := Option.map_eq_some_iff.1 h
  have hmem := List.mem_filter.1 (List.mem_of_getLast? hx)
  have hi : x.1 = i := by simpa using hmem.2
  rw [← hi]
  exact hmem.1

/-- A replay that writes what is there already changes nothing. -/
lemma replay_eq_self_iff {l : List (ι × α)} {f : ι → Option α} :
    replay l f = f ↔ ∀ i a, lastWrite i l = some a → f i = some a := by
  constructor
  · intro h i a ha
    have hi := congrFun h i
    rw [replay_apply, ha, Option.some_or] at hi
    exact hi.symm
  · intro h
    funext i
    rw [replay_apply]
    cases ha : lastWrite i l with
    | none => exact Option.none_or
    | some a => rw [Option.some_or, h i a ha]

end ElasticFramework
