import Mathlib.Logic.Relation
import Mathlib.Data.Nat.Init

/-!
# Loops

The body of a loop takes what the loop keeps to another round or to the end.  `Ends` says that
the loop comes to an end with a result, `Visits` that a round starts in a state; the result is
unique, so that what is proved of one run of the loop is proved of the loop.

`exists_ends` is the rule of total correctness: an invariant that every round keeps, a number that
every round makes smaller, and a result that meets the postcondition wherever the invariant holds.
-/

namespace ElasticFramework

/-- What a round makes of the state: it is gone on with, or the loop is over. -/
inductive Round (σ α : Type*)
  | again (s : σ)
  | quit (a : α)
  deriving DecidableEq, Repr

namespace Loop

variable {σ α : Type*} (body : σ → Round σ α)

/-- The loop, for no more than a number of rounds. -/
def run : ℕ → σ → Option α
  | 0, _ => none
  | n + 1, s =>
    match body s with
    | .again s' => run n s'
    | .quit a => some a

/-- The loop ends with a result. -/
def Ends (s : σ) (a : α) : Prop := ∃ n, run body n s = some a

/-- A round of the loop starts in a state. -/
def Visits : σ → σ → Prop := Relation.ReflTransGen fun s s' => body s = .again s'

variable {body}

lemma ends_quit {s : σ} {a : α} (h : body s = .quit a) : Ends body s a :=
  ⟨1, by rw [run, h]⟩

lemma ends_again {s s' : σ} {a : α} (h : body s = .again s') :
    Ends body s a ↔ Ends body s' a := by
  constructor
  · rintro ⟨n, hn⟩
    cases n with
    | zero => cases hn
    | succ n => exact ⟨n, by rwa [run, h] at hn⟩
  · rintro ⟨n, hn⟩
    exact ⟨n + 1, by rwa [run, h]⟩

lemma ends_quit_iff {s : σ} {a b : α} (h : body s = .quit a) : Ends body s b ↔ b = a := by
  constructor
  · rintro ⟨n, hn⟩
    cases n with
    | zero => cases hn
    | succ n =>
        rw [run, h] at hn
        exact (Option.some_inj.1 hn).symm
  · rintro rfl
    exact ends_quit h

/-- A loop ends with one result. -/
lemma Ends.unique {s : σ} {a b : α} (ha : Ends body s a) (hb : Ends body s b) : a = b := by
  obtain ⟨n, hn⟩ := ha
  induction n generalizing s with
  | zero => cases hn
  | succ n ih =>
      rw [run] at hn
      cases h : body s with
      | again s' =>
          rw [h] at hn
          exact ih ((ends_again h).1 hb) hn
      | quit c =>
          rw [h] at hn
          cases hn
          exact ((ends_quit_iff h).1 hb).symm

/-- What the rounds of a loop keep holds wherever one starts. -/
lemma Visits.invariant {I : σ → Prop} (hstep : ∀ s s', I s → body s = .again s' → I s') {s t : σ}
    (h : Visits body s t) (hs : I s) : I t := by
  induction h with
  | refl => exact hs
  | tail _ hst ih => exact hstep _ _ ih hst

/-- An invariant, a number that gets smaller and a result that meets the postcondition. -/
lemma exists_ends {I : σ → Prop} {Q : α → Prop} (v : σ → ℕ)
    (hagain : ∀ s s', I s → body s = .again s' → I s' ∧ v s' < v s)
    (hquit : ∀ s a, I s → body s = .quit a → Q a) {s : σ} (hs : I s) :
    ∃ a, Ends body s a ∧ Q a := by
  induction hn : v s using Nat.strong_induction_on generalizing s with
  | _ n ih =>
      cases h : body s with
      | again s' =>
          obtain ⟨hI, hlt⟩ := hagain s s' hs h
          obtain ⟨a, ha, hQ⟩ := ih (v s') (hn ▸ hlt) hI rfl
          exact ⟨a, (ends_again h).2 ha, hQ⟩
      | quit a => exact ⟨a, ends_quit h, hquit s a hs h⟩

/-- Two bodies that agree wherever the invariant holds end alike. -/
lemma ends_congr {body' : σ → Round σ α} {I : σ → Prop}
    (hstep : ∀ s s', I s → body s = .again s' → I s') (heq : ∀ s, I s → body s = body' s) {s : σ}
    (hs : I s) (a : α) : Ends body s a ↔ Ends body' s a := by
  refine exists_congr fun n => ?_
  induction n generalizing s with
  | zero => rfl
  | succ n ih =>
      rw [run, run, ← heq s hs]
      cases h : body s with
      | again s' => exact ih (hstep s s' hs h)
      | quit b => rfl

end Loop

end ElasticFramework
