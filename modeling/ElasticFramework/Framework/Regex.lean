import Mathlib.Data.List.TakeWhile
import Mathlib.Data.List.Infix
import Mathlib.Tactic.IntervalCases

/-!
# Expressions with backtracking

Regular expressions over an arbitrary alphabet, read as Perl reads them: the texts an expression
matches at a place come in the order in which backtracking tries them (`results`), the first of
them counts, and a search takes the leftmost place that has one (`search`).  `replaceAll` rewrites
the matches from left to right.

What an expression matches is bounded by the characters it can go over: one of its classes accepts
each of them (`accepts_of_mem`), and it does not look behind a character that stops it
(`results_stops`).
-/

namespace ElasticFramework

/-- `\w`. -/
def isWord (c : Char) : Bool := c.isAlphanum || c = '_'

/-- `\s`: the blank, and from `\t` to `\r`. -/
def isSpace (c : Char) : Bool := c = ' ' || (9 ≤ c.toNat && c.toNat ≤ 13)

lemma isWord_of_isSpace {c : Char} (h : isSpace c = true) : isWord c = false := by
  have hcases : c = ' ' ∨ 9 ≤ c.toNat ∧ c.toNat ≤ 13 := by simpa [isSpace] using h
  rcases hcases with rfl | ⟨hlow, hhigh⟩
  · decide
  · rw [← Char.ofNat_toNat c]
    interval_cases c.toNat <;> decide

lemma isSpace_of_isWord {c : Char} (h : isWord c = true) : isSpace c = false := by
  by_contra hspace
  rw [Bool.not_eq_false] at hspace
  exact absurd h (by simp [isWord_of_isSpace hspace])

/-- An expression; `many` repeats a class as often as it can, and gives back. -/
inductive Regex (α : Type*)
  | empty
  | one (p : α → Bool)
  | many (p : α → Bool)
  | seq (r s : Regex α)
  | alt (r s : Regex α)
  | group (r : Regex α)
  /-- One of the characters around is of a word. -/
  | boundary (w : α → Bool)
  /-- In front of a separator, or at the end. -/
  | endLine (sep : α → Bool)

namespace Regex

variable {α β : Type*}

/-- The texts matched in front of `s`, behind `prev`, with the groups. -/
def results : Regex α → Option α → List α → List (List α × List (List α))
  | empty, _, _ => [([], [])]
  | one p, _, s =>
    match s with
    | c :: _ => if p c then [([c], [])] else []
    | [] => []
  | many p, _, s => ((s.takeWhile p).inits.reverse).map fun m => (m, [])
  | seq r t, prev, s =>
    (r.results prev s).flatMap fun x =>
      (t.results (x.1.getLast?.or prev) (s.drop x.1.length)).map fun y => (x.1 ++ y.1, x.2 ++ y.2)
  | alt r t, prev, s => r.results prev s ++ t.results prev s
  | group r, prev, s => (r.results prev s).map fun x => (x.1, x.1 :: x.2)
  | boundary w, prev, s => if prev.any w != s.head?.any w then [([], [])] else []
  | endLine sep, _, s => if s.head?.all sep then [([], [])] else []

/-- The first match of a search: what is in front of it, and the match. -/
def search (r : Regex α) : Option α → List α → Option (List α × List α × List (List α))
  | prev, [] => (r.results prev []).head?.map fun x => ([], x)
  | prev, c :: s =>
    match (r.results prev (c :: s)).head? with
    | some x => some ([], x)
    | none => (search r (some c) s).map fun x => (c :: x.1, x.2)

/-- The text with every match replaced, the first `skip` characters being those of a match.  For
expressions that match no empty text. -/
def replaceFrom (r : Regex α) (new : List α) : Option α → ℕ → List α → List α
  | _, _, [] => []
  | _, skip + 1, c :: s => replaceFrom r new (some c) skip s
  | prev, 0, c :: s =>
    match (r.results prev (c :: s)).head? with
    | some (_ :: m, _) => new ++ replaceFrom r new (some c) m.length s
    | _ => c :: replaceFrom r new (some c) 0 s

/-- `regex_replace`. -/
def replaceAll (r : Regex α) (new s : List α) : List α := replaceFrom r new none 0 s

/-- The characters one after the other. -/
def literal [DecidableEq α] : List α → Regex α
  | [] => empty
  | c :: s => seq (one fun d => decide (d = c)) (literal s)

/-! ## What a constructor matches -/

section

variable (prev : Option α) (s : List α)

lemma results_empty : empty.results prev s = [([], [])] := rfl

lemma results_one_nil (p : α → Bool) : (one p).results prev [] = [] := rfl

lemma results_one_cons (p : α → Bool) (c : α) :
    (one p).results prev (c :: s) = if p c then [([c], [])] else [] := rfl

lemma results_many (p : α → Bool) :
    (many p).results prev s = ((s.takeWhile p).inits.reverse).map fun m => (m, []) := rfl

lemma results_seq (r t : Regex α) : (seq r t).results prev s =
    (r.results prev s).flatMap fun x =>
      (t.results (x.1.getLast?.or prev) (s.drop x.1.length)).map
        fun y => (x.1 ++ y.1, x.2 ++ y.2) := rfl

lemma results_alt (r t : Regex α) :
    (alt r t).results prev s = r.results prev s ++ t.results prev s := rfl

lemma results_group (r : Regex α) :
    (group r).results prev s = (r.results prev s).map fun x => (x.1, x.1 :: x.2) := rfl

lemma results_boundary (w : α → Bool) : (boundary w).results prev s =
    if prev.any w != s.head?.any w then [([], [])] else [] := rfl

lemma results_endLine (sep : α → Bool) :
    (endLine sep).results prev s = if s.head?.all sep then [([], [])] else [] := rfl

end

/-! ## Members and heads -/

lemma mem_seq {r t : Regex α} {prev : Option α} {s m : List α} {g : List (List α)} :
    (m, g) ∈ (seq r t).results prev s ↔
      ∃ m₁ g₁ m₂ g₂, (m₁, g₁) ∈ r.results prev s ∧
        (m₂, g₂) ∈ t.results (m₁.getLast?.or prev) (s.drop m₁.length) ∧
        m = m₁ ++ m₂ ∧ g = g₁ ++ g₂ := by
  simp only [results_seq, List.mem_flatMap, List.mem_map, Prod.exists, Prod.mk.injEq]
  constructor
  · rintro ⟨m₁, g₁, h₁, m₂, g₂, h₂, rfl, rfl⟩
    exact ⟨m₁, g₁, m₂, g₂, h₁, h₂, rfl, rfl⟩
  · rintro ⟨m₁, g₁, m₂, g₂, h₁, h₂, rfl, rfl⟩
    exact ⟨m₁, g₁, h₁, m₂, g₂, h₂, rfl, rfl⟩

lemma mem_one {p : α → Bool} {prev : Option α} {s m : List α} {g : List (List α)} :
    (m, g) ∈ (one p).results prev s ↔ ∃ c t, s = c :: t ∧ p c = true ∧ m = [c] ∧ g = [] := by
  cases s with
  | nil => simp [results_one_nil]
  | cons c t =>
      by_cases hc : p c = true
      · simp [results_one_cons, hc]
      · simp [results_one_cons, hc]

lemma mem_many {p : α → Bool} {prev : Option α} {s m : List α} {g : List (List α)} :
    (m, g) ∈ (many p).results prev s ↔ m <+: s.takeWhile p ∧ g = [] := by
  simp only [results_many, List.mem_map, List.mem_reverse, List.mem_inits, Prod.mk.injEq]
  exact ⟨fun ⟨x, hx, hm, hg⟩ => ⟨hm ▸ hx, hg.symm⟩, fun ⟨hm, hg⟩ => ⟨m, hm, rfl, hg.symm⟩⟩

/-- What is tried first of a sequence, if it does not have to be given back. -/
lemma head_seq {r t : Regex α} {prev : Option α} {s m₁ m₂ : List α} {g₁ g₂ : List (List α)}
    (h₁ : (r.results prev (m₁ ++ s)).head? = some (m₁, g₁))
    (h₂ : (t.results (m₁.getLast?.or prev) s).head? = some (m₂, g₂)) :
    ((seq r t).results prev (m₁ ++ s)).head? = some (m₁ ++ m₂, g₁ ++ g₂) := by
  obtain ⟨xs, hxs⟩ := List.head?_eq_some_iff.1 h₁
  obtain ⟨ys, hys⟩ := List.head?_eq_some_iff.1 h₂
  rw [results_seq, hxs, List.flatMap_cons, List.drop_left, hys]
  rfl

lemma head_seq_nil {r t : Regex α} {prev : Option α} {s m : List α} {g₁ g₂ : List (List α)}
    (h₁ : (r.results prev s).head? = some ([], g₁))
    (h₂ : (t.results prev s).head? = some (m, g₂)) :
    ((seq r t).results prev s).head? = some (m, g₁ ++ g₂) := by
  rw [← List.nil_append s, ← List.nil_append m]
  exact head_seq h₁ h₂

lemma head_group {r : Regex α} {prev : Option α} {s m : List α} {g : List (List α)}
    (h : (r.results prev s).head? = some (m, g)) :
    ((group r).results prev s).head? = some (m, m :: g) := by
  rw [results_group, List.head?_map, h]
  rfl

lemma head_boundary {w : α → Bool} {prev : Option α} {s : List α}
    (h : prev.any w ≠ s.head?.any w) : ((boundary w).results prev s).head? = some ([], []) := by
  rw [results_boundary, if_pos (bne_iff_ne.2 h)]
  rfl

lemma getLast?_inits (s : List α) : s.inits.getLast? = some s := by
  induction s with
  | nil => rfl
  | cons c s ih => rw [List.inits_cons, List.getLast?_cons, List.getLast?_map, ih]; rfl

lemma head_many (p : α → Bool) (prev : Option α) (s : List α) :
    ((many p).results prev s).head? = some (s.takeWhile p, []) := by
  rw [results_many, List.head?_map, List.head?_reverse, getLast?_inits]
  rfl

/-- A class goes up to a character it does not accept. -/
lemma head_many_append {p : α → Bool} {m s : List α} (hm : ∀ c ∈ m, p c = true)
    (hs : ∀ c ∈ s.head?, p c = false) (prev : Option α) :
    ((many p).results prev (m ++ s)).head? = some (m, []) := by
  rw [head_many, List.takeWhile_append_of_pos hm]
  cases s with
  | nil => rw [List.takeWhile_nil, List.append_nil]
  | cons c s => rw [List.takeWhile_cons_of_neg (by simp [hs c rfl]), List.append_nil]

lemma results_one_of_pos {p : α → Bool} {c : α} (h : p c = true) (prev : Option α) (s : List α) :
    (one p).results prev (c :: s) = [([c], [])] := by
  simp [results_one_cons, h]

lemma head_one {p : α → Bool} {c : α} (h : p c = true) (prev : Option α) (s : List α) :
    ((one p).results prev ([c] ++ s)).head? = some ([c], []) := by
  rw [List.singleton_append, results_one_of_pos h]
  rfl

lemma results_one_of_neg {p : α → Bool} {s : List α} (h : ∀ c ∈ s.head?, p c = false)
    (prev : Option α) : (one p).results prev s = [] := by
  cases s with
  | nil => rfl
  | cons c s => simp [results_one_cons, h c rfl]

lemma results_literal [DecidableEq α] (w : List α) (prev : Option α) (s : List α) :
    (literal w).results prev s = if w.isPrefixOf s then [(w, [])] else [] := by
  induction w generalizing prev s with
  | nil => rfl
  | cons c w ih =>
      cases s with
      | nil => rfl
      | cons d s =>
          rw [literal, results_seq]
          by_cases hcd : d = c
          · rw [results_one_of_pos (by simpa using hcd), List.isPrefixOf]
            simp [ih, hcd]
            split <;> rfl
          · rw [results_one_of_neg (by simpa using hcd), List.isPrefixOf]
            simp [Ne.symm hcd]

lemma head_literal [DecidableEq α] (w : List α) (prev : Option α) (s : List α) :
    ((literal w).results prev (w ++ s)).head? = some (w, []) := by
  rw [results_literal, if_pos (by simp)]
  rfl

/-! ## The characters gone over -/

/-- One of the classes accepts the character. -/
def Accepts (c : α) : Regex α → Prop
  | empty | boundary _ | endLine _ => False
  | one p | many p => p c = true
  | seq r s | alt r s => r.Accepts c ∨ s.Accepts c
  | group r => r.Accepts c

/-- The expression does not look behind the character. -/
def Stops (c : α) : Regex α → Prop
  | empty => True
  | one p | many p => p c = false
  | boundary w => w c = false
  | endLine sep => sep c = true
  | seq r s | alt r s => r.Stops c ∧ s.Stops c
  | group r => r.Stops c

lemma accepts_literal [DecidableEq α] {c : α} {w : List α} :
    (literal w).Accepts c ↔ c ∈ w := by
  induction w with
  | nil => simp [literal, Accepts]
  | cons d w ih => simp [literal, Accepts, ih]

lemma stops_literal [DecidableEq α] {c : α} {w : List α} : (literal w).Stops c ↔ c ∉ w := by
  induction w with
  | nil => simp [literal, Stops]
  | cons d w ih => simp [literal, Stops, ih]

lemma prefix_of_mem {r : Regex α} {prev : Option α} {s m : List α} {g : List (List α)}
    (h : (m, g) ∈ r.results prev s) : m <+: s := by
  induction r generalizing prev s m g with
  | empty => 
      obtain ⟨rfl, -⟩ := by simpa [results_empty] using h
      exact List.nil_prefix
  | one p =>
      obtain ⟨c, t, rfl, -, rfl, -⟩ := mem_one.1 h
      exact ⟨t, rfl⟩
  | many p => exact (mem_many.1 h).1.trans (List.takeWhile_prefix p)
  | seq r t ihr iht =>
      obtain ⟨m₁, g₁, m₂, g₂, h₁, h₂, rfl, rfl⟩ := mem_seq.1 h
      obtain ⟨s, rfl⟩ := ihr h₁
      rw [List.drop_left] at h₂
      exact List.prefix_append_right_inj m₁ |>.2 (iht h₂)
  | alt r t ihr iht =>
      rcases List.mem_append.1 h with h | h
      · exact ihr h
      · exact iht h
  | group r ih =>
      obtain ⟨x, hx, heq⟩ := List.mem_map.1 h
      cases heq
      exact ih hx
  | boundary w =>
      simp only [results_boundary] at h
      split at h <;> simp_all
  | endLine sep =>
      simp only [results_endLine] at h
      split at h <;> simp_all

/-- A match of a sequence: what its parts have matched, one behind the other. -/
lemma of_mem_seq {r t : Regex α} {prev : Option α} {s m : List α} {g : List (List α)}
    (h : (m, g) ∈ (seq r t).results prev s) : ∃ m₁ s' g₁ m₂ g₂, s = m₁ ++ s' ∧
      (m₁, g₁) ∈ r.results prev s ∧ (m₂, g₂) ∈ t.results (m₁.getLast?.or prev) s' := by
  obtain ⟨m₁, g₁, m₂, g₂, h₁, h₂, -, -⟩ := mem_seq.1 h
  obtain ⟨s', rfl⟩ := prefix_of_mem h₁
  rw [List.drop_left] at h₂
  exact ⟨m₁, s', g₁, m₂, g₂, rfl, h₁, h₂⟩

lemma mem_boundary {w : α → Bool} {prev : Option α} {s m : List α} {g : List (List α)} :
    (m, g) ∈ (boundary w).results prev s ↔ prev.any w ≠ s.head?.any w ∧ m = [] ∧ g = [] := by
  rw [results_boundary]
  split <;> simp_all

lemma mem_literal [DecidableEq α] {w : List α} {prev : Option α} {s m : List α}
    {g : List (List α)} : (m, g) ∈ (literal w).results prev s ↔ w <+: s ∧ m = w ∧ g = [] := by
  rw [results_literal]
  split <;> simp_all

lemma mem_group {r : Regex α} {prev : Option α} {s m : List α} {g : List (List α)} :
    (m, g) ∈ (group r).results prev s ↔ ∃ g', (m, g') ∈ r.results prev s ∧ g = m :: g' := by
  simp only [results_group, List.mem_map, Prod.exists, Prod.mk.injEq]
  constructor
  · rintro ⟨m, g', h, rfl, rfl⟩
    exact ⟨g', h, rfl⟩
  · rintro ⟨g', h, rfl⟩
    exact ⟨m, g', h, rfl, rfl⟩

lemma mem_seq_of_append {r t : Regex α} {prev : Option α} {s m₁ m₂ : List α}
    {g₁ g₂ : List (List α)} (h₁ : (m₁, g₁) ∈ r.results prev (m₁ ++ s))
    (h₂ : (m₂, g₂) ∈ t.results (m₁.getLast?.or prev) s) :
    (m₁ ++ m₂, g₁ ++ g₂) ∈ (seq r t).results prev (m₁ ++ s) := by
  refine mem_seq.2 ⟨m₁, g₁, m₂, g₂, h₁, ?_, rfl, rfl⟩
  rwa [List.drop_left]

lemma mem_one_of_append {p : α → Bool} {c : α} (hc : p c = true) (prev : Option α) (s : List α) :
    ([c], []) ∈ (one p).results prev ([c] ++ s) :=
  mem_one.2 ⟨c, s, rfl, hc, rfl, rfl⟩

lemma mem_many_of_append {p : α → Bool} {m : List α} (hm : ∀ c ∈ m, p c = true) (prev : Option α)
    (s : List α) : (m, []) ∈ (many p).results prev (m ++ s) := by
  refine mem_many.2 ⟨?_, rfl⟩
  rw [List.takeWhile_append_of_pos hm]
  exact List.prefix_append m _

section

variable {t : Regex α} {prev : Option α} {s m : List α} {g : List (List α)}

lemma of_mem_boundary_seq {w : α → Bool} (h : (m, g) ∈ (seq (boundary w) t).results prev s) :
    prev.any w ≠ s.head?.any w ∧ ∃ m' g', (m', g') ∈ t.results prev s := by
  obtain ⟨m₁, s', g₁, m₂, g₂, hs, h₁, h₂⟩ := of_mem_seq h
  obtain ⟨hboundary, rfl, -⟩ := mem_boundary.1 h₁
  rw [List.nil_append] at hs
  exact ⟨hboundary, m₂, g₂, hs ▸ h₂⟩

lemma of_mem_literal_seq [DecidableEq α] {w : List α}
    (h : (m, g) ∈ (seq (literal w) t).results prev s) :
    ∃ s' m' g', s = w ++ s' ∧ (m', g') ∈ t.results (w.getLast?.or prev) s' := by
  obtain ⟨m₁, s', g₁, m₂, g₂, hs, h₁, h₂⟩ := of_mem_seq h
  obtain ⟨-, rfl, -⟩ := mem_literal.1 h₁
  exact ⟨s', m₂, g₂, hs, h₂⟩

lemma of_mem_one_seq {p : α → Bool} (h : (m, g) ∈ (seq (one p) t).results prev s) :
    ∃ c s' m' g', s = c :: s' ∧ p c = true ∧ (m', g') ∈ t.results (some c) s' := by
  obtain ⟨m₁, s', g₁, m₂, g₂, hs, h₁, h₂⟩ := of_mem_seq h
  obtain ⟨c, -, -, hc, rfl, -⟩ := mem_one.1 h₁
  exact ⟨c, s', m₂, g₂, hs, hc, h₂⟩

lemma of_mem_many_seq {p : α → Bool} (h : (m, g) ∈ (seq (many p) t).results prev s) :
    ∃ w s' m' g', s = w ++ s' ∧ (∀ c ∈ w, p c = true) ∧
      (m', g') ∈ t.results (w.getLast?.or prev) s' := by
  obtain ⟨m₁, s', g₁, m₂, g₂, hs, h₁, h₂⟩ := of_mem_seq h
  have hm := (mem_many.1 h₁).1
  exact ⟨m₁, s', m₂, g₂, hs, fun c hc => List.mem_takeWhile_imp (hm.subset hc), h₂⟩

lemma of_mem_group_seq {r : Regex α} (h : (m, g) ∈ (seq (group r) t).results prev s) :
    ∃ m' g', (m', g') ∈ (seq r t).results prev s := by
  obtain ⟨m₁, g₁, m₂, g₂, h₁, h₂, -, -⟩ := mem_seq.1 h
  obtain ⟨g', h', -⟩ := mem_group.1 h₁
  exact ⟨_, _, mem_seq.2 ⟨m₁, g', m₂, g₂, h', h₂, rfl, rfl⟩⟩

end

lemma accepts_of_mem {r : Regex α} {prev : Option α} {s m : List α} {g : List (List α)}
    (h : (m, g) ∈ r.results prev s) : ∀ c ∈ m, r.Accepts c := by
  induction r generalizing prev s m g with
  | empty =>
      obtain ⟨rfl, -⟩ := by simpa [results_empty] using h
      simp
  | one p =>
      obtain ⟨c, t, -, hc, rfl, -⟩ := mem_one.1 h
      simpa [Accepts] using hc
  | many p =>
      intro c hc
      exact List.mem_takeWhile_imp ((mem_many.1 h).1.subset hc)
  | seq r t ihr iht =>
      obtain ⟨m₁, g₁, m₂, g₂, h₁, h₂, rfl, rfl⟩ := mem_seq.1 h
      intro c hc
      exact (List.mem_append.1 hc).imp (ihr h₁ c) (iht h₂ c)
  | alt r t ihr iht =>
      intro c hc
      exact (List.mem_append.1 h).imp (fun h => ihr h c hc) (fun h => iht h c hc)
  | group r ih =>
      obtain ⟨x, hx, heq⟩ := List.mem_map.1 h
      cases heq
      exact ih hx
  | boundary w =>
      simp only [results_boundary] at h
      split at h <;> simp_all
  | endLine sep =>
      simp only [results_endLine] at h
      split at h <;> simp_all

lemma takeWhile_stop {p : α → Bool} {c : α} (h : p c = false) (a b : List α) :
    (a ++ c :: b).takeWhile p = a.takeWhile p := by
  induction a with
  | nil => exact List.takeWhile_cons_of_neg (by simp [h])
  | cons d a ih => rw [List.cons_append, List.takeWhile_cons, List.takeWhile_cons, ih]

lemma results_stops {r : Regex α} {c : α} (h : r.Stops c) (prev : Option α) (a b : List α) :
    r.results prev (a ++ c :: b) = r.results prev a := by
  induction r generalizing prev a with
  | empty => rfl
  | one p =>
      have hc : p c = false := h
      cases a with
      | nil => exact results_one_of_neg (by simpa using hc) prev
      | cons d a => rfl
  | many p => rw [results_many, results_many, takeWhile_stop h]
  | seq r t ihr iht =>
      rw [results_seq, results_seq, ihr h.1, List.flatMap_def, List.flatMap_def]
      refine congrArg List.flatten (List.map_congr_left fun x hx => ?_)
      obtain ⟨s, rfl⟩ := prefix_of_mem hx
      rw [List.append_assoc, List.drop_left, List.drop_left, iht h.2]
  | alt r t ihr iht => rw [results_alt, results_alt, ihr h.1, iht h.2]
  | group r ih => rw [results_group, results_group, ih h]
  | boundary w =>
      have hc : w c = false := h
      cases a with
      | nil => simp [results_boundary, hc]
      | cons d a => rfl
  | endLine sep =>
      have hc : sep c = true := h
      cases a with
      | nil => simp [results_endLine, hc]
      | cons d a => rfl

/-! ## Replacing -/

variable {r : Regex α} {new : List α}

lemma replaceFrom_match {prev : Option α} {c : α} {m s : List α} {g : List (List α)}
    (h : (r.results prev (c :: s)).head? = some (c :: m, g)) :
    replaceFrom r new prev 0 (c :: s) = new ++ replaceFrom r new (some c) m.length s := by
  rw [replaceFrom, h]

lemma replaceFrom_miss {prev : Option α} {c : α} {s : List α}
    (h : ∀ m g, (r.results prev (c :: s)).head? = some (m, g) → m = []) :
    replaceFrom r new prev 0 (c :: s) = c :: replaceFrom r new (some c) 0 s := by
  rw [replaceFrom]
  split
  · rename_i hhead
    exact absurd (h _ _ hhead) (List.cons_ne_nil _ _)
  · rfl

lemma replaceFrom_skip (prev : Option α) (m s : List α) :
    replaceFrom r new prev m.length (m ++ s) = replaceFrom r new (m.getLast?.or prev) 0 s := by
  induction m generalizing prev with
  | nil => rfl
  | cons c m ih =>
      rw [List.length_cons, List.cons_append, replaceFrom, ih]
      cases m <;> rfl

/-- A match in front is replaced, and the rest goes on from its end. -/
lemma replaceFrom_append_of_match {prev : Option α} {m s : List α} {g : List (List α)}
    (hm : m ≠ []) (h : (r.results prev (m ++ s)).head? = some (m, g)) :
    replaceFrom r new prev 0 (m ++ s) = new ++ replaceFrom r new (m.getLast?.or prev) 0 s := by
  obtain _ | ⟨c, m⟩ := m
  · exact absurd rfl hm
  · rw [List.cons_append] at h ⊢
    rw [replaceFrom_match h, replaceFrom_skip]
    cases m <;> rfl

/-- A character that stops the expression is kept, and the texts on both sides are rewritten each
by itself. -/
lemma replaceFrom_stops {c : α} (h : r.Stops c) (a b : List α) (prev : Option α) {skip : ℕ}
    (hskip : skip ≤ a.length) :
    replaceFrom r new prev skip (a ++ c :: b) =
      replaceFrom r new prev skip a ++ c :: replaceFrom r new (some c) 0 b := by
  induction a generalizing prev skip with
  | nil =>
      obtain rfl : skip = 0 := Nat.le_zero.1 hskip
      refine replaceFrom_miss fun m g hm => ?_
      have hnil := results_stops h prev [] b
      rw [List.nil_append] at hnil
      rw [hnil] at hm
      exact List.prefix_nil.1 (prefix_of_mem (List.mem_of_head? hm))
  | cons d a ih =>
      cases skip with
      | succ skip => exact ih (some d) (Nat.le_of_succ_le_succ hskip)
      | zero =>
          have hresults := results_stops h prev (d :: a) b
          rw [List.cons_append] at hresults ⊢
          rw [replaceFrom, replaceFrom, hresults]
          split
          · rename_i e m g hhead
            have hlength := (prefix_of_mem (List.mem_of_head? hhead)).length_le
            rw [ih (some d) (Nat.le_of_succ_le_succ hlength), List.append_assoc]
          · rw [ih (some d) (Nat.zero_le _), List.cons_append]

/-- A text in which no match starts is kept. -/
lemma replaceFrom_append_of_none {prev : Option α} {s : List α} (t : List α)
    (h : ∀ a b, s = a ++ b → b ≠ [] →
      ∀ m g, (m, g) ∈ r.results (a.getLast?.or prev) (b ++ t) → m = []) :
    replaceFrom r new prev 0 (s ++ t) = s ++ replaceFrom r new (s.getLast?.or prev) 0 t := by
  induction s generalizing prev with
  | nil => rfl
  | cons c s ih =>
      have hhere : ∀ m g, (m, g) ∈ r.results prev (c :: (s ++ t)) → m = [] :=
        h [] (c :: s) rfl (List.cons_ne_nil c s)
      have hlater : ∀ a b, s = a ++ b → b ≠ [] →
          ∀ m g, (m, g) ∈ r.results (a.getLast?.or (some c)) (b ++ t) → m = [] := by
        intro a b hs hb
        have hnext := h (c :: a) b (by rw [hs, List.cons_append]) hb
        cases a <;> exact hnext
      rw [List.cons_append, replaceFrom_miss fun m g hm => hhere m g (List.mem_of_head? hm),
        ih hlater]
      cases s <;> rfl

lemma replaceFrom_eq_self {prev : Option α} {s : List α}
    (h : ∀ a b, s = a ++ b → b ≠ [] →
      ∀ m g, (m, g) ∈ r.results (a.getLast?.or prev) b → m = []) :
    replaceFrom r new prev 0 s = s := by
  have hnone : replaceFrom r new prev 0 (s ++ []) = s ++ replaceFrom r new _ 0 [] :=
    replaceFrom_append_of_none [] (by simpa using h)
  rw [List.append_nil] at hnone
  rw [hnone]
  exact List.append_nil s

/-- The end of a text is kept if no character in it ends a match. -/
lemma suffix_replaceFrom {q : α → Prop} {t : List α}
    (hr : ∀ prev s m g, (m, g) ∈ r.results prev s → ∀ c ∈ m.getLast?, q c) (ht : ∀ c ∈ t, ¬ q c)
    (prev : Option α) {skip : ℕ} (s : List α) (hskip : skip ≤ s.length) :
    t <:+ replaceFrom r new prev skip (s ++ t) := by
  have hfront : ∀ prev a m g, (m, g) ∈ r.results prev (a ++ t) → m.length ≤ a.length := by
    intro prev a m g hmem
    by_contra! hlt
    have hsplit : m = a ++ t.take (m.length - a.length) := by
      conv_lhs => rw [List.prefix_iff_eq_take.1 (prefix_of_mem hmem)]
      rw [List.take_append, List.take_of_length_le hlt.le]
    have hne : t.take (m.length - a.length) ≠ [] := by
      intro hnil
      rw [hnil, List.append_nil] at hsplit
      exact absurd hlt (by simp [hsplit])
    -- the match ends in `t`
    have hlast : m.getLast? = some ((t.take (m.length - a.length)).getLast hne) := by
      conv_lhs => rw [hsplit]
      rw [List.getLast?_append_of_ne_nil _ hne, List.getLast?_eq_some_getLast hne]
    exact ht _ (List.mem_of_mem_take (List.getLast_mem hne)) (hr prev _ m g hmem _ hlast)
  induction s generalizing prev skip with
  | nil =>
      obtain rfl : skip = 0 := Nat.le_zero.1 hskip
      rw [List.nil_append, replaceFrom_eq_self]
      rintro a b rfl - m g hmem
      by_contra hm
      have hlast := List.getLast_mem hm
      exact ht _ (List.mem_append_right a ((prefix_of_mem hmem).subset hlast))
        (hr _ b m g hmem _ (List.getLast?_eq_some_getLast hm))
  | cons c s ih =>
      cases skip with
      | succ skip => exact ih (some c) (Nat.le_of_succ_le_succ hskip)
      | zero =>
          rw [List.cons_append, replaceFrom]
          split
          · rename_i d m g hhead
            have hle := hfront prev (c :: s) (d :: m) g (List.mem_of_head? hhead)
            exact (ih (some c) (Nat.le_of_succ_le_succ hle)).trans (List.suffix_append _ _)
          · exact (ih (some c) (Nat.zero_le _)).trans (List.suffix_cons c _)

/-- What no class of the expression accepts is neither removed nor added. -/
lemma filter_replaceFrom {q : α → Bool} (hr : ∀ c, r.Accepts c → q c = false)
    (hnew : ∀ c ∈ new, q c = false) (prev : Option α) (skip : ℕ) (s : List α)
    (hskip : ∀ c ∈ s.take skip, q c = false) :
    (replaceFrom r new prev skip s).filter q = s.filter q := by
  induction s generalizing prev skip with
  | nil => cases skip <;> rfl
  | cons c s ih =>
      cases skip with
      | succ skip =>
          rw [List.take_succ_cons, List.forall_mem_cons] at hskip
          rw [replaceFrom, ih (some c) skip hskip.2, List.filter_cons_of_neg (by simp [hskip.1])]
      | zero =>
          rw [replaceFrom]
          split
          · rename_i d m g hhead
            have hmem := List.mem_of_head? hhead
            have hfront : d :: m <+: c :: s := prefix_of_mem hmem
            obtain ⟨rfl, hm⟩ := List.cons_prefix_cons.1 hfront
            have hall := accepts_of_mem hmem
            have htake : s.take m.length = m := List.prefix_iff_eq_take.1 hm |>.symm
            rw [List.filter_append, List.filter_eq_nil_iff.2 (by simpa using hnew),
              List.nil_append, ih (some d) m.length, List.filter_cons_of_neg]
            · simp [hr d (hall d List.mem_cons_self)]
            · rw [htake]
              exact fun e he => hr e (hall e (List.mem_cons_of_mem d he))
          · have hrest := ih (some c) 0 (by simp)
            rw [List.filter_cons, List.filter_cons, hrest]

lemma replaceFrom_sublist (prev : Option α) (skip : ℕ) (s : List α) :
    (replaceFrom r [] prev skip s).Sublist s := by
  induction s generalizing prev skip with
  | nil => cases skip <;> exact List.Sublist.refl _
  | cons c s ih =>
      cases skip with
      | succ skip => exact (ih (some c) skip).cons c
      | zero =>
          rw [replaceFrom]
          split
          · exact (ih _ _).cons c
          · exact (ih _ _).cons_cons c

section Count

variable [DecidableEq α] {c : α} (hnew : c ∉ new)

include hnew

lemma count_replaceFrom_le (prev : Option α) (skip : ℕ) (s : List α) :
    (replaceFrom r new prev skip s).count c ≤ s.count c := by
  induction s generalizing prev skip with
  | nil => cases skip <;> exact le_rfl
  | cons d s ih =>
      cases skip with
      | succ skip => exact (ih (some d) skip).trans List.count_le_count_cons
      | zero =>
          rw [replaceFrom]
          split
          · rw [List.count_append, List.count_eq_zero_of_not_mem hnew, Nat.zero_add]
            exact (ih _ _).trans List.count_le_count_cons
          · rw [List.count_cons, List.count_cons]
            exact Nat.add_le_add_right (ih _ _) _

lemma count_lt_of_head (hr : ∀ prev s m g, (m, g) ∈ r.results prev s → c ∈ m) {prev : Option α}
    {s m : List α} {g : List (List α)} (hhead : (r.results prev s).head? = some (m, g)) :
    (replaceFrom r new prev 0 s).count c < s.count c := by
  have hmem := List.mem_of_head? hhead
  have hc := hr prev s m g hmem
  obtain ⟨t, rfl⟩ := prefix_of_mem hmem
  rw [replaceFrom_append_of_match (List.ne_nil_of_mem hc) hhead, List.count_append,
    List.count_append, List.count_eq_zero_of_not_mem hnew]
  have hrest := count_replaceFrom_le (r := r) hnew (m.getLast?.or prev) 0 t
  have hpos := List.count_pos_iff.2 hc
  omega

/-- A character that is in every match gets rarer where there is a match. -/
lemma count_replaceFrom_lt (hr : ∀ prev s m g, (m, g) ∈ r.results prev s → c ∈ m)
    {prev : Option α} {a b : List α} (hmatch : r.results (a.getLast?.or prev) b ≠ []) :
    (replaceFrom r new prev 0 (a ++ b)).count c < (a ++ b).count c := by
  induction a generalizing prev with
  | nil =>
      rw [List.getLast?_nil, Option.none_or] at hmatch
      rw [List.nil_append]
      obtain ⟨⟨m, g⟩, hhead⟩ := Option.isSome_iff_exists.1 (List.isSome_head?.2 hmatch)
      exact count_lt_of_head hnew hr hhead
  | cons d a ih =>
      cases hhead : (r.results prev (d :: (a ++ b))).head? with
      | some x => exact count_lt_of_head hnew hr hhead
      | none =>
          rw [List.cons_append, replaceFrom_miss (by simp [hhead]), List.count_cons,
            List.count_cons]
          refine Nat.add_lt_add_right (ih ?_) _
          cases a <;> exact hmatch

end Count

/-- An expression that does not look at the character in front. -/
def Local : Regex α → Prop
  | empty | one _ | many _ | endLine _ => True
  | seq r s | alt r s => r.Local ∧ s.Local
  | group r => r.Local
  | boundary _ => False

lemma local_literal [DecidableEq α] (w : List α) : (literal w).Local := by
  induction w with
  | nil => trivial
  | cons c w ih => exact ⟨trivial, ih⟩

lemma results_local {r : Regex α} (h : r.Local) (prev prev' : Option α) (s : List α) :
    r.results prev s = r.results prev' s := by
  induction r generalizing prev prev' s with
  | empty | one p | many p | endLine sep => rfl
  | seq r t ihr iht =>
      rw [results_seq, results_seq, ihr h.1 prev prev']
      congr 1
      funext x
      rw [iht h.2]
  | alt r t ihr iht => rw [results_alt, results_alt, ihr h.1 prev prev', iht h.2 prev prev']
  | group r ih => rw [results_group, results_group, ih h prev prev']
  | boundary w => exact h.elim

lemma replaceFrom_local (h : r.Local) (prev prev' : Option α) (skip : ℕ) (s : List α) :
    replaceFrom r new prev skip s = replaceFrom r new prev' skip s := by
  cases s with
  | nil => cases skip <;> rfl
  | cons c s =>
      cases skip with
      | succ skip => rfl
      | zero => rw [replaceFrom, replaceFrom, results_local h prev prev']

/-- A text in front of a character that stops the expression is rewritten by itself. -/
lemma replaceAll_append (a : List α) {b : List α}
    (hb : ∀ c ∈ b.head?, r.Stops c) :
    replaceAll r new (a ++ b) = replaceAll r new a ++ replaceAll r new b := by
  cases b with
  | nil => rw [replaceAll, List.append_nil]; exact (List.append_nil _).symm
  | cons c b =>
      have hc : r.Stops c := hb c rfl
      have hsingle : replaceFrom r new none 0 (c :: b) = c :: replaceFrom r new (some c) 0 b :=
        replaceFrom_stops hc [] b none (Nat.zero_le _)
      rw [replaceAll, replaceFrom_stops hc a b none (Nat.zero_le _), replaceAll, replaceAll,
        hsingle]

/-- Characters that stop the expression are kept. -/
lemma replaceAll_stops_append (hlocal : r.Local) {a : List α} (ha : ∀ c ∈ a, r.Stops c)
    (b : List α) : replaceAll r new (a ++ b) = a ++ replaceAll r new b := by
  induction a with
  | nil => rfl
  | cons c a ih =>
      obtain ⟨hc, ha⟩ := List.forall_mem_cons.1 ha
      have hsingle : replaceFrom r new none 0 (c :: (a ++ b)) =
          c :: replaceFrom r new (some c) 0 (a ++ b) :=
        replaceFrom_stops hc [] (a ++ b) none (Nat.zero_le _)
      rw [List.cons_append, List.cons_append, ← ih ha, replaceAll, hsingle,
        replaceFrom_local hlocal (some c) none]
      rfl

lemma replaceAll_stops_cons (hlocal : r.Local) {c : α} (hc : r.Stops c) (a b : List α) :
    replaceAll r new (a ++ c :: b) = replaceAll r new a ++ c :: replaceAll r new b := by
  rw [replaceAll_append a (by simpa using hc)]
  have hcons : replaceAll r new ([c] ++ b) = [c] ++ replaceAll r new b :=
    replaceAll_stops_append hlocal (by simpa using hc) b
  exact congrArg _ hcons

lemma mem_replaceAll {c : α} (hr : ¬ r.Accepts c) (hnew : c ∉ new) {s : List α} :
    c ∈ replaceAll r new s ↔ c ∈ s := by
  classical
  have haccepts : ∀ d, r.Accepts d → decide (d = c) = false := by
    rintro d hd
    refine decide_eq_false ?_
    rintro rfl
    exact hr hd
  have hadded : ∀ d ∈ new, decide (d = c) = false := by
    rintro d hd
    refine decide_eq_false ?_
    rintro rfl
    exact hnew hd
  have hfilter := filter_replaceFrom haccepts hadded none 0 s (by simp)
  have hmem : ∀ t : List α, c ∈ t ↔ c ∈ t.filter fun d => decide (d = c) := fun t => by simp
  rw [hmem, replaceAll, hfilter, ← hmem]

/-! ## Another alphabet -/

/-- The expression on characters that stand for others. -/
def comap (f : β → α) : Regex α → Regex β
  | empty => empty
  | one p => one (p ∘ f)
  | many p => many (p ∘ f)
  | seq r s => seq (r.comap f) (s.comap f)
  | alt r s => alt (r.comap f) (s.comap f)
  | group r => group (r.comap f)
  | boundary w => boundary (w ∘ f)
  | endLine sep => endLine (sep ∘ f)

lemma comap_id (r : Regex α) : r.comap id = r := by
  induction r with
  | empty | one p | many p | boundary w | endLine sep => rfl
  | seq r s ihr ihs | alt r s ihr ihs => rw [comap, ihr, ihs]
  | group r ih => rw [comap, ih]

lemma accepts_comap {f : β → α} {r : Regex α} {c : β} :
    (r.comap f).Accepts c ↔ r.Accepts (f c) := by
  induction r with
  | empty | one p | many p | boundary w | endLine sep => rfl
  | seq r s ihr ihs | alt r s ihr ihs => exact or_congr ihr ihs
  | group r ih => exact ih

lemma map_inits (f : β → α) (s : List β) : (s.map f).inits = s.inits.map (List.map f) := by
  induction s with
  | nil => rfl
  | cons c s ih => simp [ih, Function.comp_def]

/-- It matches the same texts. -/
lemma results_comap (f : β → α) (r : Regex α) (prev : Option β) (s : List β) :
    r.results (prev.map f) (s.map f) =
      ((r.comap f).results prev s).map fun x => (x.1.map f, x.2.map (List.map f)) := by
  induction r generalizing prev s with
  | empty => rfl
  | one p =>
      cases s with
      | nil => rfl
      | cons c s =>
          by_cases hc : p (f c) = true
          · simp [comap, results_one_cons, hc]
          · simp [comap, results_one_cons, hc]
  | many p =>
      simp only [comap, results_many, List.takeWhile_map, map_inits, List.map_map,
        ← List.map_reverse]
      rfl
  | seq r t ihr iht =>
      simp only [comap, results_seq, ihr, List.flatMap_map, List.map_flatMap, List.map_map]
      congr 1
      funext x
      have hnext := iht (x.1.getLast?.or prev) (s.drop x.1.length)
      rw [Option.map_or, List.map_drop] at hnext
      simp [hnext, Function.comp_def]
  | alt r t ihr iht => rw [comap, results_alt, results_alt, List.map_append, ihr, iht]
  | group r ih =>
      simp only [comap, results_group, ih, List.map_map]
      rfl
  | boundary w =>
      rw [comap, results_boundary, results_boundary, apply_ite (List.map _), Option.any_map,
        List.head?_map, Option.any_map]
      rfl
  | endLine sep =>
      rw [comap, results_endLine, results_endLine, apply_ite (List.map _), List.head?_map,
        Option.all_map]
      rfl

lemma mem_comap {f : β → α} {r : Regex α} {prev : Option β} {s m : List β} {g : List (List β)}
    (h : (m, g) ∈ (r.comap f).results prev s) :
    (m.map f, g.map (List.map f)) ∈ r.results (prev.map f) (s.map f) := by
  rw [results_comap]
  exact List.mem_map.2 ⟨(m, g), h, rfl⟩

/-- A match in front, found by what the characters stand for. -/
lemma replaceFrom_comap_append {f : β → α} {r : Regex α} {new : List β} {prev : Option β}
    {m s : List β} {g : List (List α)} (hm : m ≠ [])
    (h : (r.results (prev.map f) (m.map f ++ s.map f)).head? = some (m.map f, g)) :
    replaceFrom (r.comap f) new prev 0 (m ++ s) =
      new ++ replaceFrom (r.comap f) new (m.getLast?.or prev) 0 s := by
  rw [← List.map_append, results_comap, List.head?_map] at h
  obtain ⟨⟨m', g'⟩, hhead, heq⟩ := Option.map_eq_some_iff.1 h
  have hmap : m'.map f = m.map f := (Prod.mk.inj heq).1
  have hlength : m'.length = m.length := by
    rw [← List.length_map f, hmap, List.length_map]
  have htake : m' = m := by
    rw [List.prefix_iff_eq_take.1 (prefix_of_mem (List.mem_of_head? hhead)), hlength,
      List.take_left]
  rw [htake] at hhead
  exact replaceFrom_append_of_match hm hhead

/-- It replaces the same texts. -/
lemma map_replaceFrom (f : β → α) (r : Regex α) (new : List β) (prev : Option β) (skip : ℕ)
    (s : List β) : (replaceFrom (r.comap f) new prev skip s).map f =
      replaceFrom r (new.map f) (prev.map f) skip (s.map f) := by
  induction s generalizing prev skip with
  | nil => cases skip <;> rfl
  | cons c s ih =>
      cases skip with
      | succ skip => exact ih (some c) skip
      | zero =>
          have hresults := results_comap f r prev (c :: s)
          rw [List.map_cons] at hresults ⊢
          rw [replaceFrom, replaceFrom, hresults, List.head?_map]
          rcases ((r.comap f).results prev (c :: s)).head? with _ | ⟨_ | ⟨d, m⟩, g⟩
          · exact congrArg _ (ih (some c) 0)
          · exact congrArg _ (ih (some c) 0)
          · have hrest := ih (some c) m.length
            simpa using hrest

/-! ## Searching -/

/-- The search stops at the first place with a match. -/
lemma search_append {r : Regex α} {prev : Option α} {a b m : List α} {g : List (List α)}
    (ha : ∀ a₁ a₂, a = a₁ ++ a₂ → a₂ ≠ [] → r.results (a₁.getLast?.or prev) (a₂ ++ b) = [])
    (hb : (r.results (a.getLast?.or prev) b).head? = some (m, g)) :
    r.search prev (a ++ b) = some (a, m, g) := by
  induction a generalizing prev with
  | nil =>
      change (r.results prev b).head? = some (m, g) at hb
      cases b with
      | nil => rw [List.append_nil, search, hb]; rfl
      | cons c b => rw [List.nil_append, search, hb]
  | cons c a ih =>
      have hhere : r.results prev (c :: (a ++ b)) = [] :=
        ha [] (c :: a) rfl (List.cons_ne_nil c a)
      have hrest : r.search (some c) (a ++ b) = some (a, m, g) := by
        refine ih (fun a₁ a₂ h hne => ?_) ?_
        · have hlater := ha (c :: a₁) a₂ (by rw [h, List.cons_append]) hne
          cases a₁ <;> exact hlater
        · cases a <;> exact hb
      rw [List.cons_append, search, hhere, List.head?_nil, hrest]
      rfl

/-- Some place has a match. -/
lemma search_isSome_iff {r : Regex α} {prev : Option α} {s : List α} :
    (r.search prev s).isSome = true ↔
      ∃ a b, s = a ++ b ∧ r.results (a.getLast?.or prev) b ≠ [] := by
  induction s generalizing prev with
  | nil =>
      rw [search, Option.isSome_map, List.isSome_head?]
      constructor
      · exact fun h => ⟨[], [], rfl, by simpa using h⟩
      · rintro ⟨a, b, h, hab⟩
        obtain ⟨rfl, rfl⟩ := List.append_eq_nil_iff.1 h.symm
        simpa using hab
  | cons c s ih =>
      rw [search]
      cases hhere : (r.results prev (c :: s)).head? with
      | some x =>
          have hne : r.results prev (c :: s) ≠ [] := by
            intro hnil
            simp [hnil] at hhere
          exact iff_of_true rfl ⟨[], c :: s, rfl, hne⟩
      | none =>
          rw [Option.isSome_map, ih]
          constructor
          · rintro ⟨a, b, rfl, hab⟩
            refine ⟨c :: a, b, rfl, ?_⟩
            cases a <;> exact hab
          · rintro ⟨_ | ⟨d, a⟩, b, h, hab⟩
            · obtain rfl : c :: s = b := h
              exact absurd (List.head?_eq_none_iff.1 hhere) hab
            · obtain ⟨rfl, rfl⟩ := List.cons.inj h
              refine ⟨a, b, rfl, ?_⟩
              cases a <;> exact hab

lemma search_one_isSome_iff {p : α → Bool} {prev : Option α} {s : List α} :
    ((one p).search prev s).isSome = true ↔ ∃ c ∈ s, p c = true := by
  rw [search_isSome_iff]
  constructor
  · rintro ⟨a, b, rfl, hab⟩
    obtain ⟨⟨m, g⟩, hmem⟩ := List.exists_mem_of_ne_nil _ hab
    obtain ⟨c, t, rfl, hc, -⟩ := mem_one.1 hmem
    exact ⟨c, by simp, hc⟩
  · rintro ⟨c, hmem, hc⟩
    obtain ⟨a, b, rfl⟩ := List.append_of_mem hmem
    refine ⟨a, c :: b, rfl, ?_⟩
    rw [results_one_of_pos hc]
    exact List.cons_ne_nil _ _

/-! ## Whole words -/

/-- A word between boundaries, as a group. -/
def wholeWord [DecidableEq α] (w : α → Bool) (name : List α) : Regex α :=
  seq (boundary w) (seq (group (literal name)) (boundary w))

lemma accepts_wholeWord [DecidableEq α] {w : α → Bool} {name : List α} {c : α} :
    (wholeWord w name).Accepts c ↔ c ∈ name := by
  simp [wholeWord, Accepts, accepts_literal]

lemma eq_of_mem_wholeWord [DecidableEq α] {w : α → Bool} {name : List α} {prev : Option α}
    {s m : List α} {g : List (List α)} (h : (m, g) ∈ (wholeWord w name).results prev s) :
    m = name := by
  obtain ⟨m₁, g₁, m₂, g₂, hfront, h₂, rfl, -⟩ := mem_seq.1 h
  obtain ⟨m₃, g₃, m₄, g₄, h₃, hback, rfl, -⟩ := mem_seq.1 h₂
  obtain ⟨g', h₃, -⟩ := mem_group.1 h₃
  rw [(mem_boundary.1 hfront).2.1, (mem_boundary.1 hback).2.1, (mem_literal.1 h₃).2.1,
    List.nil_append, List.append_nil]

/-- The name stands somewhere in the text, and not in a longer word. -/
def HasWord (w : α → Bool) (name s : List α) : Prop :=
  ∃ a b, s = a ++ name ++ b ∧ (∀ c ∈ a.getLast?, w c = false) ∧ ∀ c ∈ b.head?, w c = false

lemma HasWord.length_le {w : α → Bool} {name s : List α} (h : HasWord w name s) :
    name.length ≤ s.length := by
  obtain ⟨a, b, rfl, -, -⟩ := h
  simp only [List.length_append]
  omega

lemma any_eq_false_iff {w : α → Bool} {o : Option α} :
    o.any w = false ↔ ∀ c ∈ o, w c = false := by
  cases o <;> simp

section

variable {w : α → Bool} {name : List α} (hne : name ≠ []) (hname : ∀ c ∈ name, w c = true)

include hne hname

lemma boundary_front_iff {prev : Option α} {b : List α} :
    prev.any w ≠ (name ++ b).head?.any w ↔ ∀ c ∈ prev, w c = false := by
  have hhead : (name ++ b).head?.any w = true := by
    obtain ⟨c, t, rfl⟩ := List.exists_cons_of_ne_nil hne
    exact hname c List.mem_cons_self
  rw [hhead, ← any_eq_false_iff, ne_eq, Bool.not_eq_true]

lemma boundary_back_iff {prev : Option α} {b : List α} :
    (name.getLast?.or prev).any w ≠ b.head?.any w ↔ ∀ c ∈ b.head?, w c = false := by
  have hlast : (name.getLast?.or prev).any w = true := by
    rw [List.getLast?_eq_some_getLast hne]
    exact hname _ (List.getLast_mem hne)
  rw [hlast, ← any_eq_false_iff, ne_eq, eq_comm, Bool.not_eq_true]

lemma hasWord_of_mem [DecidableEq α] {a b m : List α} {g : List (List α)}
    (h : (m, g) ∈ (wholeWord w name).results a.getLast? b) : HasWord w name (a ++ b) := by
  obtain ⟨hfront, m₁, g₁, h₁⟩ := of_mem_boundary_seq h
  obtain ⟨m₂, g₂, h₂⟩ := of_mem_group_seq h₁
  obtain ⟨b, m₃, g₃, rfl, h₃⟩ := of_mem_literal_seq h₂
  have hback := (mem_boundary.1 h₃).1
  rw [boundary_back_iff hne hname] at hback
  rw [boundary_front_iff hne hname] at hfront
  exact ⟨a, b, (List.append_assoc a name b).symm, hfront, hback⟩

/-- Where the name is a word of the text, the expression finds it. -/
lemma results_of_hasWord [DecidableEq α] {s : List α} (h : HasWord w name s) :
    ∃ a b, s = a ++ b ∧ (wholeWord w name).results a.getLast? b ≠ [] := by
  obtain ⟨a, b, rfl, hfront, hback⟩ := h
  refine ⟨a, name ++ b, List.append_assoc a name b, ?_⟩
  have hhead : ((wholeWord w name).results a.getLast? (name ++ b)).head? = some _ :=
    head_seq_nil (head_boundary ((boundary_front_iff hne hname).2 hfront))
      (head_seq (head_group (head_literal name _ b))
        (head_boundary ((boundary_back_iff hne hname).2 hback)))
  intro hnil
  rw [hnil] at hhead
  cases hhead

/-- Where the name is no word of the text, nothing is replaced. -/
lemma replaceAll_wholeWord [DecidableEq α] {s : List α} (h : ¬ HasWord w name s) :
    replaceAll (wholeWord w name) new s = s := by
  refine replaceFrom_eq_self ?_
  rintro a b rfl - m g hmem
  rw [Option.or_none] at hmem
  exact absurd (hasWord_of_mem hne hname hmem) h

lemma replaceAll_comap_wholeWord [DecidableEq α] {f : β → α} {new s : List β}
    (h : ¬ HasWord w name (s.map f)) :
    replaceAll ((wholeWord w name).comap f) new s = s := by
  refine replaceFrom_eq_self ?_
  rintro a b rfl - m g hmem
  have hmem' := mem_comap hmem
  rw [Option.or_none, ← List.getLast?_map] at hmem'
  rw [List.map_append] at h
  exact absurd (hasWord_of_mem hne hname hmem') h

/-- Two texts side by side, when no word goes on from one into the other. -/
lemma hasWord_append_iff {a b : List α}
    (hend : ∀ c ∈ a.getLast?, w c = true → ∀ d ∈ b.head?, w d = false) :
    HasWord w name (a ++ b) ↔ HasWord w name a ∨ HasWord w name b := by
  constructor
  · rintro ⟨x, y, h, hx, hy⟩
    rw [List.append_assoc] at h
    rcases List.append_eq_append_iff.1 h with ⟨x', rfl, rfl⟩ | ⟨c, rfl, hc⟩
    · refine Or.inr ⟨x', y, (List.append_assoc _ _ _).symm, fun d hd => hx d ?_, hy⟩
      rw [List.getLast?_append, hd]
      rfl
    rcases List.append_eq_append_iff.1 hc with ⟨y', rfl, rfl⟩ | ⟨e, rfl, rfl⟩
    · refine Or.inl ⟨x, y', (List.append_assoc _ _ _).symm, hx, fun d hd => hy d ?_⟩
      rw [List.head?_append, hd]
      rfl
    · -- the name would stand on both sides
      obtain rfl | hcne := eq_or_ne c []
      · exact Or.inr ⟨[], y, rfl, by simp, hy⟩
      obtain rfl | hene := eq_or_ne e []
      · exact Or.inl ⟨x, [], by simp, hx, by simp⟩
      have hlast : (x ++ c).getLast? = some (c.getLast hcne) := by
        rw [List.getLast?_append_of_ne_nil _ hcne, List.getLast?_eq_some_getLast hcne]
      have hhead : (e ++ y).head? = some (e.head hene) := by
        rw [List.head?_append_of_ne_nil _ hene, List.head?_eq_some_head hene]
      have hword := hend _ hlast (hname _ (List.mem_append_left _ (List.getLast_mem hcne))) _ hhead
      rw [hname _ (List.mem_append_right _ (List.head_mem hene))] at hword
      cases hword
  · rintro (⟨x, y, rfl, hx, hy⟩ | ⟨x, y, rfl, hx, hy⟩)
    · refine ⟨x, y ++ b, by simp, hx, fun d hd => ?_⟩
      cases y with
      | cons c y => exact hy d hd
      | nil =>
          have hlast : (x ++ name ++ []).getLast? = some (name.getLast hne) := by
            rw [List.append_nil, List.getLast?_append_of_ne_nil _ hne,
              List.getLast?_eq_some_getLast hne]
          exact hend _ hlast (hname _ (List.getLast_mem hne)) d hd
    · refine ⟨a ++ x, y, by simp, fun d hd => ?_, hy⟩
      cases x with
      | cons c x =>
          rw [List.getLast?_append_of_ne_nil _ (List.cons_ne_nil c x)] at hd
          exact hx d hd
      | nil =>
          rw [List.append_nil] at hd
          have hhead : ([] ++ name ++ y).head? = some (name.head hne) := by
            rw [List.nil_append, List.head?_append_of_ne_nil _ hne, List.head?_eq_some_head hne]
          by_contra hword
          have hfalse := hend d hd (Bool.not_eq_false _ ▸ hword) _ hhead
          rw [hname _ (List.head_mem hne)] at hfalse
          cases hfalse

end

end Regex

end ElasticFramework
