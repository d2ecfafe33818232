import ElasticFramework.Framework.Regex
import Mathlib.Data.List.Flatten

/-!
# The tokens of C

Texts cut into blanks, comments and tokens, each token being the longest one there is: identifiers,
preprocessing numbers, character constants, string literals and punctuators, and any other
character by itself.  Lines are not spliced, and the name of a header is no token of its own.

Where a token ends matters to what may be put behind it.  `Fits` says what is true of every token:
it stays on its line, a word in it ends with it, and a slash at its end is all of it.
-/

namespace ElasticFramework

namespace CLex

/-! ## The longest token -/

def quote : Char := Char.ofNat 39

def doubleQuote : Char := Char.ofNat 34

def backslash : Char := Char.ofNat 92

/-- The identifier in front of the text, by its length. -/
def identifier (s : List Char) : ℕ :=
  if s.head?.any fun c => isWord c && !c.isDigit then (s.takeWhile isWord).length else 0

/-- What a preprocessing number goes on with. -/
def numberTail : List Char → ℕ
  | [] => 0
  | [c] => if isWord c || c = '.' then 1 else 0
  | c :: d :: s =>
    if c ∈ ['e', 'E', 'p', 'P'] ∧ d ∈ ['+', '-'] then numberTail s + 2
    else if isWord c || c = '.' then numberTail (d :: s) + 1
    else 0

/-- The preprocessing number in front of the text. -/
def number : List Char → ℕ
  | [] => 0
  | c :: s =>
    if c.isDigit || (c = '.' && s.head?.any Char.isDigit) then numberTail s + 1 else 0

/-- The characters up to the closing quote, on the same line; `escaped` is said of the first. -/
def quoted (q : Char) : Bool → List Char → Option ℕ
  | _, [] => none
  | escaped, c :: s =>
    if c = '\n' then none
    else if escaped then (quoted q false s).map (· + 1)
    else if c = q then some 1
    else (quoted q (decide (c = backslash)) s).map (· + 1)

/-- The constant in quotes, which has `least` characters at least. -/
def constant (q : Char) (least : ℕ) : List Char → ℕ
  | [] => 0
  | c :: s =>
    if c = q then
      match quoted q false s with
      | some n => if least < n then n + 1 else 0
      | none => 0
    else 0

/-- The same behind an `L`. -/
def wideConstant (q : Char) (least : ℕ) : List Char → ℕ
  | [] => 0
  | c :: s => if c = 'L' ∧ 0 < constant q least s then constant q least s + 1 else 0

def punctuators : List (List Char) :=
  [['['], [']'], ['('], [')'], ['{'], ['}'], ['.'], ['-', '>'], ['+', '+'], ['-', '-'], ['&'],
    ['*'], ['+'], ['-'], ['~'], ['!'], ['/'], ['%'], ['<', '<'], ['>', '>'], ['<'], ['>'],
    ['<', '='], ['>', '='], ['=', '='], ['!', '='], ['^'], ['|'], ['&', '&'], ['|', '|'], ['?'],
    [':'], [';'], ['.', '.', '.'], ['='], ['*', '='], ['/', '='], ['%', '='], ['+', '='],
    ['-', '='], ['<', '<', '='], ['>', '>', '='], ['&', '='], ['^', '='], ['|', '='], [','], ['#'],
    ['#', '#'], ['<', ':'], [':', '>'], ['<', '%'], ['%', '>'], ['%', ':'], ['%', ':', '%', ':']]

/-- The tokens in front of the text. -/
def candidates (s : List Char) : List ℕ :=
  [identifier s, number s, constant quote 1 s, wideConstant quote 1 s, constant doubleQuote 0 s,
    wideConstant doubleQuote 0 s] ++
    (punctuators.filter fun p => p.isPrefixOf s).map List.length

/-- The longest of them; a character that starts none is one. -/
def munch (s : List Char) : ℕ := max 1 ((candidates s).foldr max 0)

/-! ## What is true of a token -/

/-- The first `n` characters may be a token. -/
structure Fits (s : List Char) (n : ℕ) : Prop where
  le : n ≤ s.length
  newline : '\n' ∉ s.take n
  word : ∀ c ∈ (s.take n).getLast?, isWord c = true → ∀ d ∈ (s.drop n).head?, isWord d = false
  slash : (s.take n).getLast? = some '/' → n = 1

lemma fits_zero (s : List Char) : Fits s 0 where
  le := Nat.zero_le _
  newline := by simp
  word := by simp
  slash := by simp

lemma fits_foldr {s : List Char} {l : List ℕ} (h : ∀ n ∈ l, Fits s n) :
    Fits s (l.foldr max 0) := by
  induction l with
  | nil => exact fits_zero s
  | cons n l ih =>
      obtain ⟨hn, hl⟩ := List.forall_mem_cons.1 h
      rw [List.foldr_cons]
      rcases max_choice n (l.foldr max 0) with hmax | hmax <;> rw [hmax]
      · exact hn
      · exact ih hl

/-- Characters that go on until there is no character of a word. -/
lemma fits_of_forall {s : List Char} {n : ℕ} (hle : n ≤ s.length)
    (hall : ∀ c ∈ s.take n, c ≠ '\n' ∧ c ≠ '/') (hend : ∀ d ∈ (s.drop n).head?, isWord d = false) :
    Fits s n where
  le := hle
  newline hmem := (hall _ hmem).1 rfl
  word _ _ _ := hend
  slash hlast := absurd rfl (hall '/' (List.mem_of_getLast? hlast)).2

/-- A token that ends with a character that is neither a slash nor of a word. -/
lemma fits_of_getLast {s : List Char} {n : ℕ} {c : Char} (hle : n ≤ s.length)
    (hnewline : '\n' ∉ s.take n) (hlast : (s.take n).getLast? = some c) (hword : isWord c = false)
    (hslash : c ≠ '/') : Fits s n where
  le := hle
  newline := hnewline
  word d hd hisWord := by
    rw [hlast] at hd
    cases hd
    exact absurd hisWord (by simp [hword])
  slash h := by
    rw [hlast] at h
    exact absurd (Option.some_inj.1 h) hslash

lemma ne_of_isWord {c : Char} (h : isWord c = true) : c ≠ '\n' ∧ c ≠ '/' := by
  constructor <;> (rintro rfl; exact absurd h (by decide))

lemma head_drop_takeWhile (p : Char → Bool) (s : List Char) :
    ∀ d ∈ (s.drop (s.takeWhile p).length).head?, p d = false := by
  induction s with
  | nil => simp
  | cons c s ih =>
      by_cases hc : p c = true
      · simpa [hc] using ih
      · simp [hc]

lemma fits_identifier (s : List Char) : Fits s (identifier s) := by
  unfold identifier
  split
  · have htake : s.take (s.takeWhile isWord).length = s.takeWhile isWord :=
      (List.prefix_iff_eq_take.1 (List.takeWhile_prefix isWord)).symm
    refine fits_of_forall (List.takeWhile_prefix isWord).length_le (fun c hc => ?_)
      (head_drop_takeWhile isWord s)
    rw [htake] at hc
    exact ne_of_isWord (List.mem_takeWhile_imp hc)
  · exact fits_zero s

lemma numberTail_spec (s : List Char) : numberTail s ≤ s.length ∧
    (∀ c ∈ s.take (numberTail s), c ≠ '\n' ∧ c ≠ '/') ∧
    ∀ d ∈ (s.drop (numberTail s)).head?, isWord d = false := by
  have hchar : ∀ c, (isWord c || c = '.') = true → c ≠ '\n' ∧ c ≠ '/' := by
    intro c hc
    rcases Bool.or_eq_true_iff.1 hc with hc | hc
    · exact ne_of_isWord hc
    · rw [of_decide_eq_true hc]
      decide
  have hstop : ∀ c, ¬ (isWord c || c = '.') = true → isWord c = false := by
    intro c hc
    simpa using (not_or.1 (fun h => hc (Bool.or_eq_true_iff.2 h))).1
  induction s using numberTail.induct with
  | case1 => simp [numberTail]
  | case2 c hc =>
      rw [numberTail, if_pos hc]
      exact ⟨le_rfl, by simpa using hchar c hc, by simp⟩
  | case3 c hc =>
      rw [numberTail, if_neg hc]
      exact ⟨Nat.zero_le _, by simp, by simpa using hstop c hc⟩
  | case4 c d s hsign ih =>
      rw [numberTail, if_pos hsign]
      obtain ⟨hle, hall, hend⟩ := ih
      have hexponent : ∀ c ∈ ['e', 'E', 'p', 'P'], c ≠ '\n' ∧ c ≠ '/' := by simp
      have hsigns : ∀ c ∈ ['+', '-'], c ≠ '\n' ∧ c ≠ '/' := by simp
      exact ⟨by simpa using hle, List.forall_mem_cons.2 ⟨hexponent c hsign.1,
        List.forall_mem_cons.2 ⟨hsigns d hsign.2, hall⟩⟩, hend⟩
  | case5 c d s hsign hc ih =>
      rw [numberTail, if_neg hsign, if_pos hc]
      obtain ⟨hle, hall, hend⟩ := ih
      exact ⟨by simpa using hle, List.forall_mem_cons.2 ⟨hchar c hc, hall⟩, hend⟩
  | case6 c d s hsign hc =>
      rw [numberTail, if_neg hsign, if_neg hc]
      exact ⟨Nat.zero_le _, by simp, by simpa using hstop c hc⟩

lemma fits_number (s : List Char) : Fits s (number s) := by
  cases s with
  | nil => exact fits_zero []
  | cons c s =>
      rw [number]
      split
      · rename_i hc
        obtain ⟨hle, hall, hend⟩ := numberTail_spec s
        have hstart : c ≠ '\n' ∧ c ≠ '/' := by
          constructor <;> (rintro rfl; simp at hc)
        exact fits_of_forall (by simpa using hle) (List.forall_mem_cons.2 ⟨hstart, hall⟩) hend
      · exact fits_zero _

lemma quoted_spec {q : Char} {s : List Char} {escaped : Bool} {n : ℕ}
    (h : quoted q escaped s = some n) :
    n ≤ s.length ∧ '\n' ∉ s.take n ∧ (s.take n).getLast? = some q := by
  induction s generalizing escaped n with
  | nil => simp [quoted] at h
  | cons c s ih =>
      -- the quote comes later
      have hlater : c ≠ '\n' → ∀ e, (quoted q e s).map (· + 1) = some n →
          n ≤ (c :: s).length ∧ '\n' ∉ (c :: s).take n ∧ ((c :: s).take n).getLast? = some q := by
        intro hc e he
        obtain ⟨m, hm, rfl⟩ := Option.map_eq_some_iff.1 he
        obtain ⟨hle, hnewline, hlast⟩ := ih hm
        refine ⟨by simpa using hle, ?_, ?_⟩
        · rw [List.take_succ_cons, List.mem_cons, not_or]
          exact ⟨Ne.symm hc, hnewline⟩
        · rw [List.take_succ_cons, List.getLast?_cons, hlast]
          rfl
      rw [quoted] at h
      split at h
      · cases h
      · rename_i hc
        split at h
        · exact hlater hc false h
        · split at h
          · rename_i hq
            cases h
            subst hq
            simpa using Ne.symm hc
          · exact hlater hc _ h

lemma constant_spec {q : Char} (hq : q ≠ '\n') {least : ℕ} {s : List Char}
    (h : 0 < constant q least s) : constant q least s ≤ s.length ∧
      '\n' ∉ s.take (constant q least s) ∧ (s.take (constant q least s)).getLast? = some q := by
  cases s with
  | nil => exact absurd h (lt_irrefl 0)
  | cons c s =>
      rw [constant] at h ⊢
      split at h
      · rename_i hc
        rw [if_pos hc]
        split at h
        · rename_i n hn
          split at h
          · rename_i hleast
            obtain ⟨hle, hnewline, hlast⟩ := quoted_spec hn
            simp only [if_pos hleast]
            refine ⟨by simpa using hle, ?_, ?_⟩
            · rw [List.take_succ_cons, List.mem_cons, not_or, hc]
              exact ⟨Ne.symm hq, hnewline⟩
            · rw [List.take_succ_cons, List.getLast?_cons, hlast]
              rfl
          · exact absurd h (lt_irrefl 0)
        · exact absurd h (lt_irrefl 0)
      · exact absurd h (lt_irrefl 0)

section

variable {q : Char} (hword : isWord q = false) (hslash : q ≠ '/') (hq : q ≠ '\n')

include hword hslash hq

lemma fits_constant (least : ℕ) (s : List Char) : Fits s (constant q least s) := by
  rcases Nat.eq_zero_or_pos (constant q least s) with hzero | hpos
  · rw [hzero]
    exact fits_zero s
  · obtain ⟨hle, hnewline, hlast⟩ := constant_spec hq hpos
    exact fits_of_getLast hle hnewline hlast hword hslash

lemma fits_wideConstant (least : ℕ) (s : List Char) : Fits s (wideConstant q least s) := by
  cases s with
  | nil => exact fits_zero []
  | cons c s =>
      rw [wideConstant]
      split
      · rename_i hc
        obtain ⟨hle, hnewline, hlast⟩ := constant_spec hq hc.2
        refine fits_of_getLast (by simpa using hle) ?_ ?_ hword hslash
        · rw [List.take_succ_cons, List.mem_cons, not_or, hc.1]
          exact ⟨by decide, hnewline⟩
        · rw [List.take_succ_cons, List.getLast?_cons, hlast]
          rfl
      · exact fits_zero _

end

lemma punctuators_spec : ∀ p ∈ punctuators, '\n' ∉ p ∧
    p.getLast?.any (fun c => !isWord c && (c != '/' || p.length == 1)) = true := by
  decide

lemma fits_punctuator {p s : List Char} (hp : p ∈ punctuators) (h : p <+: s) :
    Fits s p.length := by
  obtain ⟨hnewline, hany⟩ := punctuators_spec p hp
  obtain ⟨c, hc, hchar⟩ := (Option.any_eq_true _ _).1 hany
  obtain ⟨hword, hslash⟩ : isWord c = false ∧ (c = '/' → p.length = 1) := by
    simpa [or_iff_not_imp_left] using hchar
  have htake : s.take p.length = p := (List.prefix_iff_eq_take.1 h).symm
  exact {
    le := h.length_le
    newline := by rwa [htake]
    word := by
      rw [htake]
      intro d hd hisWord
      cases Option.mem_unique hc hd
      exact absurd hisWord (by simp [hword])
    slash := by
      rw [htake]
      intro hlast
      exact hslash (Option.mem_unique hc hlast) }

lemma fits_candidates {s : List Char} : ∀ n ∈ candidates s, Fits s n := by
  have hquote : isWord quote = false ∧ quote ≠ '/' ∧ quote ≠ '\n' := by decide
  have hdouble : isWord doubleQuote = false ∧ doubleQuote ≠ '/' ∧ doubleQuote ≠ '\n' := by decide
  intro n hn
  rcases List.mem_append.1 hn with hn | hn
  · simp only [List.mem_cons, List.not_mem_nil, or_false] at hn
    rcases hn with rfl | rfl | rfl | rfl | rfl | rfl
    · exact fits_identifier s
    · exact fits_number s
    · exact fits_constant hquote.1 hquote.2.1 hquote.2.2 1 s
    · exact fits_wideConstant hquote.1 hquote.2.1 hquote.2.2 1 s
    · exact fits_constant hdouble.1 hdouble.2.1 hdouble.2.2 0 s
    · exact fits_wideConstant hdouble.1 hdouble.2.1 hdouble.2.2 0 s
  · obtain ⟨p, hp, rfl⟩ := List.mem_map.1 hn
    obtain ⟨hmem, hfront⟩ := List.mem_filter.1 hp
    exact fits_punctuator hmem (List.isPrefixOf_iff_prefix.1 hfront)

lemma le_foldr_max {l : List ℕ} {n : ℕ} (h : n ∈ l) : n ≤ l.foldr max 0 := by
  induction l with
  | nil => cases h
  | cons m l ih =>
      rw [List.foldr_cons]
      rcases List.mem_cons.1 h with rfl | h
      · exact le_max_left _ _
      · exact (ih h).trans (le_max_right _ _)

lemma munch_pos (s : List Char) : 0 < munch s := lt_of_lt_of_le Nat.one_pos (le_max_left 1 _)

/-- The longest token fits. -/
theorem fits_munch {c : Char} {s : List Char} (hc : c ≠ '\n') : Fits (c :: s) (munch (c :: s)) := by
  rcases Nat.eq_zero_or_pos ((candidates (c :: s)).foldr max 0) with hzero | hpos
  · have hnone : ∀ n ∈ candidates (c :: s), n = 0 := fun n hn =>
      Nat.le_zero.1 (hzero ▸ le_foldr_max hn)
    have hidentifier : identifier (c :: s) = 0 := hnone _ (by simp [candidates])
    have hnumber : number (c :: s) = 0 := hnone _ (by simp [candidates])
    -- a character of a word starts a number or an identifier
    have hword : isWord c = false := by
      by_contra hword
      rw [Bool.not_eq_false] at hword
      by_cases hdigit : c.isDigit = true
      · simp [number, hdigit] at hnumber
      · simp [identifier, hword, hdigit] at hidentifier
    rw [munch, hzero]
    exact {
      le := by simp
      newline := by simpa using Ne.symm hc
      word := by simp [hword]
      slash := fun _ => rfl }
  · rw [munch, max_eq_right hpos]
    exact fits_foldr fits_candidates

/-! ## The pieces of a text -/

/-- What a piece is; a blank is one character of whitespace. -/
inductive Kind
  | blank
  | token
  | lineComment
  | blockComment
  deriving DecidableEq

structure Piece where
  kind : Kind
  text : List Char
  deriving DecidableEq

/-- The characters up to the end of a block comment. -/
def blockEnd : List Char → ℕ
  | [] => 0
  | c :: s => if c = '*' ∧ s.head? = some '/' then 2 else blockEnd s + 1

/-- The piece in front of the text; a comment leaves the end of its line. -/
def lexeme (s : List Char) : Piece :=
  if s.head?.any isSpace then ⟨.blank, s.take 1⟩
  else if ['/', '/'].isPrefixOf s then ⟨.lineComment, s.takeWhile fun c => decide (c ≠ '\n')⟩
  else if ['/', '*'].isPrefixOf s then ⟨.blockComment, s.take (2 + blockEnd (s.drop 2))⟩
  else ⟨.token, s.take (munch s)⟩

/-- Up to `n` pieces. -/
def cut : ℕ → List Char → List Piece
  | 0, _ => []
  | _, [] => []
  | n + 1, c :: s => lexeme (c :: s) :: cut n ((c :: s).drop (lexeme (c :: s)).text.length)

/-- The pieces of a text. -/
def pieces (s : List Char) : List Piece := cut s.length s

/-- Its tokens. -/
def tokens (s : List Char) : List (List Char) :=
  ((pieces s).filter fun p => decide (p.kind = .token)).map Piece.text

lemma lexeme_prefix (s : List Char) : (lexeme s).text <+: s := by
  unfold lexeme
  split_ifs
  · exact List.take_prefix _ _
  · exact List.takeWhile_prefix _
  · exact List.take_prefix _ _
  · exact List.take_prefix _ _

lemma lexeme_ne_nil (c : Char) (s : List Char) : (lexeme (c :: s)).text ≠ [] := by
  unfold lexeme
  split_ifs with hblank hline hblock
  · simp
  · obtain ⟨t, ht⟩ := List.isPrefixOf_iff_prefix.1 hline
    simp [← ht]
  · rw [Nat.add_comm, List.take_succ_cons]
    exact List.cons_ne_nil _ _
  · have hpos := munch_pos (c :: s)
    simp only [ne_eq, List.take_eq_nil_iff, reduceCtorEq, or_false]
    omega

lemma cut_eq {n m : ℕ} {s : List Char} (hn : s.length ≤ n) (hm : s.length ≤ m) :
    cut n s = cut m s := by
  induction n generalizing m s with
  | zero =>
      obtain rfl := List.length_eq_zero_iff.1 (Nat.le_zero.1 hn)
      cases m <;> rfl
  | succ n ih =>
      cases s with
      | nil => cases m <;> rfl
      | cons c s =>
          obtain _ | m := m
          · exact absurd hm (by simp)
          have hpos := List.length_pos_iff.2 (lexeme_ne_nil c s)
          rw [List.length_cons] at hn hm
          rw [cut, cut]
          refine congrArg _ (ih ?_ ?_)
          all_goals
            rw [List.length_drop, List.length_cons]
            omega

lemma pieces_of_lexeme {p : Piece} {r : List Char} (hne : p.text ≠ [])
    (h : lexeme (p.text ++ r) = p) : pieces (p.text ++ r) = p :: pieces r := by
  obtain ⟨c, t, ht⟩ := List.exists_cons_of_ne_nil hne
  have hcut : pieces (p.text ++ r) = p :: cut (t ++ r).length r := by
    rw [pieces]
    conv_lhs => rw [ht, List.cons_append, List.length_cons, cut, ← List.cons_append, ← ht, h]
    rw [List.drop_left]
  rw [hcut, pieces]
  exact congrArg _ (cut_eq (by simp) le_rfl)

/-- Induction over the pieces of a text. -/
theorem pieces_induction {P : List Char → Prop} (nil : P [])
    (piece : ∀ p r, p.text ≠ [] → lexeme (p.text ++ r) = p → P r → P (p.text ++ r))
    (s : List Char) : P s := by
  induction hlength : s.length using Nat.strong_induction_on generalizing s with
  | _ n ih =>
    subst hlength
    obtain _ | ⟨c, s⟩ := s
    · exact nil
    obtain ⟨r, hr⟩ := lexeme_prefix (c :: s)
    have hne := lexeme_ne_nil c s
    have hrest : P r := by
      refine ih r.length ?_ r rfl
      have hpos := List.length_pos_iff.2 hne
      rw [← hr, List.length_append]
      omega
    rw [← hr]
    exact piece (lexeme (c :: s)) r hne (by rw [hr]) hrest

/-- The pieces make up the text. -/
lemma flatMap_pieces (s : List Char) : (pieces s).flatMap Piece.text = s := by
  induction s using pieces_induction with
  | nil => rfl
  | piece p r hne h ih => rw [pieces_of_lexeme hne h, List.flatMap_cons, ih]

/-- The tokens are in the text, in their order. -/
lemma tokens_sublist (s : List Char) : (tokens s).flatten.Sublist s := by
  conv_rhs => rw [← flatMap_pieces s]
  rw [tokens, ← List.flatMap_def]
  exact List.filter_sublist.flatMap _

/-- `t` is the token in front of `t ++ r`. -/
def IsToken (t r : List Char) : Prop := t ≠ [] ∧ lexeme (t ++ r) = ⟨.token, t⟩

lemma lexeme_cases (s : List Char) :
    (s.head?.any isSpace = true ∧ lexeme s = ⟨.blank, s.take 1⟩) ∨
    (['/', '/'] <+: s ∧ lexeme s = ⟨.lineComment, s.takeWhile fun c => decide (c ≠ '\n')⟩) ∨
    (['/', '*'] <+: s ∧ (lexeme s).kind = .blockComment) ∨
    ((s.head?.any isSpace = false ∧ ¬ ['/', '/'] <+: s ∧ ¬ ['/', '*'] <+: s) ∧
      lexeme s = ⟨.token, s.take (munch s)⟩) := by
  simp only [← List.isPrefixOf_iff_prefix, lexeme]
  split_ifs with hblank hline hblock
  · exact Or.inl ⟨hblank, rfl⟩
  · exact Or.inr (Or.inl ⟨hline, rfl⟩)
  · exact Or.inr (Or.inr (Or.inl ⟨hblock, rfl⟩))
  · exact Or.inr (Or.inr (Or.inr ⟨⟨Bool.not_eq_true _ ▸ hblank, hline, hblock⟩, rfl⟩))

lemma text_of_blank {s t : List Char} (h : lexeme s = ⟨.blank, t⟩) :
    ∃ c, t = [c] ∧ isSpace c = true := by
  rcases lexeme_cases s with ⟨hblank, heq⟩ | ⟨-, heq⟩ | ⟨-, hkind⟩ | ⟨-, heq⟩
  · obtain ⟨-, rfl⟩ := Piece.mk.inj (h.symm.trans heq)
    cases s with
    | nil => exact absurd hblank (by simp)
    | cons c s => exact ⟨c, rfl, hblank⟩
  · cases h.symm.trans heq
  · rw [h] at hkind
    cases hkind
  · cases h.symm.trans heq

lemma text_of_lineComment {t r : List Char} (h : lexeme (t ++ r) = ⟨.lineComment, t⟩) :
    ∃ x, t = '/' :: '/' :: x ∧ '\n' ∉ x ∧ ∀ c ∈ r.head?, c = '\n' := by
  rcases lexeme_cases (t ++ r) with ⟨-, heq⟩ | ⟨hline, heq⟩ | ⟨-, hkind⟩ | ⟨-, heq⟩
  · cases h.symm.trans heq
  · obtain ⟨-, htext⟩ := Piece.mk.inj (heq.symm.trans h)
    have hend := head_drop_takeWhile (fun c => decide (c ≠ '\n')) (t ++ r)
    rw [htext, List.drop_left] at hend
    have hline : ['/', '/'] <+: t := by
      obtain ⟨y, hy⟩ := hline
      rw [← htext, ← hy]
      exact ⟨y.takeWhile fun c => decide (c ≠ '\n'), by simp⟩
    obtain ⟨x, rfl⟩ := hline
    refine ⟨x, rfl, fun hmem => ?_, by simpa using hend⟩
    have hnewline : '\n' ∈ ['/', '/'] ++ x := List.mem_append_right _ hmem
    rw [← htext] at hnewline
    simpa using List.mem_takeWhile_imp hnewline
  · rw [h] at hkind
    cases hkind
  · cases h.symm.trans heq

lemma lexeme_token_iff {s t : List Char} : lexeme s = ⟨.token, t⟩ ↔
    (s.head?.any isSpace = false ∧ ¬ ['/', '/'] <+: s ∧ ¬ ['/', '*'] <+: s) ∧
      s.take (munch s) = t := by
  rcases lexeme_cases s with ⟨hblank, heq⟩ | ⟨hline, heq⟩ | ⟨hblock, hkind⟩ | ⟨h, heq⟩
  · simp [heq, hblank]
  · simp [heq, hline]
  · refine iff_of_false (fun h => ?_) (fun h => h.1.2.2 hblock)
    rw [h] at hkind
    cases hkind
  · simp [heq, h]

/-- A text in front of which nothing else stands starts with the longest token. -/
lemma isToken_munch {s : List Char} (hne : s ≠ [])
    (h : s.head?.any isSpace = false ∧ ¬ ['/', '/'] <+: s ∧ ¬ ['/', '*'] <+: s) :
    IsToken (s.take (munch s)) (s.drop (munch s)) := by
  constructor
  · have hpos := munch_pos s
    have hlength := List.length_pos_iff.2 hne
    rw [← List.length_pos_iff, List.length_take]
    omega
  · rw [List.take_append_drop]
    exact lexeme_token_iff.2 ⟨h, rfl⟩

namespace IsToken

variable {t r : List Char} (h : IsToken t r)

include h

lemma fits_munch_eq : Fits (t ++ r) (munch (t ++ r)) ∧ munch (t ++ r) = t.length := by
  obtain ⟨hne, hlexeme⟩ := h
  obtain ⟨⟨hblank, -, -⟩, htake⟩ := lexeme_token_iff.1 hlexeme
  obtain ⟨c, t', rfl⟩ := List.exists_cons_of_ne_nil hne
  have hc : c ≠ '\n' := by
    rintro rfl
    simp [isSpace] at hblank
  have hfits : Fits (c :: t' ++ r) (munch (c :: t' ++ r)) := fits_munch hc
  refine ⟨hfits, ?_⟩
  conv_rhs => rw [← htake, List.length_take, min_eq_left hfits.le]

lemma munch_eq : munch (t ++ r) = t.length := h.fits_munch_eq.2

lemma fits : Fits (t ++ r) t.length := by
  have hfits := h.fits_munch_eq.1
  rwa [h.munch_eq] at hfits

lemma newline : '\n' ∉ t := by
  have hnewline := h.fits.newline
  rwa [List.take_left] at hnewline

/-- A word at the end of the token ends with it. -/
lemma word : ∀ c ∈ t.getLast?, isWord c = true → ∀ d ∈ r.head?, isWord d = false := by
  have hword := h.fits.word
  rwa [List.take_left, List.drop_left] at hword

lemma slash (hlast : t.getLast? = some '/') : t = ['/'] := by
  have hslash := h.fits.slash
  rw [List.take_left] at hslash
  obtain ⟨c, rfl⟩ := List.length_eq_one_iff.1 (hslash hlast)
  simpa using hlast

end IsToken

lemma pieces_token {t r : List Char} (h : IsToken t r) :
    pieces (t ++ r) = ⟨.token, t⟩ :: pieces r :=
  pieces_of_lexeme (p := ⟨.token, t⟩) h.1 h.2

lemma pieces_blank {c : Char} (hc : isSpace c = true) (r : List Char) :
    pieces (c :: r) = ⟨.blank, [c]⟩ :: pieces r :=
  pieces_of_lexeme (p := ⟨.blank, [c]⟩) (by simp) (by simp [lexeme, hc])

lemma pieces_comment {x r : List Char} (hx : '\n' ∉ x) (hr : ∀ c ∈ r.head?, c = '\n') :
    pieces ('/' :: '/' :: (x ++ r)) = ⟨.lineComment, '/' :: '/' :: x⟩ :: pieces r := by
  refine pieces_of_lexeme (p := ⟨.lineComment, '/' :: '/' :: x⟩) (by simp) ?_
  have htake : (x ++ r).takeWhile (fun c => decide (c ≠ '\n')) = x := by
    have hall : ∀ c ∈ x, decide (c ≠ '\n') = true := fun c hc =>
      decide_eq_true fun (h : c = '\n') => hx (h ▸ hc)
    rw [List.takeWhile_append_of_pos hall]
    cases r with
    | nil => simp
    | cons c r => simp [hr c rfl]
  change lexeme ('/' :: '/' :: (x ++ r)) = _
  rw [lexeme, if_neg (by simp [isSpace]), if_pos (by simp)]
  simp only [List.takeWhile_cons, htake]
  rfl

lemma tokens_token {t r : List Char} (h : IsToken t r) : tokens (t ++ r) = t :: tokens r := by
  rw [tokens, pieces_token h]
  rfl

lemma tokens_blank {c : Char} (hc : isSpace c = true) (r : List Char) :
    tokens (c :: r) = tokens r := by
  rw [tokens, pieces_blank hc]
  rfl

lemma tokens_comment {x r : List Char} (hx : '\n' ∉ x) (hr : ∀ c ∈ r.head?, c = '\n') :
    tokens ('/' :: '/' :: (x ++ r)) = tokens r := by
  rw [tokens, pieces_comment hx hr]
  rfl

/-- A text without block comments, piece by piece. -/
inductive Lexed : List Char → Prop
  | nil : Lexed []
  | blank {c : Char} {r : List Char} (hc : isSpace c = true) (h : Lexed r) : Lexed (c :: r)
  | comment {x r : List Char} (hx : '\n' ∉ x) (hr : ∀ c ∈ r.head?, c = '\n') (h : Lexed r) :
      Lexed ('/' :: '/' :: (x ++ r))
  | token {t r : List Char} (ht : IsToken t r) (h : Lexed r) : Lexed (t ++ r)

theorem lexed {s : List Char} (h : ∀ p ∈ pieces s, p.kind ≠ .blockComment) : Lexed s := by
  induction s using pieces_induction with
  | nil => exact .nil
  | piece p r hne hlexeme ih =>
      rw [pieces_of_lexeme hne hlexeme, List.forall_mem_cons] at h
      obtain ⟨hkind, hrest⟩ := h
      have hrest := ih hrest
      obtain ⟨kind, text⟩ := p
      cases kind with
      | token => exact .token ⟨hne, hlexeme⟩ hrest
      | blockComment => exact absurd rfl hkind
      | blank =>
          obtain ⟨c, rfl, hc⟩ := text_of_blank hlexeme
          exact .blank hc hrest
      | lineComment =>
          obtain ⟨x, rfl, hx, hend⟩ := text_of_lineComment hlexeme
          exact .comment hx hend hrest

end CLex

end ElasticFramework
