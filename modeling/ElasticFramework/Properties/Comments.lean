import ElasticFramework.Construction.Parser
import ElasticFramework.Framework.CTokens

/-!
# Comments taken out of a source

`Preprocessor` removes a comment together with the end of its line, and finds comments by their two
slashes alone.  So what stands in front of a comment meets the next line; a comment without a line
end stays; and two slashes in a token take the rest of the line with them.  `preserved_iff` says
that the tokens survive, and no comment does, exactly when none of this does any harm.
-/

namespace ElasticFramework

namespace Parser

open Regex CLex

/-! ## The property -/

/-- The characters of a text, and whether they stand in a comment. -/
def marked (code : List Char) : List (Char × Bool) :=
  (pieces code).flatMap fun p => p.text.map fun c => (c, decide (p.kind = .lineComment))

/-- `Preprocessor` on marked characters. -/
def preprocessorOn (code : List (Char × Bool)) : List (Char × Bool) :=
  let code := replaceAll (counter32.comap Prod.fst) [('*', false)] code
  let code := replaceAll (comment.comap Prod.fst) [] code
  replaceAll (guidArg.comap Prod.fst) [] code

/-- The tokens are those of the text outside its comments, and no character of a comment is left. -/
def Preserved (code : List Char) : Prop :=
  tokens (preprocessor code) = tokens code ∧ ∀ c ∈ preprocessorOn (marked code), c.2 = false

/-- The text without the comments and the line ends behind them. -/
def uncommented : List Piece → List Char
  | [] => []
  | p :: ps => if p.kind = .lineComment then (uncommented ps).tail else p.text ++ uncommented ps

/-- Something is true of every piece and the pieces behind it. -/
def EachRest (P : Piece → List Piece → Prop) : List Piece → Prop
  | [] => True
  | p :: ps => P p ps ∧ EachRest P ps

/-- A comment does not run to the end of the text. -/
def Ended (p : Piece) (ps : List Piece) : Prop := p.kind = .lineComment → ps ≠ []

/-- A token with two slashes in it stands on a line without an end. -/
def Unslashed (p : Piece) (ps : List Piece) : Prop :=
  p.kind = .token → ['/', '/'] <:+: p.text → '\n' ∉ ps.flatMap Piece.text

/-- A token is the longest one in front of what comes to follow it. -/
def Separate (p : Piece) (ps : List Piece) : Prop :=
  p.kind = .token → munch (p.text ++ uncommented ps) = p.text.length

/-- When the comments of a text can be taken out. -/
structure Removable (code : List Char) : Prop where
  ended : EachRest Ended (pieces code)
  unslashed : EachRest Unslashed (pieces code)
  separate : EachRest Separate (pieces code)

lemma map_preprocessorOn (code : List (Char × Bool)) :
    (preprocessorOn code).map Prod.fst = preprocessor (code.map Prod.fst) := by
  rw [preprocessorOn, preprocessor, replaceAll, map_replaceFrom, replaceAll, map_replaceFrom,
    replaceAll, map_replaceFrom]
  rfl

lemma map_fst_mark (b : Bool) (t : List Char) : (t.map fun c => (c, b)).map Prod.fst = t := by
  rw [List.map_map]
  exact List.map_id t

lemma map_marked (code : List Char) : (marked code).map Prod.fst = code := by
  conv_rhs => rw [← flatMap_pieces code]
  rw [marked, List.map_flatMap]
  simp [Function.comp_def]

/-! ## The expression for comments -/

lemma comment_nil {prev : Option Char} {s : List Char}
    (h : ¬ ['/', '/'] <+: s ∨ '\n' ∉ s) {m : List Char} {g : List (List Char)} :
    (m, g) ∉ comment.results prev s := by
  intro hmem
  obtain ⟨t, _, _, rfl, hmany⟩ := of_mem_literal_seq hmem
  obtain ⟨x, r, _, _, rfl, -, hone⟩ := of_mem_many_seq hmany
  obtain ⟨c, r, rfl, hc, -⟩ := mem_one.1 hone
  obtain rfl : c = '\n' := of_decide_eq_true hc
  rcases h with h | h
  · exact h (List.prefix_append _ _)
  · exact h (by simp)

/-- Up to the end of the line. -/
lemma comment_head {x : List Char} (hx : '\n' ∉ x) (prev : Option Char) (r : List Char) :
    (comment.results prev (['/', '/'] ++ (x ++ (['\n'] ++ r)))).head? =
      some (['/', '/'] ++ (x ++ ['\n']), []) := by
  have hall : ∀ c ∈ x, decide (c ≠ '\n') = true := fun c hc =>
    decide_eq_true fun (h : c = '\n') => hx (h ▸ hc)
  exact head_seq (head_literal _ _ _)
    (head_seq (head_many_append hall (by simp) _) (head_one (by decide) _ _))

section

variable {β : Type*} {f : β → Char}

lemma comment_local : (comment.comap f).Local := by
  simp [comment, comap, literal, Local]

lemma comment_append {s t : List β}
    (h : ∀ a b, s.map f = a ++ b → b ≠ [] →
      ¬ ['/', '/'] <+: b ++ t.map f ∨ '\n' ∉ b ++ t.map f) :
    replaceAll (comment.comap f) [] (s ++ t) = s ++ replaceAll (comment.comap f) [] t := by
  have hnone : ∀ a b, s = a ++ b → b ≠ [] → ∀ m g,
      (m, g) ∈ (comment.comap f).results (a.getLast?.or none) (b ++ t) → m = [] := by
    rintro a b rfl hb m g hmem
    have hmem' := mem_comap hmem
    rw [List.map_append] at hmem'
    exact absurd hmem' (comment_nil (h _ _ (List.map_append ..) (by simpa using hb)))
  rw [replaceAll, replaceFrom_append_of_none t hnone, replaceAll,
    replaceFrom_local comment_local _ none]

/-- Where no comment starts, the character is kept. -/
lemma comment_cons {c : β} {t : List β} (h : ¬ ['/', '/'] <+: f c :: t.map f) :
    replaceAll (comment.comap f) [] (c :: t) = c :: replaceAll (comment.comap f) [] t := by
  refine comment_append (s := [c]) fun a b hab hb => Or.inl ?_
  obtain _ | ⟨d, a⟩ := a
  · obtain rfl : [f c] = b := hab
    exact h
  · exact absurd (List.append_eq_nil_iff.1 (List.cons.inj hab).2.symm).2 hb

/-- A comment goes with the end of its line. -/
lemma comment_line {x : List Char} (hx : '\n' ∉ x) {s t : List β}
    (hs : s.map f = ['/', '/'] ++ (x ++ ['\n'])) :
    replaceAll (comment.comap f) [] (s ++ t) = replaceAll (comment.comap f) [] t := by
  have hhead : (comment.results none (s.map f ++ t.map f)).head? = some (s.map f, []) := by
    rw [hs]
    simpa using comment_head hx none (t.map f)
  have hne : s ≠ [] := by
    rintro rfl
    cases hs
  rw [replaceAll, replaceFrom_comap_append hne hhead, List.nil_append, replaceAll]
  exact replaceFrom_local comment_local _ _ _ _

end

lemma comment_cons_id {c : Char} {t : List Char} (h : ¬ ['/', '/'] <+: c :: t) :
    replaceAll comment [] (c :: t) = c :: replaceAll comment [] t := by
  have hkeep := comment_cons (f := id) (c := c) (t := t) (by rwa [List.map_id])
  rwa [comap_id] at hkeep

lemma comment_line_id {x : List Char} (hx : '\n' ∉ x) (t : List Char) :
    replaceAll comment [] ('/' :: '/' :: (x ++ '\n' :: t)) = replaceAll comment [] t := by
  have hmatch := comment_line (f := id) hx (t := t) (List.map_id _)
  simpa [comap_id] using hmatch

lemma slash_of_isSpace {c : Char} (hc : isSpace c = true) (t : List Char) :
    ¬ ['/', '/'] <+: c :: t := by
  rw [List.cons_prefix_cons]
  rintro ⟨rfl, -⟩
  exact absurd hc (by decide)

/-- In front of a token whose slashes are harmless, no match starts in it. -/
lemma no_comment_in_token {t r : List Char} (ht : IsToken t r)
    (hslash : ['/', '/'] <:+: t → '\n' ∉ r) {a b : List Char} (hab : t = a ++ b) (hb : b ≠ []) :
    ¬ ['/', '/'] <+: b ++ r ∨ '\n' ∉ b ++ r := by
  by_contra! h
  obtain ⟨⟨y, hy⟩, hnewline⟩ := h
  have hy : '/' :: '/' :: y = b ++ r := hy
  obtain _ | ⟨c, _ | ⟨d, b⟩⟩ := b
  · exact hb rfl
  · -- the second slash would be the first character behind the token
    obtain ⟨rfl, hr⟩ := List.cons.inj hy
    have htoken : t = ['/'] := ht.slash (by rw [hab, List.getLast?_concat])
    refine (lexeme_token_iff.1 ht.2).1.2.1 ⟨y, ?_⟩
    rw [htoken, ← hy]
    rfl
  · obtain ⟨rfl, hy'⟩ := List.cons.inj hy
    obtain ⟨rfl, -⟩ := List.cons.inj hy'
    have hr : '\n' ∉ r := hslash ⟨a, b, by simp [hab]⟩
    rcases List.mem_append.1 hnewline with hmem | hmem
    · exact ht.newline (hab ▸ List.mem_append_right a hmem)
    · exact hr hmem

lemma counter32_word : ∀ c ∈ counter32Tag, isWord c = true := List.all_eq_true.1 (by decide)

lemma guidArg_word : ∀ c ∈ guidArgTag, isWord c = true := List.all_eq_true.1 (by decide)

/-- Where the name does not occur, the first step leaves the text as it is. -/
lemma keep_counter {code : List Char} (h : ¬ HasWord isWord counter32Tag code) :
    replaceAll (counter32.comap Prod.fst) [('*', false)] (marked code) = marked code := by
  refine replaceAll_comap_wholeWord (by decide) counter32_word ?_
  rwa [map_marked]

lemma preprocessor_eq {code : List Char} (h : ¬ HasWord isWord counter32Tag code) :
    preprocessor code = replaceAll guidArg [] (replaceAll comment [] code) := by
  rw [preprocessor, counter32, replaceAll_wholeWord (by decide) counter32_word h]

/-! ## The text without comments -/

lemma marked_token {t r : List Char} (ht : IsToken t r) :
    marked (t ++ r) = (t.map fun c => (c, false)) ++ marked r := by
  rw [marked, pieces_token ht]
  rfl

lemma marked_blank {c : Char} (hc : isSpace c = true) (r : List Char) :
    marked (c :: r) = (c, false) :: marked r := by
  rw [marked, pieces_blank hc]
  rfl

lemma marked_comment {x r : List Char} (hx : '\n' ∉ x) (hr : ∀ c ∈ r.head?, c = '\n') :
    marked ('/' :: '/' :: (x ++ r)) =
      (('/' :: '/' :: x).map fun c => (c, true)) ++ marked r := by
  rw [marked, pieces_comment hx hr]
  rfl

lemma comment_blank {c : Char} (hc : isSpace c = true) (r : List Char) :
    replaceAll (comment.comap Prod.fst) [] (marked (c :: r)) =
      (c, false) :: replaceAll (comment.comap Prod.fst) [] (marked r) := by
  rw [marked_blank hc]
  exact comment_cons (slash_of_isSpace hc _)

lemma comment_marked {code : List Char} (h : Lexed code) (hended : EachRest Ended (pieces code))
    (hunslashed : EachRest Unslashed (pieces code)) :
    replaceAll (comment.comap Prod.fst) [] (marked code) =
      (uncommented (pieces code)).map fun c => (c, false) := by
  induction h with
  | nil => rfl
  | @blank c r hc h ih =>
      rw [pieces_blank hc] at hended hunslashed ⊢
      rw [comment_blank hc, ih hended.2 hunslashed.2]
      rfl
  | @comment x r hx hr h ih =>
      rw [pieces_comment hx hr] at hended hunslashed ⊢
      have hrest := ih hended.2 hunslashed.2
      obtain _ | ⟨c, r⟩ := r
      · exact absurd rfl (hended.1 rfl)
      obtain rfl : c = '\n' := hr c rfl
      have hblank : isSpace '\n' = true := by decide
      rw [comment_blank hblank] at hrest
      have hline : (('/' :: '/' :: x).map fun c => (c, true)) ++ marked ('\n' :: r) =
          ((('/' :: '/' :: x).map fun c => (c, true)) ++ [('\n', false)]) ++ marked r := by
        rw [marked_blank hblank, List.append_assoc]
        rfl
      rw [marked_comment hx hr, hline, comment_line hx
        (by rw [List.map_append, map_fst_mark]; rfl)]
      have htail := congrArg List.tail hrest
      rw [List.tail_cons, ← List.map_tail] at htail
      exact htail
  | @token t r ht h ih =>
      rw [pieces_token ht] at hended hunslashed ⊢
      rw [marked_token ht, comment_append, ih hended.2 hunslashed.2]
      · simp [uncommented]
      · intro a b hab hb
        rw [map_marked]
        refine no_comment_in_token ht (fun hslash => ?_) (a := a) ?_ hb
        · have hnewline := hunslashed.1 rfl hslash
          rwa [flatMap_pieces] at hnewline
        · rw [← hab, map_fst_mark]

/-! ## Tokens with something else behind them -/

lemma head_uncommented {r : List Char} (h : Lexed r) (hr : ¬ ['/', '/'] <+: r) :
    (uncommented (pieces r)).head? = r.head? := by
  cases h with
  | nil => rfl
  | blank hc h => rw [pieces_blank hc]; rfl
  | comment hx hend h => exact absurd ⟨_, rfl⟩ hr
  | token ht h =>
      rw [pieces_token ht]
      change (_ ++ uncommented _).head? = _
      rw [List.head?_append_of_ne_nil _ ht.1, List.head?_append_of_ne_nil _ ht.1]

/-- No comment starts at a token whose comments have been taken out behind it. -/
lemma no_comment_at_token {t r : List Char} (ht : IsToken t r) (h : Lexed r) {d : Char}
    (hd : ¬ ['/', d] <+: t ++ r) : ¬ ['/', d] <+: t ++ uncommented (pieces r) := by
  rintro ⟨y, hy⟩
  have hslashes : ¬ ['/', '/'] <+: t ++ r := (lexeme_token_iff.1 ht.2).1.2.1
  obtain _ | ⟨c, _ | ⟨e, t⟩⟩ := t
  · exact ht.1 rfl
  · obtain ⟨rfl, hrest⟩ := List.cons.inj hy
    have hrest : d :: y = uncommented (pieces r) := hrest
    have hr : ¬ ['/', '/'] <+: r := by
      rintro ⟨z, rfl⟩
      exact hslashes ⟨'/' :: z, rfl⟩
    have hhead := head_uncommented h hr
    rw [← hrest] at hhead
    obtain ⟨z, rfl⟩ := List.head?_eq_some_iff.1 hhead.symm
    exact hd ⟨z, rfl⟩
  · obtain ⟨rfl, hrest⟩ := List.cons.inj hy
    obtain ⟨rfl, -⟩ := List.cons.inj hrest
    exact hd ⟨t ++ r, rfl⟩

/-- What the text behind a token, the comments taken out, does not change. -/
lemma no_other_piece {t r : List Char} (ht : IsToken t r) (h : Lexed r) :
    (t ++ uncommented (pieces r)).head?.any isSpace = false ∧
      ¬ ['/', '/'] <+: t ++ uncommented (pieces r) ∧
      ¬ ['/', '*'] <+: t ++ uncommented (pieces r) := by
  obtain ⟨⟨hblank, hline, hblock⟩, -⟩ := lexeme_token_iff.1 ht.2
  rw [List.head?_append_of_ne_nil _ ht.1] at hblank ⊢
  exact ⟨hblank, no_comment_at_token ht h hline, no_comment_at_token ht h hblock⟩

lemma isToken_uncommented {t r : List Char} (ht : IsToken t r) (h : Lexed r)
    (hseparate : munch (t ++ uncommented (pieces r)) = t.length) :
    IsToken t (uncommented (pieces r)) := by
  refine ⟨ht.1, lexeme_token_iff.2 ⟨no_other_piece ht h, ?_⟩⟩
  rw [hseparate, List.take_left]

/-- Behind a comment is nothing, or the end of its line. -/
lemma line_end {r : List Char} (hr : ∀ c ∈ r.head?, c = '\n') :
    r = [] ∨ ∃ r', r = '\n' :: r' ∧
      uncommented (pieces r) = '\n' :: uncommented (pieces r') := by
  obtain _ | ⟨c, r⟩ := r
  · exact Or.inl rfl
  · obtain rfl : c = '\n' := hr c rfl
    rw [pieces_blank (by decide)]
    exact Or.inr ⟨r, rfl, rfl⟩

/-- The tokens are kept if each of them still is the longest one. -/
lemma tokens_uncommented {code : List Char} (h : Lexed code)
    (hseparate : EachRest Separate (pieces code)) :
    tokens (uncommented (pieces code)) = tokens code := by
  induction h with
  | nil => rfl
  | @blank c r hc h ih =>
      rw [pieces_blank hc] at hseparate ⊢
      rw [tokens_blank hc, ← ih hseparate.2]
      exact tokens_blank hc _
  | @comment x r hx hr h ih =>
      rw [pieces_comment hx hr] at hseparate ⊢
      rw [tokens_comment hx hr, ← ih hseparate.2]
      change tokens (uncommented (pieces r)).tail = _
      obtain rfl | ⟨r', rfl, heq⟩ := line_end hr
      · rfl
      · rw [heq, List.tail_cons, tokens_blank (by decide)]
  | @token t r ht h ih =>
      rw [pieces_token ht] at hseparate ⊢
      rw [tokens_token ht, ← ih hseparate.2]
      exact tokens_token (isToken_uncommented ht h (hseparate.1 rfl))

/-- And only then. -/
lemma separate_of_tokens {code : List Char} (h : Lexed code)
    (htokens : tokens (uncommented (pieces code)) = tokens code) :
    EachRest Separate (pieces code) := by
  induction h with
  | nil => trivial
  | @blank c r hc h ih =>
      rw [pieces_blank hc] at htokens ⊢
      refine ⟨(nomatch ·), ih ?_⟩
      rw [tokens_blank hc] at htokens
      exact (tokens_blank hc _).symm.trans htokens
  | @comment x r hx hr h ih =>
      rw [pieces_comment hx hr] at htokens ⊢
      refine ⟨(nomatch ·), ih ?_⟩
      rw [tokens_comment hx hr] at htokens
      rw [← htokens]
      change _ = tokens (uncommented (pieces r)).tail
      obtain rfl | ⟨r', rfl, heq⟩ := line_end hr
      · rfl
      · rw [heq, List.tail_cons, tokens_blank (by decide)]
  | @token t r ht h ih =>
      rw [pieces_token ht] at htokens ⊢
      rw [tokens_token ht] at htokens
      let u := uncommented (pieces r)
      have hne : t ++ u ≠ [] := fun hnil => ht.1 (List.append_eq_nil_iff.1 hnil).1
      have htoken := isToken_munch hne (no_other_piece ht h)
      have hsplit := List.take_append_drop (munch (t ++ u)) (t ++ u)
      have hfirst := tokens_token htoken
      rw [hsplit] at hfirst
      obtain ⟨htake, hrest⟩ := List.cons.inj (hfirst.symm.trans htokens)
      rw [htake] at hsplit htoken
      rw [List.append_cancel_left hsplit] at hrest htoken
      exact ⟨fun _ => htoken.munch_eq, ih hrest⟩

/-! ## Words -/

section

variable {name : List Char} (hne : name ≠ []) (hname : ∀ c ∈ name, isWord c = true)

include hne hname

lemma hasWord_blank {c : Char} (hc : isSpace c = true) (s : List Char) :
    HasWord isWord name (c :: s) ↔ HasWord isWord name [c] ∨ HasWord isWord name s := by
  refine hasWord_append_iff hne hname (a := [c]) fun d hd hword => ?_
  cases hd
  exact absurd hword (by simp [isWord_of_isSpace hc])

/-- No name comes about when the comments are taken out. -/
lemma hasWord_uncommented {code : List Char} (h : Lexed code)
    (hseparate : EachRest Separate (pieces code))
    (hword : HasWord isWord name (uncommented (pieces code))) : HasWord isWord name code := by
  induction h with
  | nil => exact hword
  | @blank c r hc h ih =>
      rw [pieces_blank hc] at hseparate hword
      rw [hasWord_blank hne hname hc]
      exact ((hasWord_blank hne hname hc _).1 hword).imp_right (ih hseparate.2)
  | @comment x r hx hr h ih =>
      rw [pieces_comment hx hr] at hseparate hword
      have hword : HasWord isWord name (uncommented (pieces r)).tail := hword
      have hrest : HasWord isWord name r := by
        refine ih hseparate.2 ?_
        obtain rfl | ⟨r', rfl, heq⟩ := line_end hr
        · exact hword
        · rw [heq, List.tail_cons] at hword
          rw [heq, hasWord_blank hne hname (by decide)]
          exact Or.inr hword
      refine (hasWord_append_iff hne hname (a := '/' :: '/' :: x) fun _ _ _ d hd => ?_).2
        (Or.inr hrest)
      rw [hr d hd]
      decide
  | @token t r ht h ih =>
      rw [pieces_token ht] at hseparate hword
      have htoken := isToken_uncommented ht h (hseparate.1 rfl)
      rw [hasWord_append_iff hne hname ht.word]
      exact ((hasWord_append_iff hne hname htoken.word).1 hword).imp_right (ih hseparate.2)

end

/-! ## A comment at the end of the text -/

/-- A match ends with the line. -/
lemma comment_ends {prev : Option Char} {s m : List Char} {g : List (List Char)}
    (h : (m, g) ∈ comment.results prev s) : ∀ c ∈ m.getLast?, c = '\n' := by
  obtain ⟨m₁, g₁, m₂, g₂, -, h₂, rfl, -⟩ := mem_seq.1 h
  obtain ⟨m₃, g₃, m₄, g₄, -, h₄, rfl, -⟩ := mem_seq.1 h₂
  obtain ⟨c, t, -, hc, rfl, -⟩ := mem_one.1 h₄
  rw [← List.append_assoc, List.getLast?_concat]
  intro d hd
  cases hd
  exact of_decide_eq_true hc

/-- A comment that runs to the end is left where it is. -/
lemma comment_suffix {x : List Char} (hx : '\n' ∉ x) (s : List (Char × Bool)) :
    ('/' :: '/' :: x).map (fun c => (c, true)) <:+
      replaceAll (comment.comap Prod.fst) [] (s ++ ('/' :: '/' :: x).map fun c => (c, true)) := by
  refine suffix_replaceFrom (q := fun c => c.1 = '\n') (fun prev s m g hmem c hc => ?_) ?_ none s
    (Nat.zero_le _)
  · refine comment_ends (mem_comap hmem) c.1 ?_
    rw [List.getLast?_map, hc]
    rfl
  · intro c hc heq
    obtain ⟨d, hd, rfl⟩ := List.mem_map.1 hc
    obtain rfl : d = '\n' := heq
    exact hx (by simpa using hd)

/-- The text ends with a comment, if a comment has no end. -/
lemma marked_of_not_ended {code : List Char} (h : Lexed code)
    (hended : ¬ EachRest Ended (pieces code)) : ∃ s x, '\n' ∉ x ∧
      marked code = s ++ ('/' :: '/' :: x).map fun c => (c, true) := by
  induction h with
  | nil => exact absurd trivial hended
  | @blank c r hc h ih =>
      rw [pieces_blank hc] at hended
      obtain ⟨s, x, hx, hr⟩ := ih fun h => hended ⟨(nomatch ·), h⟩
      exact ⟨(c, false) :: s, x, hx, by rw [marked_blank hc, hr, List.cons_append]⟩
  | @comment x r hx hr h ih =>
      rw [pieces_comment hx hr] at hended
      rw [marked_comment hx hr]
      obtain rfl | ⟨r', rfl, -⟩ := line_end hr
      · exact ⟨[], x, hx, List.append_nil _⟩
      · have hne : pieces ('\n' :: r') ≠ [] := by
          rw [pieces_blank (by decide)]
          exact List.cons_ne_nil _ _
        obtain ⟨s, y, hy, hr⟩ := ih fun h => hended ⟨fun _ => hne, h⟩
        exact ⟨_, y, hy, by rw [hr, ← List.append_assoc]⟩
  | @token t r ht h ih =>
      rw [pieces_token ht] at hended
      obtain ⟨s, x, hx, hr⟩ := ih fun h => hended ⟨(nomatch ·), h⟩
      exact ⟨_, x, hx, by rw [marked_token ht, hr, ← List.append_assoc]⟩

/-- Nothing of a comment is left only if every comment has an end. -/
lemma ended_of_preserved {code : List Char} (h : Lexed code)
    (hcounter : ¬ HasWord isWord counter32Tag code)
    (hcomments : ∀ c ∈ preprocessorOn (marked code), c.2 = false) :
    EachRest Ended (pieces code) := by
  by_contra hended
  obtain ⟨s, x, hx, hmarked⟩ := marked_of_not_ended h hended
  have hmem : ('/', true) ∈ preprocessorOn (marked code) := by
    have hslash : ¬ (guidArg.comap Prod.fst).Accepts ('/', true) := by
      rw [accepts_comap, guidArg, accepts_wholeWord]
      decide
    rw [preprocessorOn, mem_replaceAll hslash List.not_mem_nil, keep_counter hcounter, hmarked]
    exact (comment_suffix hx s).subset (by simp)
  exact absurd (hcomments _ hmem) (by simp)

/-! ## Slashes in tokens -/

/-- Two slashes in a text take the rest of the line with them. -/
lemma comment_infix {t y : List Char} (ht : '\n' ∉ t) (hslashes : ['/', '/'] <:+: t)
    (hy : '\n' ∉ y) (s : List Char) :
    ∃ a, replaceAll comment [] (t ++ (y ++ '\n' :: s)) = a ++ replaceAll comment [] s ∧
      a.count '/' < t.count '/' := by
  induction t with
  | nil => exact absurd (List.infix_nil.1 hslashes) (by simp)
  | cons c t ih =>
      by_cases hfront : ['/', '/'] <+: c :: t
      · obtain ⟨x, hx⟩ := hfront
        rw [← hx] at ht ⊢
        refine ⟨[], ?_, by simp⟩
        have hline : '\n' ∉ x ++ y := by simpa [hy] using ht
        rw [List.append_assoc, ← List.append_assoc x]
        exact comment_line_id hline s
      · have hlater : ['/', '/'] <:+: t := (List.infix_cons_iff.1 hslashes).resolve_left hfront
        obtain ⟨a, ha, hcount⟩ := ih (fun h => ht (List.mem_cons_of_mem c h)) hlater
        have hhere : ¬ ['/', '/'] <+: c :: (t ++ (y ++ '\n' :: s)) := by
          obtain _ | ⟨d, t⟩ := t
          · exact absurd (List.infix_nil.1 hlater) (by simp)
          · simpa using hfront
        refine ⟨c :: a, ?_, ?_⟩
        · rw [List.cons_append, comment_cons_id hhere, ha, List.cons_append]
        · rw [List.count_cons, List.count_cons]
          omega

/-- A text that goes on behind the end of a line goes on behind what has no such end. -/
lemma append_of_line {t r y s : List Char} (ht : '\n' ∉ t) (h : t ++ r = y ++ s) (hne : y ≠ [])
    (hy : ∀ c ∈ y.getLast?, c = '\n') :
    ∃ y', r = y' ++ s ∧ ∀ c ∈ y'.getLast?, c = '\n' := by
  rcases List.append_eq_append_iff.1 h with ⟨y', rfl, rfl⟩ | ⟨z, rfl, -⟩
  · refine ⟨y', rfl, fun c hc => hy c ?_⟩
    rw [List.getLast?_append, hc]
    rfl
  · have hlast := List.getLast_mem hne
    rw [hy _ (List.getLast?_eq_some_getLast hne)] at hlast
    exact absurd (List.mem_append_left z hlast) ht

/-- `n` is at most the number of slashes in the tokens, and less where a token is cut off. -/
def SlashBound (code : List Char) (n : ℕ) : Prop :=
  n ≤ (tokens code).flatten.count '/' ∧
    ((tokens code).flatten.count '/' ≤ n → EachRest Unslashed (pieces code))

namespace SlashBound

variable {r : List Char} {n : ℕ} (h : SlashBound r n)

include h

lemma blank {c : Char} (hc : isSpace c = true) : SlashBound (c :: r) n := by
  rw [SlashBound, pieces_blank hc, tokens_blank hc]
  exact ⟨h.1, fun hge => ⟨(nomatch ·), h.2 hge⟩⟩

lemma comment {x : List Char} (hx : '\n' ∉ x) (hr : ∀ c ∈ r.head?, c = '\n') :
    SlashBound ('/' :: '/' :: (x ++ r)) n := by
  rw [SlashBound, pieces_comment hx hr, tokens_comment hx hr]
  exact ⟨h.1, fun hge => ⟨(nomatch ·), h.2 hge⟩⟩

/-- `k` slashes of a token are left. -/
lemma token {t : List Char} (ht : IsToken t r) {k : ℕ} (hk : k ≤ t.count '/')
    (hall : k = t.count '/' → ['/', '/'] <:+: t → '\n' ∉ r) : SlashBound (t ++ r) (k + n) := by
  obtain ⟨hle, hunslashed⟩ := h
  rw [SlashBound, pieces_token ht, tokens_token ht, List.flatten_cons, List.count_append]
  refine ⟨by omega, fun hge => ⟨fun _ hslashes => ?_, hunslashed (by omega)⟩⟩
  rw [flatMap_pieces]
  exact hall (by omega) hslashes

end SlashBound

/-- A token is kept, or the comment that starts in it takes the rest of its line. -/
lemma count_token {t r : List Char} (ht : IsToken t r)
    (hbound : ∀ {y s : List Char}, r = y ++ s → (∀ c ∈ y.getLast?, c = '\n') →
      SlashBound r ((replaceAll comment [] s).count '/')) :
    SlashBound (t ++ r) ((replaceAll comment [] (t ++ r)).count '/') := by
  by_cases hcut : ['/', '/'] <:+: t ∧ '\n' ∈ r
  · obtain ⟨hslashes, hnewline⟩ := hcut
    obtain ⟨z, r', rfl, hz⟩ := List.eq_append_cons_of_mem hnewline
    obtain ⟨a, ha, hcount⟩ := comment_infix ht.newline hslashes hz r'
    have hrest := @hbound (z ++ ['\n']) r' (by simp) (by simp)
    rw [ha, List.count_append]
    exact hrest.token ht hcount.le fun heq => absurd heq hcount.ne
  · have hkept : ['/', '/'] <:+: t → '\n' ∉ r := fun hslashes hnewline =>
      hcut ⟨hslashes, hnewline⟩
    have hkeep := comment_append (f := id) (s := t) (t := r) fun a b hab hb => by
      rw [List.map_id] at hab ⊢
      exact no_comment_in_token ht hkept hab hb
    rw [comap_id] at hkeep
    rw [hkeep, List.count_append]
    exact (@hbound [] r rfl (by simp)).token ht le_rfl fun _ => hkept

/-- What is rewritten, from the start of a line on, has no more slashes than the tokens, and less if
a token has been cut off. -/
lemma count_comment {code : List Char} (h : Lexed code) (hended : EachRest Ended (pieces code))
    {y s : List Char} (hcode : code = y ++ s) (hy : ∀ c ∈ y.getLast?, c = '\n') :
    SlashBound code ((replaceAll comment [] s).count '/') := by
  induction h generalizing y s with
  | nil =>
      obtain ⟨rfl, rfl⟩ := List.append_eq_nil_iff.1 hcode.symm
      exact ⟨le_rfl, fun _ => trivial⟩
  | @blank c r hc h ih =>
      rw [pieces_blank hc] at hended
      have hslash : c ≠ '/' := by
        rintro rfl
        exact absurd hc (by decide)
      obtain _ | ⟨d, y⟩ := y
      · obtain rfl : c :: r = s := hcode
        rw [comment_cons_id (slash_of_isSpace hc r), List.count_cons_of_ne hslash]
        exact (ih hended.2 (y := []) rfl (by simp)).blank hc
      · obtain ⟨rfl, rfl⟩ := List.cons.inj hcode
        refine (ih hended.2 rfl fun e he => hy e ?_).blank hc
        rw [List.getLast?_cons, he]
        rfl
  | @comment x r hx hr h ih =>
      rw [pieces_comment hx hr] at hended
      obtain rfl | ⟨r', rfl, -⟩ := line_end hr
      · exact absurd rfl (hended.1 rfl)
      obtain rfl | hne := eq_or_ne y []
      · obtain rfl : '/' :: '/' :: (x ++ '\n' :: r') = s := hcode
        rw [comment_line_id hx r']
        exact (ih hended.2 (y := ['\n']) rfl (by simp)).comment hx hr
      · have hline : '\n' ∉ '/' :: '/' :: x := by simpa using hx
        obtain ⟨y', hrest, hy'⟩ := append_of_line (t := '/' :: '/' :: x) hline hcode hne hy
        exact (ih hended.2 hrest hy').comment hx hr
  | @token t r ht h ih =>
      rw [pieces_token ht] at hended
      obtain rfl | hne := eq_or_ne y []
      · obtain rfl : t ++ r = s := hcode
        exact count_token ht fun {y s} hr hy => ih hended.2 hr hy
      · obtain ⟨y', rfl, hy'⟩ := append_of_line ht.newline hcode hne hy
        have hbound := (ih hended.2 rfl hy').token ht (Nat.zero_le _) fun hzero hslashes => by
          -- two of its slashes are not among what is rewritten
          have htwo : (['/', '/'] : List Char).count '/' ≤ t.count '/' :=
            hslashes.sublist.count_le _
          rw [← hzero] at htwo
          exact absurd htwo (by decide)
        rwa [Nat.zero_add] at hbound

/-- Tokens are kept only if none of them is cut off. -/
lemma unslashed_of_preserved {code : List Char} (h : Lexed code)
    (hcounter : ¬ HasWord isWord counter32Tag code) (hended : EachRest Ended (pieces code))
    (htokens : tokens (preprocessor code) = tokens code) : EachRest Unslashed (pieces code) := by
  refine (count_comment h hended (y := []) rfl (by simp)).2 ?_
  rw [← htokens]
  refine ((tokens_sublist _).trans ?_).count_le _
  rw [preprocessor_eq hcounter]
  exact replaceFrom_sublist none 0 _

/-! ## Where the comments can be taken out -/

lemma comment_eq {code : List Char} (h : Lexed code) (hended : EachRest Ended (pieces code))
    (hunslashed : EachRest Unslashed (pieces code)) :
    replaceAll comment [] code = uncommented (pieces code) := by
  have hmarked := congrArg (List.map Prod.fst) (comment_marked h hended hunslashed)
  rw [map_fst_mark, replaceAll, map_replaceFrom, map_marked] at hmarked
  exact hmarked

/-- What is not blank stands in tokens. -/
lemma filter_uncommented {code : List Char} (h : Lexed code) :
    (uncommented (pieces code)).filter (fun c => !isSpace c) =
      (tokens code).flatten.filter fun c => !isSpace c := by
  induction h with
  | nil => rfl
  | @blank c r hc h ih =>
      rw [pieces_blank hc, tokens_blank hc, ← ih]
      exact List.filter_cons_of_neg (by simp [hc])
  | @comment x r hx hr h ih =>
      rw [pieces_comment hx hr, tokens_comment hx hr, ← ih]
      change (uncommented (pieces r)).tail.filter _ = _
      obtain rfl | ⟨r', rfl, heq⟩ := line_end hr
      · rfl
      · rw [heq, List.tail_cons, List.filter_cons_of_neg (by decide)]
  | @token t r ht h ih =>
      rw [pieces_token ht, tokens_token ht, List.flatten_cons, List.filter_append, ← ih]
      exact List.filter_append _ _

/-- If the tokens are kept, the last step removes nothing. -/
lemma guidArg_eq {code : List Char} (h : Lexed code)
    (htokens : tokens (replaceAll guidArg [] (uncommented (pieces code))) = tokens code) :
    replaceAll guidArg [] (uncommented (pieces code)) = uncommented (pieces code) := by
  let u := uncommented (pieces code)
  have hsub : (replaceAll guidArg [] u).Sublist u := replaceFrom_sublist none 0 u
  -- the blanks are no characters of a word, the others are those of the tokens
  have hblanks : (replaceAll guidArg [] u).filter isSpace = u.filter isSpace := by
    refine filter_replaceFrom (fun c hc => ?_) (by simp) none 0 u (by simp)
    rw [guidArg, accepts_wholeWord] at hc
    exact isSpace_of_isWord (guidArg_word c hc)
  have hothers : (u.filter fun c => !isSpace c).Sublist
      ((replaceAll guidArg [] u).filter fun c => !isSpace c) := by
    rw [filter_uncommented h, ← htokens]
    exact (tokens_sublist _).filter _
  refine hsub.eq_of_length_le ?_
  have hlength : ∀ s : List Char, s.length =
      (s.filter isSpace).length + (s.filter fun c => !isSpace c).length := fun s =>
    List.length_eq_length_filter_add isSpace
  rw [hlength u, hlength (replaceAll guidArg [] u), hblanks]
  exact Nat.add_le_add_left hothers.length_le _

/-- The tokens are kept, and no comment is, exactly when the comments can be taken out. -/
theorem preserved_iff {code : List Char} (hcounter : ¬ HasWord isWord counter32Tag code)
    (hguid : ¬ HasWord isWord guidArgTag code)
    (hblock : ∀ p ∈ pieces code, p.kind ≠ .blockComment) : Preserved code ↔ Removable code := by
  have h := lexed hblock
  constructor
  · rintro ⟨htokens, hcomments⟩
    have hended := ended_of_preserved h hcounter hcomments
    have hunslashed := unslashed_of_preserved h hcounter hended htokens
    refine ⟨hended, hunslashed, separate_of_tokens h ?_⟩
    rw [preprocessor_eq hcounter, comment_eq h hended hunslashed] at htokens
    rwa [guidArg_eq h htokens] at htokens
  · rintro ⟨hended, hunslashed, hseparate⟩
    have hword : ¬ HasWord isWord guidArgTag (uncommented (pieces code)) := fun hword =>
      hguid (hasWord_uncommented (by decide) guidArg_word h hseparate hword)
    have heq : preprocessorOn (marked code) =
        (uncommented (pieces code)).map fun c => (c, false) := by
      rw [preprocessorOn, keep_counter hcounter, comment_marked h hended hunslashed]
      refine replaceAll_comap_wholeWord (by decide) guidArg_word ?_
      rwa [map_fst_mark]
    constructor
    · have hmap := map_preprocessorOn (marked code)
      rw [map_marked, heq, map_fst_mark] at hmap
      rw [← hmap, tokens_uncommented h hseparate]
    · rw [heq]
      simp

/-- A blank in front of the second line keeps the two words apart. -/
theorem preserved_iff_blank : Preserved ['a', '/', '/', '\n', ' ', 'b'] ↔
    Removable ['a', '/', '/', '\n', ' ', 'b'] :=
  preserved_iff (fun h => absurd h.length_le (by decide)) (fun h => absurd h.length_le (by decide))
    (by decide)

/-- `int` and `a`, on two lines with a comment between them, become one word. -/
theorem words_joined : ¬ ∀ code : List Char, ¬ HasWord isWord counter32Tag code →
    ¬ HasWord isWord guidArgTag code → (∀ p ∈ pieces code, p.kind ≠ .blockComment) →
    doubleQuote ∉ code → Preserved code := by
  intro h
  obtain ⟨htokens, -⟩ := h ['i', 'n', 't', '/', '/', '\n', 'a']
    (fun h => absurd h.length_le (by decide)) (fun h => absurd h.length_le (by decide)) (by decide)
    (by decide)
  have hjoined : tokens (preprocessor ['i', 'n', 't', '/', '/', '\n', 'a']) =
      [['i', 'n', 't', 'a']] := by decide
  have hapart : tokens ['i', 'n', 't', '/', '/', '\n', 'a'] = [['i', 'n', 't'], ['a']] := by decide
  rw [hjoined, hapart] at htokens
  cases htokens

end Parser

end ElasticFramework
