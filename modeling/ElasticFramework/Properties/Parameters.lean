import ElasticFramework.Construction.Parser
import Mathlib.Tactic.IntervalCases

/-!
# The parameters of a kernel

A declaration is spelled by words, stars and brackets with whitespace in between (`Spells`).  What
`FindFuncArgList` and `IsPointer` rewrite of it leaves the stars and the brackets alone, and behind
the last star no more than one word; so a parameter is taken for a pointer exactly when its
declaration has one of them (`parameters_classified`).
-/

namespace ElasticFramework

namespace Parser

open Regex

/-! ## Declarations -/

/-- The C99 type qualifiers. -/
inductive Qualifier
  | const
  | restrict
  | volatile
  deriving DecidableEq

/-- The word. -/
def Qualifier.word : Qualifier → Word
  | const => .ofChars ['c', 'o', 'n', 's', 't'] (by decide)
  | restrict => .ofChars ['r', 'e', 's', 't', 'r', 'i', 'c', 't'] (by decide)
  | volatile => .ofChars ['v', 'o', 'l', 'a', 't', 'i', 'l', 'e'] (by decide)

/-- What a declaration is made of. -/
inductive Item
  | word (w : Word)
  | star
  | array (inner : List Char)

def Item.text : Item → List Char
  | word w => w.chars
  | star => ['*']
  | array inner => '[' :: inner ++ [']']

/-- The text is made of the items, with any whitespace between them; one word does not run into the
next. -/
inductive Spells : List Item → List Char → Prop
  | nil {w : List Char} (hw : ∀ c ∈ w, isSpace c = true) : Spells [] w
  | cons {w text : List Char} {item : Item} {items : List Item} (hw : ∀ c ∈ w, isSpace c = true)
      (hend : ∀ v, item = .word v → ∀ c ∈ text.head?, isWord c = false) (h : Spells items text) :
      Spells (item :: items) (w ++ (item.text ++ text))

/-- A declaration: the words in front, then the stars with the qualifiers behind each of them, the
identifier, and the brackets. -/
structure Declaration where
  words : List Word
  stars : List (List Qualifier)
  identifier : Word
  array : Option (List Char)

/-- The items of a star. -/
def starItems (qualifiers : List Qualifier) : List Item :=
  .star :: qualifiers.map fun q => .word q.word

def Declaration.items (d : Declaration) : List Item :=
  d.words.map .word ++ (d.stars.flatMap starItems ++
    (.word d.identifier :: d.array.toList.map .array))

/-- A text between two commas of a list. -/
def IsDeclaration (text : List Char) : Prop :=
  (∃ d : Declaration, Spells d.items text) ∧ '(' ∉ text ∧ ')' ∉ text ∧ ',' ∉ text

/-- Here, behind `prev`, the name stands as a whole word in front of a list in parentheses and an
opening brace. -/
def Opens (name : Word) (prev : Option Char) (text list : List Char) : Prop :=
  (∀ c ∈ prev, isWord c = false) ∧ ')' ∉ list ∧
    ∃ w w' rest, (∀ c ∈ w, isSpace c = true) ∧ (∀ c ∈ w', isSpace c = true) ∧
      text = name.chars ++ (w ++ '(' :: (list ++ ')' :: (w' ++ '{' :: rest)))

/-- The first such place is the definition of the kernel, with these declarations. -/
structure Defines (name : Word) (code : List Char) (declarations : List (List Char)) : Prop where
  nul_free : ∀ c ∈ code, c.toNat ≠ 0
  ne_nil : declarations ≠ []
  declaration : ∀ d ∈ declarations, IsDeclaration d
  first : ∃ before after, code = before ++ after ∧
    Opens name before.getLast? after ([','].intercalate declarations) ∧
    ∀ a b list, code = a ++ b → Opens name a.getLast? b list → before.length ≤ a.length

/-! ## The list -/

lemma forall_head {P : Char → Prop} {c : Char} (h : P c) (s : List Char) :
    ∀ d ∈ (c :: s).head?, P d := by
  simpa using h

/-- Whitespace, and what is no part of a word, does not go on with a word. -/
lemma isWord_head {w s : List Char} (hw : ∀ c ∈ w, isSpace c = true)
    (hs : ∀ c ∈ s.head?, isWord c = false) : ∀ c ∈ (w ++ s).head?, isWord c = false := by
  cases w with
  | nil => exact hs
  | cons c w => exact forall_head (isWord_of_isSpace (hw c List.mem_cons_self)) _

/-- What the expression matches opens a list. -/
lemma opens_of_mem {name : Word} {prev : Option Char} {text m : List Char} {g : List (List Char)}
    (h : (m, g) ∈ (definition name).results prev text) : ∃ list, Opens name prev text list := by
  obtain ⟨hfront, _, _, hname⟩ := of_mem_boundary_seq h
  obtain ⟨t₁, _, _, rfl, hboundary⟩ := of_mem_literal_seq hname
  obtain ⟨-, _, _, hspace⟩ := of_mem_boundary_seq hboundary
  obtain ⟨w, t₂, _, _, rfl, hw, hopen⟩ := of_mem_many_seq hspace
  obtain ⟨c, t₃, _, _, rfl, hc, hgroup⟩ := of_mem_one_seq hopen
  obtain ⟨_, _, hmany⟩ := of_mem_group_seq hgroup
  obtain ⟨list, t₄, _, _, rfl, hlist, hclose⟩ := of_mem_many_seq hmany
  obtain ⟨d, t₅, _, _, rfl, hd, hspace'⟩ := of_mem_one_seq hclose
  obtain ⟨w', t₆, _, _, rfl, hw', hbrace⟩ := of_mem_many_seq hspace'
  obtain ⟨e, rest, rfl, he, -⟩ := mem_one.1 hbrace
  obtain rfl : c = '(' := of_decide_eq_true hc
  obtain rfl : d = ')' := of_decide_eq_true hd
  obtain rfl : e = '{' := of_decide_eq_true he
  exact ⟨list, (boundary_front_iff name.ne_nil name.word).1 hfront,
    fun hmem => of_decide_eq_true (hlist _ hmem) rfl, w, w', rest, hw, hw', rfl⟩

/-- And where a list is opened, it is the group of the first match. -/
lemma head_definition {name : Word} {prev : Option Char} {text list : List Char}
    (h : Opens name prev text list) :
    ∃ m, ((definition name).results prev text).head? = some (m, [list]) := by
  obtain ⟨hprev, hlist, w, w', rest, hw, hw', rfl⟩ := h
  have hback := isWord_head hw (forall_head (show isWord '(' = false by decide)
    (list ++ ')' :: (w' ++ '{' :: rest)))
  have hnotparen : ∀ c ∈ list, decide (c ≠ ')') = true := fun c hc =>
    decide_eq_true fun heq => hlist (heq ▸ hc)
  refine ⟨_, head_seq_nil
      (head_boundary ((boundary_front_iff name.ne_nil name.word).2 hprev))
    (head_seq (head_literal _ _ _)
      (head_seq_nil (head_boundary ((boundary_back_iff name.ne_nil name.word).2 hback))
        (head_seq (head_many_append hw (forall_head (by decide) _) _)
          (head_seq (head_one (by decide) _ _)
            (head_seq (head_group (head_many_append hnotparen (forall_head (by decide) _) _))
              (head_seq (head_one (by decide) _ _)
                (head_seq (head_many_append hw' (forall_head (by decide) _) _)
                  (head_one (by decide) _ rest))))))))⟩

/-- The list that ends with a comma is cut at its commas. -/
lemma strtok_intercalate {l : List (List Char)} (hl : ∀ d ∈ l, d ≠ [] ∧ ',' ∉ d) (hne : l ≠ []) :
    strtok ([','].intercalate l ++ [',']) = l := by
  have hcomma : [','].intercalate l ++ [','] = [','].intercalate (l ++ [[]]) := by
    clear hl
    induction l with
    | nil => exact absurd rfl hne
    | cons d l ih =>
        cases l with
        | nil => simp [List.intercalate]
        | cons e l =>
            have hrest := ih (List.cons_ne_nil e l)
            simp only [List.intercalate, List.cons_append, List.intersperse_cons_cons,
              List.flatten_cons, List.append_assoc] at hrest ⊢
            rw [hrest]
  have hfree : ∀ d ∈ l ++ [[]], ',' ∉ d := by
    intro d hd
    rcases List.mem_append.1 hd with hd | hd
    · exact (hl d hd).2
    · simp [List.mem_singleton.1 hd]
  rw [strtok, hcomma, List.splitOn_intercalate ',' hfree (by simp), List.filter_append,
    List.filter_eq_self.2 (by simpa using fun d hd => (hl d hd).1)]
  simp

/-- A declaration is not empty: it has an identifier. -/
lemma ne_nil_of_spells {items : List Item} {text : List Char} (h : Spells items text)
    (hitems : items ≠ []) : text ≠ [] := by
  cases h with
  | nil hw => exact absurd rfl hitems
  | @cons w text item items hw hend h =>
      cases item with
      | word v => simp [Item.text, v.ne_nil]
      | star => simp [Item.text]
      | array inner => simp [Item.text]

lemma findFuncArgList_eq {name : Word} {code : List Char} {l : List (List Char)}
    (h : Defines name code l) : findFuncArgList code name = l.map entry := by
  obtain ⟨before, after, rfl, hopens, hfirst⟩ := h.first
  obtain ⟨m, hm⟩ := head_definition hopens
  have hcode : cStr (before ++ after) = before ++ after :=
    List.takeWhile_eq_self_iff.2 fun c hc => decide_eq_true (h.nul_free c hc)
  have hbefore : ∀ a b, before = a ++ b → b ≠ [] →
      (definition name).results (a.getLast?.or none) (b ++ after) = [] := by
    rintro a b rfl hb
    rw [Option.or_none, List.eq_nil_iff_forall_not_mem]
    rintro ⟨m, g⟩ hmem
    obtain ⟨list, hlist⟩ := opens_of_mem hmem
    have hle := hfirst a (b ++ after) list (List.append_assoc a b after) hlist
    have hpos := List.length_pos_iff.2 hb
    rw [List.length_append] at hle
    omega
  have hsearch : (definition name).search none (before ++ after) =
      some (before, m, [[','].intercalate l]) :=
    search_append hbefore (by rwa [Option.or_none])
  have hl : ∀ d ∈ l, d ≠ [] ∧ ',' ∉ d := by
    intro d hd
    obtain ⟨⟨declaration, hspells⟩, -, -, hcomma⟩ := h.declaration d hd
    exact ⟨ne_nil_of_spells hspells (by simp [Declaration.items]), hcomma⟩
  rw [findFuncArgList, hcode, hsearch]
  exact congrArg _ (strtok_intercalate hl h.ne_nil)

/-! ## The classification -/

lemma not_accepts_typeQualifier {c : Char} (h : isWord c = false) :
    ¬ typeQualifier.Accepts c ∧ typeQualifier.Stops c := by
  have hliteral : ∀ l : List Char, (∀ d ∈ l, isWord d = true) → c ∉ l := fun l hl hc => by
    simp [hl c hc] at h
  simp only [typeQualifier, Accepts, Stops, accepts_literal, stops_literal]
  have hconst := hliteral ['c', 'o', 'n', 's', 't'] (List.all_eq_true.1 (by decide))
  have hrestrict :=
    hliteral ['r', 'e', 's', 't', 'r', 'i', 'c', 't'] (List.all_eq_true.1 (by decide))
  have hvolatile :=
    hliteral ['v', 'o', 'l', 'a', 't', 'i', 'l', 'e'] (List.all_eq_true.1 (by decide))
  tauto

lemma not_accepts_spaces {c : Char} (h : isSpace c = false) :
    ¬ spaces.Accepts c ∧ spaces.Stops c := by
  simp [spaces, Accepts, Stops, h]

lemma typeQualifier_local : typeQualifier.Local :=
  ⟨local_literal _, local_literal _, local_literal _⟩

lemma spaces_local : spaces.Local := ⟨trivial, trivial⟩

/-- The text of an entry after the qualifiers have been deleted. -/
def stripped (text : List Char) : List Char := replaceAll typeQualifier [] (entry text)

/-- Stars and brackets are left alone. -/
lemma mem_stripped {c : Char} (hword : isWord c = false) (hspace : isSpace c = false)
    {text : List Char} : c ∈ stripped text ↔ c ∈ text := by
  have hblank : c ≠ ' ' := by
    rintro rfl
    exact absurd hspace (by decide)
  rw [stripped, mem_replaceAll (not_accepts_typeQualifier hword).1 (by simp), entry,
    mem_replaceAll (not_accepts_spaces hspace).1 (by simpa using hblank)]

lemma search_arraySymbol (arg : List Char) :
    (arraySymbol.search none arg).isSome = true ↔ '[' ∈ arg := by
  rw [arraySymbol, search_one_isSome_iff]
  simp

lemma mem_of_search_pointerSymbol {arg : List Char}
    (h : (pointerSymbol.search none arg).isSome = true) : '*' ∈ arg := by
  obtain ⟨a, b, rfl, hab⟩ := search_isSome_iff.1 h
  obtain ⟨⟨m, g⟩, hmem⟩ := List.exists_mem_of_ne_nil _ hab
  obtain ⟨c, t, -, -, rfl, hc, -⟩ := of_mem_one_seq hmem
  obtain rfl : c = '*' := of_decide_eq_true hc
  simp

/-- No more than one word, and the whitespace around it. -/
def AtMostWord (text : List Char) : Prop :=
  ∃ a w b, text = a ++ (w ++ b) ∧ (∀ c ∈ a, isSpace c = true) ∧ (∀ c ∈ w, isWord c = true) ∧
    ∀ c ∈ b, isSpace c = true

lemma search_pointerSymbol {x y : List Char} (h : AtMostWord y) :
    (pointerSymbol.search none (x ++ '*' :: y)).isSome = true := by
  obtain ⟨a, w, b, rfl, ha, hw, hb⟩ := h
  have hend : ∀ prev, (b, []) ∈ (seq (many isSpace) (endLine isSeparator)).results prev b := by
    intro prev
    have hnil : ([], []) ∈ (endLine isSeparator).results (b.getLast?.or prev) [] :=
      List.mem_cons_self
    have hmem := mem_seq_of_append (mem_many_of_append hb prev []) hnil
    rwa [List.append_nil] at hmem
  exact search_isSome_iff.2 ⟨x, ['*'] ++ (a ++ (w ++ b)), rfl, List.ne_nil_of_mem
    (mem_seq_of_append (mem_one_of_append (by decide) _ _)
      (mem_seq_of_append (mem_many_of_append ha _ _)
        (mem_seq_of_append (mem_many_of_append hw _ _) (hend _))))⟩

/-! ## Behind the last star -/

/-- A stretch of whitespace comes to one blank. -/
lemma entry_whitespace {w : List Char} (hw : ∀ c ∈ w, isSpace c = true) (hne : w ≠ []) :
    entry w = [' '] := by
  obtain ⟨c, w, rfl⟩ := List.exists_cons_of_ne_nil hne
  obtain ⟨hc, hw⟩ := List.forall_mem_cons.1 hw
  have hhead : (spaces.results none (c :: (w ++ []))).head? = some (c :: w, []) :=
    head_seq (head_one hc none (w ++ [])) (head_many_append hw (by simp) _)
  rw [List.append_nil] at hhead
  rw [entry, replaceAll, replaceFrom_match hhead]
  have hskip : replaceFrom spaces [' '] (some c) w.length (w ++ []) = [] :=
    replaceFrom_skip (some c) w []
  rw [List.append_nil] at hskip
  rw [hskip, List.append_nil]

lemma isSpace_of_mem_entry {w : List Char} (hw : ∀ c ∈ w, isSpace c = true) :
    ∀ c ∈ entry w, isSpace c = true := by
  by_cases hne : w = []
  · simp [hne, entry, replaceAll, replaceFrom]
  · rw [entry_whitespace hw hne]
    simp [isSpace]

/-- An entry starts with whitespace if its text does, and with what the text starts with if not. -/
lemma head_entry (text : List Char) :
    (entry text).head? = text.head?.map fun c => if isSpace c then ' ' else c := by
  cases text with
  | nil => rfl
  | cons c t =>
      by_cases hc : isSpace c = true
      · have hhead : (spaces.results none (c :: t)).head? = some (c :: t.takeWhile isSpace, []) :=
          head_seq (head_one hc none t) (head_many isSpace _ t)
        rw [entry, replaceAll, replaceFrom_match hhead]
        simp [hc]
      · have hnil : spaces.results none (c :: t) = [] := by
          simp [spaces, results_seq, results_one_cons, hc]
        rw [entry, replaceAll, replaceFrom_miss (by simp [hnil])]
        simp [hc]

lemma spells_nil {text : List Char} (h : Spells [] text) : ∀ c ∈ text, isSpace c = true := by
  cases h with
  | nil hw => exact hw

lemma spells_cons {item : Item} {items : List Item} {text : List Char}
    (h : Spells (item :: items) text) : ∃ w rest, text = w ++ (item.text ++ rest) ∧
      (∀ c ∈ w, isSpace c = true) ∧
      (∀ v, item = .word v → ∀ c ∈ rest.head?, isWord c = false) ∧ Spells items rest := by
  cases h with
  | cons hw hend h => exact ⟨_, _, rfl, hw, hend, h⟩

/-- The head of a word, and of what is behind it. -/
lemma head_word (v : Word) (rest : List Char) : ∀ c ∈ (v.chars ++ rest).head?, isWord c = true := by
  obtain ⟨c, t, ht⟩ := List.exists_cons_of_ne_nil v.ne_nil
  rw [ht, List.cons_append]
  exact forall_head (v.word c (ht ▸ List.mem_cons_self)) _

/-- Words are spelled by the entry of a text as they are by the text. -/
lemma spells_entry {words : List Word} {text : List Char}
    (h : Spells (words.map .word) text) : Spells (words.map .word) (entry text) := by
  induction words generalizing text with
  | nil => exact .nil (isSpace_of_mem_entry (spells_nil h))
  | cons v words ih =>
      obtain ⟨w, rest, rfl, hw, hend, hrest⟩ := spells_cons h
      have hsplit : entry (w ++ (v.chars ++ rest)) = entry w ++ (v.chars ++ entry rest) := by
        rw [entry, replaceAll_append, replaceAll_stops_append spaces_local]
        · rfl
        · exact fun c hc => (not_accepts_spaces (isSpace_of_isWord (v.word c hc))).2
        · exact fun c hc => (not_accepts_spaces (isSpace_of_isWord (head_word v rest c hc))).2
      have hhead : ∀ c ∈ (entry rest).head?, isWord c = false := by
        rw [head_entry]
        intro c hc
        obtain ⟨d, hd, rfl⟩ := Option.mem_map.1 hc
        split
        · decide
        · exact hend v rfl d hd
      change Spells (.word v :: words.map .word) (entry (w ++ (v.chars ++ rest)))
      rw [hsplit]
      exact .cons (isSpace_of_mem_entry hw) (fun _ _ => hhead) (ih hrest)

/-- After the qualifiers have been deleted, no more than the identifier is left. -/
lemma atMostWord_replaceAll {qualifiers : List Qualifier} {identifier : Word} {text : List Char}
    (h : Spells ((qualifiers.map Qualifier.word ++ [identifier]).map .word) text) :
    AtMostWord (replaceAll typeQualifier [] text) := by
  have hspaces : ∀ w : List Char, (∀ c ∈ w, isSpace c = true) → ∀ c ∈ w, typeQualifier.Stops c :=
    fun w hw c hc => (not_accepts_typeQualifier (isWord_of_isSpace (hw c hc))).2
  induction qualifiers generalizing text with
  | nil =>
      obtain ⟨w, rest, rfl, hw, -, hrest⟩ := spells_cons h
      have hrest := spells_nil hrest
      have hstop : ∀ c ∈ rest.head?, typeQualifier.Stops c := fun c hc =>
        hspaces rest hrest c (List.mem_of_head? hc)
      have htail : replaceAll typeQualifier [] (rest ++ []) = rest ++ [] :=
        replaceAll_stops_append typeQualifier_local (hspaces rest hrest) []
      rw [List.append_nil] at htail
      refine ⟨w, replaceAll typeQualifier [] identifier.chars, rest, ?_, hw, ?_, hrest⟩
      · rw [replaceAll_stops_append typeQualifier_local (hspaces w hw)]
        change _ ++ replaceAll typeQualifier [] (identifier.chars ++ rest) = _
        rw [replaceAll_append _ hstop, htail]
      · exact fun c hc => identifier.word c ((replaceFrom_sublist none 0 _).subset hc)
  | cons q qualifiers ih =>
      obtain ⟨w, rest, rfl, hw, hend, hrest⟩ := spells_cons h
      obtain ⟨a, x, b, heq, ha, hx, hb⟩ := ih hrest
      have hstop : ∀ c ∈ rest.head?, typeQualifier.Stops c := fun c hc =>
        (not_accepts_typeQualifier (hend q.word rfl c hc)).2
      have hq : replaceAll typeQualifier [] q.word.chars = [] := by
        cases q <;> decide
      refine ⟨w ++ a, x, b, ?_, ?_, hx, hb⟩
      · rw [replaceAll_stops_append typeQualifier_local (hspaces w hw)]
        change _ ++ replaceAll typeQualifier [] (q.word.chars ++ rest) = _
        rw [replaceAll_append _ hstop, hq, heq, List.nil_append, List.append_assoc]
      · intro c hc
        rcases List.mem_append.1 hc with hc | hc
        · exact hw c hc
        · exact ha c hc

/-! ## The stars of a declaration -/

/-- The characters of a text are those of its items, and whitespace. -/
lemma mem_of_spells {items : List Item} {text : List Char} (h : Spells items text) {c : Char} :
    c ∈ text → isSpace c = true ∨ ∃ item ∈ items, c ∈ item.text := by
  intro hc
  induction h with
  | nil hw => exact Or.inl (hw c hc)
  | @cons w text item items hw hend h ih =>
      rcases List.mem_append.1 hc with hc | hc
      · exact Or.inl (hw c hc)
      rcases List.mem_append.1 hc with hc | hc
      · exact Or.inr ⟨item, List.mem_cons_self, hc⟩
      · exact (ih hc).imp_right fun ⟨x, hx, hcx⟩ => ⟨x, List.mem_cons_of_mem item hx, hcx⟩

lemma mem_spells {items : List Item} {text : List Char} (h : Spells items text) {item : Item}
    (hitem : item ∈ items) : ∀ c ∈ item.text, c ∈ text := by
  intro c hc
  induction h with
  | nil hw => cases hitem
  | @cons w text x items hw hend h ih =>
      rcases List.mem_cons.1 hitem with rfl | hitem
      · exact List.mem_append_right _ (List.mem_append_left _ hc)
      · exact List.mem_append_right _ (List.mem_append_right _ (ih hitem))

lemma spells_append {xs ys : List Item} {text : List Char} (h : Spells (xs ++ ys) text) :
    ∃ a b, text = a ++ b ∧ Spells ys b := by
  induction xs generalizing text with
  | nil => exact ⟨[], text, rfl, h⟩
  | cons x xs ih =>
      obtain ⟨w, rest, rfl, -, -, hrest⟩ := spells_cons h
      obtain ⟨a, b, rfl, hb⟩ := ih hrest
      exact ⟨w ++ (x.text ++ a), b, by simp, hb⟩

/-- Behind the last star of a declaration without brackets are its qualifiers and the
identifier. -/
lemma last_star {d : Declaration} {text : List Char} (h : Spells d.items text) (hstar : '*' ∈ text)
    (harray : '[' ∉ text) : ∃ x tail, ∃ qualifiers : List Qualifier, text = x ++ '*' :: tail ∧
      Spells ((qualifiers.map Qualifier.word ++ [d.identifier]).map .word) tail := by
  have hnone : d.array = none := by
    rw [Option.eq_none_iff_forall_ne_some]
    intro inner hinner
    have hitem : Item.array inner ∈ d.items := by simp [Declaration.items, hinner]
    exact harray (mem_spells h hitem '[' (by simp [Item.text]))
  have hword : ∀ v : Word, '*' ∉ v.chars := fun v hv => absurd (v.word '*' hv) (by decide)
  obtain hnil | ⟨stars, qualifiers, hstars⟩ := List.eq_nil_or_concat d.stars
  · rcases mem_of_spells h hstar with hspace | ⟨item, hitem, hmem⟩
    · exact absurd hspace (by decide)
    · have hwords : ∃ v, item = .word v := by
        have hitem' : (∃ v ∈ d.words, Item.word v = item) ∨ item = .word d.identifier := by
          simpa [Declaration.items, hnil, hnone] using hitem
        rcases hitem' with ⟨v, -, rfl⟩ | rfl
        · exact ⟨v, rfl⟩
        · exact ⟨d.identifier, rfl⟩
      obtain ⟨v, rfl⟩ := hwords
      exact absurd hmem (hword v)
  · have hitems : d.items = (d.words.map .word ++ stars.flatMap starItems) ++
        .star :: (qualifiers.map Qualifier.word ++ [d.identifier]).map .word := by
      simp [Declaration.items, hstars, hnone, starItems]
    rw [hitems] at h
    obtain ⟨a, b, rfl, hb⟩ := spells_append h
    obtain ⟨w, tail, rfl, -, -, htail⟩ := spells_cons hb
    exact ⟨a ++ w, tail, qualifiers, by simp [Item.text], htail⟩

lemma isPointer_entry {text : List Char} (h : IsDeclaration text) :
    isPointer (entry text) = true ↔ '*' ∈ text ∨ '[' ∈ text := by
  have hstar : '*' ∈ stripped text ↔ '*' ∈ text := mem_stripped (by decide) (by decide)
  have hbracket : '[' ∈ stripped text ↔ '[' ∈ text := mem_stripped (by decide) (by decide)
  change ((arraySymbol.search none (stripped text)).isSome ||
    (pointerSymbol.search none (stripped text)).isSome) = true ↔ _
  rw [Bool.or_eq_true, search_arraySymbol, hbracket]
  constructor
  · rintro (harray | hpointer)
    · exact Or.inr harray
    · exact Or.inl (hstar.1 (mem_of_search_pointerSymbol hpointer))
  · intro hmem
    by_cases harray : '[' ∈ text
    · exact Or.inl harray
    right
    obtain ⟨⟨d, hspells⟩, -⟩ := h
    obtain ⟨x, tail, qualifiers, rfl, htail⟩ := last_star hspells (hmem.resolve_right harray) harray
    have hentry : entry (x ++ '*' :: tail) = entry x ++ '*' :: entry tail :=
      replaceAll_stops_cons spaces_local (not_accepts_spaces (by decide)).2 x tail
    have hsplit : stripped (x ++ '*' :: tail) =
        replaceAll typeQualifier [] (entry x) ++
          '*' :: replaceAll typeQualifier [] (entry tail) := by
      rw [stripped, hentry]
      exact replaceAll_stops_cons typeQualifier_local (not_accepts_typeQualifier (by decide)).2 _ _
    rw [hsplit]
    exact search_pointerSymbol (atMostWord_replaceAll (spells_entry htail))

/-- **Classification.**  The entries found are the declarations in their order, with a blank for
every stretch of whitespace, and one is taken for a pointer exactly when its declaration has a star
or a bracket. -/
theorem parameters_classified {name : Word} {code : List Char} {declarations : List (List Char)}
    (h : Defines name code declarations) :
    findFuncArgList code name = declarations.map entry ∧
      ∀ d ∈ declarations, isPointer (entry d) = true ↔ '*' ∈ d ∨ '[' ∈ d :=
  ⟨findFuncArgList_eq h, fun d hd => isPointer_entry (h.declaration d hd)⟩

/-- `void k(float *a, int n) {}` -/
def addSource : List Char :=
  ['v', 'o', 'i', 'd', ' ', 'k', '(', 'f', 'l', 'o', 'a', 't', ' ', '*', 'a', ',', ' ', 'i', 'n',
    't', ' ', 'n', ')', ' ', '{', '}']

lemma defines_addSource : Defines (.ofChars ['k'] (by decide)) addSource
    [['f', 'l', 'o', 'a', 't', ' ', '*', 'a'], [' ', 'i', 'n', 't', ' ', 'n']] where
  nul_free := by simp [addSource]
  ne_nil := by decide
  declaration := by
    have ha : Spells [.word (.ofChars ['a'] (by decide))] ['a'] :=
      .cons (w := []) (by simp) (by simp) (.nil (w := []) (by simp))
    have hstar : Spells [.star, .word (.ofChars ['a'] (by decide))] [' ', '*', 'a'] :=
      .cons (w := [' ']) (by simp [isSpace]) (by simp) ha
    have hfloat : Spells [.word (.ofChars ['f', 'l', 'o', 'a', 't'] (by decide)), .star,
        .word (.ofChars ['a'] (by decide))] ['f', 'l', 'o', 'a', 't', ' ', '*', 'a'] :=
      .cons (w := []) (by simp) (fun _ _ => forall_head (by decide) _) hstar
    have hn : Spells [.word (.ofChars ['n'] (by decide))] [' ', 'n'] :=
      .cons (w := [' ']) (by simp [isSpace]) (by simp) (.nil (w := []) (by simp))
    have hint : Spells [.word (.ofChars ['i', 'n', 't'] (by decide)),
        .word (.ofChars ['n'] (by decide))] [' ', 'i', 'n', 't', ' ', 'n'] :=
      .cons (w := [' ']) (by simp [isSpace]) (fun _ _ => forall_head (by decide) _) hn
    refine List.forall_mem_cons.2 ⟨?_, List.forall_mem_singleton.2 ?_⟩
    · exact ⟨⟨⟨[.ofChars ['f', 'l', 'o', 'a', 't'] (by decide)], [[]],
        .ofChars ['a'] (by decide), none⟩, hfloat⟩, by decide⟩
    · exact ⟨⟨⟨[.ofChars ['i', 'n', 't'] (by decide)], [], .ofChars ['n'] (by decide), none⟩,
        hint⟩, by decide⟩
  first := by
    refine ⟨['v', 'o', 'i', 'd', ' '], addSource.drop 5, rfl,
      ⟨by simp [isWord], by simp, [], [' '], ['}'], by simp, by simp [isSpace], rfl⟩, ?_⟩
    rintro a b list hcode ⟨-, -, w, w', rest, -, -, rfl⟩
    -- the name does not start with any of the characters in front
    have hname : addSource[a.length]? = some 'k' := by
      rw [hcode]
      simp [Word.ofChars]
    by_contra! hlt
    have hlength : a.length < 5 := hlt
    interval_cases a.length <;> exact absurd hname (by decide)

theorem parameters_classified_add :
    findFuncArgList addSource (.ofChars ['k'] (by decide)) =
        [['f', 'l', 'o', 'a', 't', ' ', '*', 'a'], [' ', 'i', 'n', 't', ' ', 'n']].map entry ∧
      ∀ d ∈ [['f', 'l', 'o', 'a', 't', ' ', '*', 'a'], [' ', 'i', 'n', 't', ' ', 'n']],
        isPointer (entry d) = true ↔ '*' ∈ d ∨ '[' ∈ d :=
  parameters_classified defines_addSource

end Parser

end ElasticFramework
