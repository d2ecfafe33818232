import ElasticFramework.Construction.HistoryLookup

/-!
# Which number is found

The loop over the tokens compares every number of every line with the key, not those of the first
column alone, and it compares them as `float`.  `fileResult` is what it comes to for a history file,
one line after the other.  The first number that is equal decides, so that the file is to be
`Clear`: that number, if there is one, stands in the first column, and is the key itself.  Where it
does not, no deviation can be returned: behind it there is no second number in the line.
-/

namespace ElasticFramework

/-! ## Characters -/

lemma toNat_of_isDigit {c : Char} (h : c.isDigit = true) : 48 ≤ c.toNat ∧ c.toNat ≤ 57 := by
  simp only [Char.isDigit, Bool.and_eq_true, decide_eq_true_eq] at h
  exact h

lemma ne_of_isDigit {c d : Char} (h : c.isDigit = true) (hd : d.toNat < 48) : c ≠ d := by
  rintro rfl
  exact absurd (toNat_of_isDigit h).1 (not_le.2 hd)

lemma isSpace_of_isDigit {c : Char} (h : c.isDigit = true) : isSpace c = false := by
  have hge := (toNat_of_isDigit h).1
  have hblank : c ≠ ' ' := ne_of_isDigit h (by decide)
  simp only [isSpace, hblank, decide_false, Bool.false_or, Bool.and_eq_false_iff,
    decide_eq_false_iff_not]
  omega

namespace Numeral

variable (n : Numeral)

lemma isDigit_of_mem {c : Char} (h : c ∈ n.digits) : c.isDigit = true :=
  List.all_eq_true.1 n.isDigit c h

/-- The first digit. -/
lemma exists_cons : ∃ c l, n.digits = c :: l ∧ c.isDigit = true := by
  cases h : n.digits with
  | nil => exact absurd h n.ne_nil
  | cons c l => exact ⟨c, l, rfl, n.isDigit_of_mem (h ▸ List.mem_cons_self)⟩

lemma signed_digits : signed n.digits = n.value := by
  obtain ⟨c, l, hdigits, hc⟩ := n.exists_cons
  have hall : n.digits.takeWhile Char.isDigit = n.digits :=
    List.takeWhile_eq_self_iff.2 fun c => n.isDigit_of_mem
  rw [Numeral.value]
  unfold signed
  split
  · rename_i s hs
    rw [hdigits] at hs
    exact absurd (List.cons.inj hs).1 (ne_of_isDigit hc (by decide))
  · rename_i s hs
    rw [hdigits] at hs
    exact absurd (List.cons.inj hs).1 (ne_of_isDigit hc (by decide))
  · rw [hall]

lemma atoi_digits : atoi n.digits = if n.value < 2 ^ 31 then some (n.value : ℤ) else none := by
  obtain ⟨c, l, hdigits, hc⟩ := n.exists_cons
  have hskip : n.digits.dropWhile isSpace = n.digits := by
    rw [hdigits, List.dropWhile_cons_of_neg (by rw [isSpace_of_isDigit hc]; simp)]
  simp only [atoi, hskip, signed_digits]
  by_cases h : n.value < 2 ^ 31
  · rw [if_pos h, if_pos ⟨by omega, by omega⟩]
  · rw [if_neg h, if_neg fun hrange => h (by omega)]

end Numeral

/-- Characters up to one that is not among them. -/
lemma span_append {d : Char} {l tail : List Char} (hl : ∀ c ∈ l, c ≠ d)
    (htail : tail.head?.all (· = d)) :
    (l ++ tail).takeWhile (· ≠ d) = l ∧ (l ++ tail).dropWhile (· ≠ d) = tail := by
  have hne : ∀ c ∈ l, decide (c ≠ d) = true := fun c hc => decide_eq_true (hl c hc)
  rw [List.takeWhile_append_of_pos hne, List.dropWhile_append_of_pos hne]
  cases tail with
  | nil => exact ⟨List.append_nil l, rfl⟩
  | cons c tail =>
      have hc : ¬ decide (c ≠ d) = true := by simpa using htail
      rw [List.takeWhile_cons_of_neg (p := fun x => decide (x ≠ d)) hc,
        List.dropWhile_cons_of_neg (p := fun x => decide (x ≠ d)) hc, List.append_nil]
      exact ⟨rfl, rfl⟩

/-! ## Tokens -/

/-- A token behind blanks, with what stands behind it. -/
lemma strtok_digits (gap : ℕ) (n : Numeral) {tail : List Char} (htail : tail.head?.all (· = ' ')) :
    strtok (List.replicate gap ' ' ++ (n.digits ++ tail)) = (some n.digits, tail.drop 1) := by
  obtain ⟨c, l, hdigits, hc⟩ := n.exists_cons
  obtain ⟨htake, hdrop⟩ := span_append
    (fun c hc => ne_of_isDigit (n.isDigit_of_mem hc) (by decide)) htail
  have hskip : (List.replicate gap ' ' ++ (n.digits ++ tail)).dropWhile (· = ' ') =
      n.digits ++ tail := by
    rw [List.dropWhile_append_of_pos fun c hc => by simp [List.eq_of_mem_replicate hc], hdigits,
      List.cons_append, List.dropWhile_cons_of_neg (by simpa using ne_of_isDigit hc (by decide))]
  have hnil : n.digits ++ tail ≠ [] := by
    rw [hdigits]
    exact List.cons_ne_nil _ _
  unfold strtok
  simp only [hskip]
  rw [if_neg hnil, htake, hdrop]

lemma strtok_nil : strtok [] = (none, []) := rfl

/-- The calls of `strtok` come to these numbers and to no more. -/
def Tokenized : List Char → List Numeral → Prop
  | s, [] => s = []
  | s, n :: ns => ∃ save, strtok s = (some n.digits, save) ∧ Tokenized save ns

lemma tokenized_text (e : HistoryLine) : Tokenized e.text e.columns := by
  refine ⟨_, strtok_digits 0 e.argument rfl, _, strtok_digits e.gap e.time rfl, [], ?_, rfl⟩
  have hlast := @strtok_digits e.gap' e.stdev [] rfl
  rwa [List.append_nil] at hlast

/-- The number that is returned, of those behind the one that was found. -/
def HistoryColumn.behind (ns : List Numeral) : HistoryColumn → Option Numeral
  | .time => ns[0]?
  | .stdev => ns[1]?

lemma token_of_tokenized {s : List Char} {ns : List Numeral} (h : Tokenized s ns)
    (column : HistoryColumn) : column.token s = (column.behind ns).map Numeral.digits := by
  have hfirst : ∀ {s ns}, Tokenized s ns → (strtok s).1 = ns[0]?.map Numeral.digits := by
    intro s ns h
    cases ns with
    | nil => rw [show s = [] from h, strtok_nil]; rfl
    | cons n ns =>
        obtain ⟨save, hs, -⟩ := h
        rw [hs]
        rfl
  cases column with
  | time => exact hfirst h
  | stdev =>
      cases ns with
      | nil => rw [show s = [] from h]; rfl
      | cons n ns =>
          obtain ⟨save, hs, hsave⟩ := h
          rw [HistoryColumn.token, hs]
          exact hfirst hsave

/-! ## Lines -/

lemma HistoryLine.forall_mem_text {P : Char → Prop} (hdigit : ∀ c, c.isDigit = true → P c)
    (hblank : P ' ') (e : HistoryLine) : ∀ c ∈ e.text, P c := by
  have hnumeral : ∀ n : Numeral, ∀ c ∈ n.digits, P c := fun n c hc =>
    hdigit c (n.isDigit_of_mem hc)
  have hgap : ∀ gap, ∀ c ∈ List.replicate gap ' ', P c := fun gap c hc =>
    List.eq_of_mem_replicate hc ▸ hblank
  simp only [HistoryLine.text, List.forall_mem_append, List.forall_mem_cons]
  exact ⟨hnumeral _, hblank, hgap _, hnumeral _, hblank, hgap _, hnumeral _⟩

lemma HistoryLine.length_text_lt (e : HistoryLine) : e.text.length < kBufferSize := by
  have hlt := e.length_lt
  simp only [HistoryLine.text, List.length_append, List.length_cons, List.length_replicate]
  omega

lemma HistoryLine.text_ne_nil (e : HistoryLine) : e.text ≠ [] :=
  fun h => e.argument.ne_nil (List.append_eq_nil_iff.1 h).1

lemma HistoryLine.cStr_text (e : HistoryLine) : Parser.cStr e.text = e.text := by
  refine List.takeWhile_eq_self_iff.2 fun c hc => decide_eq_true ?_
  refine e.forall_mem_text (P := fun c => c.toNat ≠ 0) (fun c hc => ?_) (by decide) c hc
  have hge := (toNat_of_isDigit hc).1
  omega

/-- A line is read up to its end. -/
lemma getline_text (e : HistoryLine) {tail : List Char} (htail : tail.head?.all (· = '\n')) :
    getline (e.text ++ tail) = some (e.text, tail.drop 1) := by
  obtain ⟨htake, hdrop⟩ := span_append
    (e.forall_mem_text (fun c hc => ne_of_isDigit hc (by decide)) (by decide)) htail
  rw [getline, if_neg fun h => e.text_ne_nil (List.append_eq_nil_iff.1 h).1, htake, hdrop]

lemma getline_textOf (terminated : Bool) (e : HistoryLine) (es : List HistoryLine) :
    getline (textOf terminated (e :: es)) = some (e.text, textOf terminated es) := by
  cases es with
  | nil =>
      cases terminated with
      | true => exact getline_text e rfl
      | false =>
          have hlast := @getline_text e [] rfl
          rwa [List.append_nil] at hlast
  | cons e' es => exact getline_text e rfl

/-! ## What the loops come to -/

/-- Everything in a list is so, or there is a first that is not. -/
lemma all_or_first {α : Type*} (P : α → Prop) (l : List α) :
    (∀ x ∈ l, P x) ∨ ∃ a x b, l = a ++ x :: b ∧ (∀ y ∈ a, P y) ∧ ¬ P x := by
  induction l with
  | nil => exact .inl fun _ hx => absurd hx List.not_mem_nil
  | cons x l ih =>
      by_cases hx : P x
      · rcases ih with hall | ⟨a, y, b, rfl, ha, hy⟩
        · exact .inl (List.forall_mem_cons.2 ⟨hx, hall⟩)
        · exact .inr ⟨x :: a, y, b, rfl, List.forall_mem_cons.2 ⟨hx, ha⟩, hy⟩
      · exact .inr ⟨[], x, l, rfl, fun _ hy => absurd hy List.not_mem_nil, hx⟩

section Results

variable {F : Type*} [Zero F] [DecidableEq F] (fl : Floats F) (column : HistoryColumn) (argv : F)

/-- What the loop over the tokens comes to: nothing defined, nothing found, or a value. -/
def lineResult : List Numeral → Option (Option F)
  | [] => some none
  | n :: ns =>
    if n.value < 2 ^ 31 then
      if fl.ofInt n.value = argv then
        (column.behind ns).map fun m => some (fl.atof m.digits)
      else lineResult ns
    else none

/-- What the loop over the lines comes to. -/
def fileResult : List HistoryLine → Option F
  | [] => some 0
  | e :: es =>
    match lineResult fl column argv e.columns with
    | none => none
    | some (some x) => some x
    | some none => fileResult es

variable {fl column argv}

lemma ends_tokens {s : List Char} {ns : List Numeral} (h : Tokenized s ns) (file : List Char)
    (r : Option F) :
    Loop.Ends (lookupRound fl column argv) (.tokens file (strtok s).1 (strtok s).2) r ↔
      match lineResult fl column argv ns with
      | none => r = none
      | some (some x) => r = some x
      | some none => Loop.Ends (lookupRound fl column argv) (.lines file) r := by
  induction ns generalizing s with
  | nil =>
      rw [show s = [] from h]
      exact Loop.ends_again rfl
  | cons n ns ih =>
      obtain ⟨save, hs, hsave⟩ := h
      rw [hs, lineResult]
      have hatoi := n.atoi_digits
      by_cases hrange : n.value < 2 ^ 31
      · rw [if_pos hrange] at hatoi
        rw [if_pos hrange]
        by_cases heq : fl.ofInt n.value = argv
        · have hround : lookupRound fl column argv (.tokens file (some n.digits) save) =
              .quit ((column.behind ns).map fun m => fl.atof m.digits) := by
            simp only [lookupRound, hatoi]
            rw [if_pos heq, token_of_tokenized hsave, Option.map_map]
            rfl
          rw [Loop.ends_quit_iff hround, if_pos heq]
          cases column.behind ns <;> rfl
        · have hround : lookupRound fl column argv (.tokens file (some n.digits) save) =
              .again (.tokens file (strtok save).1 (strtok save).2) := by
            simp only [lookupRound, hatoi]
            rw [if_neg heq]
          rw [Loop.ends_again hround, if_neg heq]
          exact ih hsave
      · rw [if_neg hrange] at hatoi
        rw [if_neg hrange]
        have hround : lookupRound fl column argv (.tokens file (some n.digits) save) =
            .quit none := by
          simp only [lookupRound, hatoi]
        exact Loop.ends_quit_iff hround

lemma ends_lines (terminated : Bool) (es : List HistoryLine) (r : Option F) :
    Loop.Ends (lookupRound fl column argv) (.lines (textOf terminated es)) r ↔
      r = fileResult fl column argv es := by
  induction es with
  | nil => exact Loop.ends_quit_iff rfl
  | cons e es ih =>
      have hround : lookupRound fl column argv (.lines (textOf terminated (e :: es))) =
          .again (.tokens (textOf terminated es) (strtok e.text).1 (strtok e.text).2) := by
        simp only [lookupRound, getline_textOf, e.cStr_text]
        rw [if_pos e.length_text_lt]
      rw [Loop.ends_again hround, ends_tokens (tokenized_text e), fileResult]
      cases lineResult fl column argv e.columns with
      | none => rfl
      | some x =>
          cases x with
          | none => exact ih
          | some x => rfl

/-! ## The first number that is equal -/

/-- The number is an `int`, and not equal as a `float`. -/
def Misses (fl : Floats F) (argv : F) (n : Numeral) : Prop :=
  n.value < 2 ^ 31 ∧ fl.ofInt n.value ≠ argv

/-- The number is an `int`, and equal as a `float`. -/
def Hits (fl : Floats F) (argv : F) (n : Numeral) : Prop :=
  n.value < 2 ^ 31 ∧ fl.ofInt n.value = argv

/-- No number of the line is equal. -/
def LineMisses (fl : Floats F) (argv : F) (e : HistoryLine) : Prop :=
  ∀ n ∈ e.columns, Misses fl argv n

omit [Zero F] in
lemma lineResult_misses {skipped : List Numeral} (h : ∀ m ∈ skipped, Misses fl argv m)
    (rest : List Numeral) :
    lineResult fl column argv (skipped ++ rest) = lineResult fl column argv rest := by
  induction skipped with
  | nil => rfl
  | cons m skipped ih =>
      obtain ⟨hrange, hne⟩ := h m List.mem_cons_self
      rw [List.cons_append, lineResult, if_pos hrange, if_neg hne]
      exact ih fun m hm => h m (List.mem_cons_of_mem _ hm)

omit [Zero F] in
lemma lineResult_of_lineMisses {e : HistoryLine} (h : LineMisses fl argv e) :
    lineResult fl column argv e.columns = some none := by
  have hall : lineResult fl column argv (e.columns ++ []) = lineResult fl column argv [] :=
    lineResult_misses h []
  rwa [List.append_nil] at hall

lemma fileResult_misses {before : List HistoryLine} (h : ∀ e ∈ before, LineMisses fl argv e)
    (rest : List HistoryLine) :
    fileResult fl column argv (before ++ rest) = fileResult fl column argv rest := by
  induction before with
  | nil => rfl
  | cons e before ih =>
      rw [List.cons_append, fileResult, lineResult_of_lineMisses (h e List.mem_cons_self)]
      exact ih fun e he => h e (List.mem_cons_of_mem _ he)

/-- The first number of the file that is not missed: the lines before, its line, and the numbers
before and behind it. -/
structure First (fl : Floats F) (argv : F) (lines : List HistoryLine) (e : HistoryLine)
    (skipped : List Numeral) (n : Numeral) (behind : List Numeral) : Prop where
  lines_eq : ∃ before after, lines = before ++ e :: after ∧ ∀ e ∈ before, LineMisses fl argv e
  columns_eq : e.columns = skipped ++ n :: behind
  skipped_misses : ∀ m ∈ skipped, Misses fl argv m

lemma First.fileResult_eq {lines : List HistoryLine} {e : HistoryLine}
    {skipped behind : List Numeral} {n : Numeral} (h : First fl argv lines e skipped n behind)
    (hn : ¬ Misses fl argv n) :
    fileResult fl column argv lines =
      if n.value < 2 ^ 31 then (column.behind behind).map fun m => fl.atof m.digits else none := by
  obtain ⟨before, after, rfl, hbefore⟩ := h.lines_eq
  rw [fileResult_misses hbefore, fileResult, h.columns_eq, lineResult_misses h.skipped_misses,
    lineResult]
  by_cases hrange : n.value < 2 ^ 31
  · have heq : fl.ofInt n.value = argv := by
      by_contra hne
      exact hn ⟨hrange, hne⟩
    rw [if_pos hrange, if_pos heq, if_pos hrange]
    cases column.behind behind <;> rfl
  · rw [if_neg hrange, if_neg hrange]

omit [Zero F] [DecidableEq F] in
/-- Every number is missed, or there is a first that is not. -/
lemma misses_or_first (fl : Floats F) (argv : F) (lines : List HistoryLine) :
    (∀ e ∈ lines, LineMisses fl argv e) ∨
      ∃ e skipped n behind, First fl argv lines e skipped n behind ∧ ¬ Misses fl argv n := by
  rcases all_or_first (LineMisses fl argv) lines with hall | ⟨before, e, after, hlines, hbefore, he⟩
  · exact .inl hall
  · rcases all_or_first (Misses fl argv) e.columns with hall | ⟨skipped, n, behind, heq, hskip, hn⟩
    · exact absurd hall he
    · exact .inr ⟨e, skipped, n, behind, ⟨⟨before, after, hlines, hbefore⟩, heq, hskip⟩, hn⟩

end Results

/-! ## When it is the one that was looked for -/

section Clear

variable {F : Type*} [Zero F] [DecidableEq F]

/-- No number of the file is equal to the key, as a `float`; or the first that is stands in the
first column, and it is the key itself, or what is asked for is in its line all the same. -/
def HistoryFile.Clear (fl : Floats F) (key : ℤ) (f : HistoryFile) : Prop :=
  (∀ e ∈ f.lines, LineMisses fl (fl.ofInt key) e) ∨
    ∃ before e after, f.lines = before ++ e :: after ∧
      (∀ d ∈ before, LineMisses fl (fl.ofInt key) d) ∧ Hits fl (fl.ofInt key) e.argument ∧
      ((e.argument.value : ℤ) = key ∨
        ∀ column, fl.atof (e.get column).digits = f.wanted fl column key)

variable {fl : Floats F} {key : ℤ} {f : HistoryFile}

omit [Zero F] [DecidableEq F] in
lemma argument_ne_of_misses {e : HistoryLine} (h : LineMisses fl (fl.ofInt key) e) :
    (e.argument.value : ℤ) ≠ key :=
  fun hkey => (h e.argument List.mem_cons_self).2 (by rw [hkey])

lemma fileResult_of_misses {lines : List HistoryLine} {argv : F}
    (h : ∀ e ∈ lines, LineMisses fl argv e) (column : HistoryColumn) :
    fileResult fl column argv lines = some 0 := by
  have hall : fileResult fl column argv (lines ++ []) = fileResult fl column argv [] :=
    fileResult_misses h []
  rwa [List.append_nil] at hall

omit [DecidableEq F] in
lemma wanted_of_misses (h : ∀ e ∈ f.lines, LineMisses fl (fl.ofInt key) e)
    (column : HistoryColumn) : f.wanted fl column key = 0 := by
  have hnone : f.lines.find? (fun e => (e.argument.value : ℤ) = key) = none :=
    List.find?_eq_none.2 fun e he => by simpa using argument_ne_of_misses (h e he)
  rw [HistoryFile.wanted, hnone]

omit [DecidableEq F] in
lemma wanted_of_argument {before after : List HistoryLine} {e : HistoryLine}
    (hlines : f.lines = before ++ e :: after)
    (hbefore : ∀ d ∈ before, LineMisses fl (fl.ofInt key) d) (he : (e.argument.value : ℤ) = key)
    (column : HistoryColumn) : f.wanted fl column key = fl.atof (e.get column).digits := by
  have hsome : f.lines.find? (fun e => (e.argument.value : ℤ) = key) = some e := by
    refine List.find?_eq_some_iff_append.2 ⟨by simpa using he, before, after, hlines, ?_⟩
    exact fun d hd => by simpa using argument_ne_of_misses (hbefore d hd)
  rw [HistoryFile.wanted, hsome]

/-- What is returned where the first number of a line is the first that is equal. -/
lemma fileResult_of_argument {argv : F} {before after : List HistoryLine} {e : HistoryLine}
    (hlines : f.lines = before ++ e :: after) (hbefore : ∀ d ∈ before, LineMisses fl argv d)
    (he : Hits fl argv e.argument) (column : HistoryColumn) :
    fileResult fl column argv f.lines = some (fl.atof (e.get column).digits) := by
  have hfirst : First fl argv f.lines e [] e.argument [e.time, e.stdev] :=
    ⟨⟨before, after, hlines, hbefore⟩, rfl, fun _ hm => absurd hm List.not_mem_nil⟩
  rw [hfirst.fileResult_eq fun hn => hn.2 he.2, if_pos he.1]
  cases column <;> rfl

omit [Zero F] [DecidableEq F] in
/-- Two calls of `strtok` behind a number find a second one only if it is the first of its line. -/
lemma First.of_behind {argv : F} {lines : List HistoryLine} {e : HistoryLine}
    {skipped behind : List Numeral} {n m : Numeral} (h : First fl argv lines e skipped n behind)
    (hm : HistoryColumn.behind behind .stdev = some m) : n = e.argument := by
  have heq := h.columns_eq
  have hlength := congrArg List.length heq
  have hbehind : 1 < behind.length := (List.getElem?_eq_some_iff.1 hm).1
  simp only [HistoryLine.columns, List.length_append, List.length_cons, List.length_nil] at hlength
  have hnil : skipped = [] := List.eq_nil_of_length_eq_zero (by omega)
  rw [hnil] at heq
  exact (List.cons.inj heq).1.symm

/-- Both columns are what is asked for exactly if the file is clear. -/
lemma looks_iff_clear :
    (∀ column, Looks fl column (some f.text) (fl.ofInt key) (some (f.wanted fl column key))) ↔
      f.Clear fl key := by
  have hlooks : ∀ column,
      Looks fl column (some f.text) (fl.ofInt key) (some (f.wanted fl column key)) ↔
        some (f.wanted fl column key) = fileResult fl column (fl.ofInt key) f.lines :=
    fun column => ends_lines f.terminated f.lines _
  constructor
  · intro h
    rcases misses_or_first fl (fl.ofInt key) f.lines with
      hall | ⟨e, skipped, n, behind, hfirst, hn⟩
    · exact .inl hall
    · have hresult := ((hlooks .stdev).1 (h .stdev)).trans (hfirst.fileResult_eq hn)
      by_cases hrange : n.value < 2 ^ 31
      · rw [if_pos hrange] at hresult
        obtain ⟨m, hm, -⟩ := Option.map_eq_some_iff.1 hresult.symm
        obtain rfl := hfirst.of_behind hm
        obtain ⟨before, after, hlines, hbefore⟩ := hfirst.lines_eq
        have hhits : Hits fl (fl.ofInt key) e.argument :=
          ⟨hrange, by_contra fun hne => hn ⟨hrange, hne⟩⟩
        refine .inr ⟨before, e, after, hlines, hbefore, hhits, .inr fun column => ?_⟩
        have hcolumn := (hlooks column).1 (h column)
        rw [fileResult_of_argument hlines hbefore hhits] at hcolumn
        exact (Option.some.inj hcolumn).symm
      · rw [if_neg hrange] at hresult
        exact absurd hresult (Option.some_ne_none _)
  · rintro (hall | ⟨before, e, after, hlines, hbefore, hhits, hcase⟩) column
    · rw [hlooks, fileResult_of_misses hall, wanted_of_misses hall]
    · rw [hlooks, fileResult_of_argument hlines hbefore hhits]
      rcases hcase with he | hvalues
      · rw [wanted_of_argument hlines hbefore he]
      · rw [hvalues]

/-- The four functions return what is asked for exactly if both files are clear. -/
theorem history_lookup_iff (fl : Floats F) (exe network : HistoryFile) (key : ℤ) :
    let io : HistoryFileIO := ⟨some exe.text, some network.text⟩
    (io.getExeTime fl (fl.ofInt key) (some (exe.wanted fl .time key)) ∧
      io.getExeStdev fl (fl.ofInt key) (some (exe.wanted fl .stdev key)) ∧
      io.getNetworkTime fl (fl.ofInt key) (some (network.wanted fl .time key)) ∧
      io.getNetworkStdev fl (fl.ofInt key) (some (network.wanted fl .stdev key))) ↔
    exe.Clear fl key ∧ network.Clear fl key := by
  intro io
  rw [← looks_iff_clear, ← looks_iff_clear]
  constructor
  · rintro ⟨hexe, hexe', hnetwork, hnetwork'⟩
    exact ⟨fun | .time => hexe | .stdev => hexe', fun | .time => hnetwork | .stdev => hnetwork'⟩
  · rintro ⟨hexe, hnetwork⟩
    exact ⟨hexe .time, hexe .stdev, hnetwork .time, hnetwork .stdev⟩

end Clear

/-- A file with one line, `5 7 9`. -/
def oneLine : HistoryFile where
  lines := [⟨⟨['5'], by decide, by decide⟩, ⟨['7'], by decide, by decide⟩,
    ⟨['9'], by decide, by decide⟩, 0, 0, by decide⟩]
  terminated := true

/-- The time of the line is taken for its argument. -/
theorem time_is_looked_for :
    let io : HistoryFileIO := ⟨some oneLine.text, some oneLine.text⟩
    io.getExeTime Floats.binary32 (Floats.binary32.ofInt 7) (some 9) ∧
      oneLine.wanted Floats.binary32 .time 7 = 0 ∧
      ¬ io.getExeTime Floats.binary32 (Floats.binary32.ofInt 7)
        (some (oneLine.wanted Floats.binary32 .time 7)) := by
  have hlooks : ∀ r, Looks Floats.binary32 .time (some oneLine.text) (Floats.binary32.ofInt 7) r ↔
      r = some 9 := ends_lines oneLine.terminated oneLine.lines
  refine ⟨(hlooks _).2 rfl, by decide, fun h => ?_⟩
  exact absurd ((hlooks _).1 h) (by decide)

/-! ## The numbers of a `float` -/

lemma ofInt_of_lt {n : ℤ} (h : n.natAbs < 2 ^ 24) : Floats.binary32.ofInt n = n := by
  rw [Floats.binary32]
  exact (congrArg (fun m : ℕ => n.sign * m) (roundTo_of_lt h)).trans n.sign_mul_natAbs

/-- Where every number is small enough to be a `float`, no time and no deviation is to be equal to
the key. -/
theorem clear_of_disjoint {f : HistoryFile} {key : ℤ} (hkey : key.natAbs < 2 ^ 24)
    (hsmall : ∀ e ∈ f.lines, ∀ n ∈ e.columns, n.value < 2 ^ 24)
    (hne : ∀ e ∈ f.lines, ∀ column, ((e.get column).value : ℤ) ≠ key) :
    f.Clear Floats.binary32 key := by
  have hofInt : ∀ e ∈ f.lines, ∀ n ∈ e.columns,
      (Floats.binary32.ofInt n.value = Floats.binary32.ofInt key ↔ (n.value : ℤ) = key) := by
    intro e he n hn
    rw [ofInt_of_lt hkey, ofInt_of_lt (by simpa using hsmall e he n hn)]
  have hint : ∀ e ∈ f.lines, ∀ n ∈ e.columns, n.value < 2 ^ 31 := fun e he n hn =>
    lt_of_lt_of_le (hsmall e he n hn) (by decide)
  rcases all_or_first (LineMisses Floats.binary32 (Floats.binary32.ofInt key)) f.lines with
    hall | ⟨before, e, after, hlines, hbefore, he⟩
  · exact .inl hall
  · have hmem : e ∈ f.lines := hlines ▸ List.mem_append_right _ List.mem_cons_self
    by_cases hargument : (e.argument.value : ℤ) = key
    · have hhits : Hits Floats.binary32 (Floats.binary32.ofInt key) e.argument :=
        ⟨hint e hmem _ List.mem_cons_self, (hofInt e hmem _ List.mem_cons_self).2 hargument⟩
      exact .inr ⟨before, e, after, hlines, hbefore, hhits, .inl hargument⟩
    · refine absurd (fun n hn => ⟨hint e hmem n hn, fun heq => ?_⟩) he
      have hvalue := (hofInt e hmem n hn).1 heq
      simp only [HistoryLine.columns, List.mem_cons, List.not_mem_nil, or_false] at hn
      rcases hn with rfl | rfl | rfl
      · exact hargument hvalue
      · exact hne e hmem .time hvalue
      · exact hne e hmem .stdev hvalue

end ElasticFramework
