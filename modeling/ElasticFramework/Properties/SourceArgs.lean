import ElasticFramework.Construction.SourceArgs
import ElasticFramework.Properties.Comments
import ElasticFramework.Properties.Framing

/-!
# The source of a program

Whether `clCreateProgramWithSource` on the node is called with the strings of the caller, and
whether they are in the copy that the client parses.  `arrive_iff` is the result: a string whose
length is not given is sent with the length of the first one, so all of these have to be as long as
that; the sizes have to fit the numbers they are sent with; and there must be nothing in the strings
for `Preprocessor` to take out.  What it takes out is missed in the copy: each of its expressions
has a character that only gets rarer (`count_preprocessor_lt`).
-/

namespace ElasticFramework

open Reader

/-! ## What `Preprocessor` takes out -/

namespace Parser

open Regex

/-- `Preprocessor` finds nothing: neither of its names is a word of the text, and no `//` has the
end of a line behind it. -/
structure Untouched (code : List Char) : Prop where
  counter : ¬ HasWord isWord counter32Tag code
  comment : ∀ x y, code = x ++ '/' :: '/' :: y → '\n' ∉ y
  guid : ¬ HasWord isWord guidArgTag code

lemma replaceAll_comment {code : List Char}
    (h : ∀ x y, code = x ++ '/' :: '/' :: y → '\n' ∉ y) : replaceAll comment [] code = code := by
  refine replaceFrom_eq_self ?_
  rintro a b rfl - m g hmem
  refine absurd hmem (comment_nil ?_)
  by_contra! hboth
  obtain ⟨⟨y, rfl⟩, hnewline⟩ := hboth
  exact h a y rfl (by simpa using hnewline)

lemma Untouched.preprocessor_eq {code : List Char} (h : Untouched code) :
    preprocessor code = code := by
  rw [Parser.preprocessor_eq h.counter, replaceAll_comment h.comment, guidArg,
    replaceAll_wholeWord (by decide) guidArg_word h.guid]

lemma count_preprocessor_le {c : Char} (code : List Char) :
    (preprocessor code).count c ≤ (replaceAll counter32 ['*'] code).count c :=
  (count_replaceFrom_le List.not_mem_nil none 0 _).trans
    (count_replaceFrom_le List.not_mem_nil none 0 _)

/-- A word that is replaced is missed. -/
lemma count_wholeWord_lt {c : Char} {tag new code : List Char} (htag : ∀ d ∈ tag, isWord d = true)
    (hc : c ∈ tag) (hnew : c ∉ new) (h : HasWord isWord tag code) :
    (replaceAll (wholeWord isWord tag) new code).count c < code.count c := by
  obtain ⟨a, b, rfl, hmatch⟩ := results_of_hasWord (List.ne_nil_of_mem hc) htag h
  refine count_replaceFrom_lt hnew (fun prev s m g hmem => ?_) (by rwa [Option.or_none])
  rwa [eq_of_mem_wholeWord hmem]

/-- A comment that is removed is missed. -/
lemma count_comment_lt {x y : List Char} (h : '\n' ∈ y) :
    (replaceAll comment [] (x ++ '/' :: '/' :: y)).count '/' <
      (x ++ '/' :: '/' :: y).count '/' := by
  refine count_replaceFrom_lt List.not_mem_nil (fun prev s m g hmem => ?_) ?_
  · obtain ⟨m₁, g₁, m₂, g₂, h₁, -, rfl, -⟩ := mem_seq.1 hmem
    rw [(mem_literal.1 h₁).2.1]
    exact List.mem_append_left _ List.mem_cons_self
  · obtain ⟨z, r, rfl, hz⟩ := List.eq_append_cons_of_mem h
    intro hnil
    have hhead := comment_head hz (x.getLast?.or none) r
    simp only [List.cons_append, List.nil_append] at hhead
    rw [hnil] at hhead
    cases hhead

/-- Where `Preprocessor` finds something, the text misses a character that ends no line. -/
lemma count_preprocessor_lt {code : List Char} (h : ¬ Untouched code) :
    ∃ c, c ≠ '\n' ∧ (preprocessor code).count c < code.count c := by
  by_cases hcounter : HasWord isWord counter32Tag code
  · exact ⟨'c', by decide, (count_preprocessor_le code).trans_lt
      (count_wholeWord_lt counter32_word (by decide) (by decide) hcounter)⟩
  rw [Parser.preprocessor_eq hcounter]
  by_cases hcomment : ∀ x y, code = x ++ '/' :: '/' :: y → '\n' ∉ y
  · have hguid : HasWord isWord guidArgTag code := by
      by_contra hguid
      exact h ⟨hcounter, hcomment, hguid⟩
    rw [replaceAll_comment hcomment]
    exact ⟨'G', by decide, count_wholeWord_lt guidArg_word (by decide) List.not_mem_nil hguid⟩
  · push Not at hcomment
    obtain ⟨x, y, rfl, hnewline⟩ := hcomment
    exact ⟨'/', by decide, (count_replaceFrom_le List.not_mem_nil none 0 _).trans_lt
      (count_comment_lt hnewline)⟩

end Parser

/-! ## Texts in their order -/

/-- The texts are in `code`, one behind the other. -/
def InTurn {α : Type*} : List (List α) → List α → Prop
  | [], _ => True
  | text :: texts, code => ∃ front rest, code = front ++ text ++ rest ∧ InTurn texts rest

lemma inTurn_flatMap {α : Type*} (c : α) (texts : List (List α)) :
    InTurn texts (texts.flatMap fun text => c :: text) := by
  induction texts with
  | nil => trivial
  | cons text texts ih => exact ⟨[c], _, rfl, ih⟩

lemma InTurn.count_le {α : Type*} [DecidableEq α] {texts : List (List α)} {code : List α}
    (h : InTurn texts code) {c d : α} (hne : c ≠ d) :
    (texts.flatMap fun text => d :: text).count c ≤ code.count c := by
  induction texts generalizing code with
  | nil => exact Nat.zero_le _
  | cons text texts ih =>
      obtain ⟨front, rest, rfl, hrest⟩ := h
      have hle := ih hrest
      rw [List.flatMap_cons, List.count_append, List.count_cons_of_ne hne.symm, List.count_append,
        List.count_append]
      omega

/-- The copy has the texts exactly when there was nothing to take out. -/
lemma inTurn_preprocessor_iff (texts : List (List Char)) :
    InTurn texts (Parser.preprocessor (texts.flatMap fun text => '\n' :: text)) ↔
      Parser.Untouched (texts.flatMap fun text => '\n' :: text) := by
  constructor
  · intro h
    by_contra htouched
    obtain ⟨c, hc, hlt⟩ := Parser.count_preprocessor_lt htouched
    have hle := h.count_le hc
    omega
  · intro h
    rw [h.preprocessor_eq]
    exact inTurn_flatMap '\n' texts

/-! ## Strings in their objects -/

lemma bytesOf_getD (l : List UInt8) {n : ℕ} (h : n ≤ l.length) :
    bytesOf (fun i => l.getD i 0) n = l.take n := by
  refine List.ext_getElem (by simp [h]) fun i hi hi' => ?_
  have hlt : i < l.length := by
    rw [List.length_take] at hi'
    omega
  simp [bytesOf, hlt]

/-- A C string is the beginning of the buffer it is in. -/
lemma cString_take {buf s : List UInt8} (h : cString buf = some s) :
    s.length ≤ buf.length ∧ buf.take s.length = s := by
  unfold cString at h
  split at h
  · cases h
    have hfront := List.takeWhile_prefix (l := buf) fun b : UInt8 => decide (b ≠ 0)
    exact ⟨hfront.length_le, (List.prefix_iff_eq_take.1 hfront).symm⟩
  · cases h

lemma SourceArg.take_text (x : SourceArg) :
    x.text.length ≤ x.object.length ∧ x.object.take x.text.length = x.text := by
  have htext := x.isText
  split at htext
  · exact cString_take htext
  · unfold bytesAt at htext
    split at htext
    · rename_i hle
      have hlength : x.text.length = x.length := by
        rw [← Option.some.inj htext, List.length_take, List.drop_zero]
        omega
      rw [hlength]
      exact ⟨by omega, Option.some.inj htext⟩
    · cases htext

/-- Read with its own length the string is what it is. -/
lemma SourceArg.bytesOf_text (x : SourceArg) :
    bytesOf (fun i => x.object.getD i 0) x.text.length = x.text := by
  rw [bytesOf_getD _ x.take_text.1, x.take_text.2]

/-- A length that is given is that of the string. -/
lemma SourceArg.length_text (x : SourceArg) (h : x.length ≠ 0) : x.text.length = x.length := by
  have htext := x.isText
  rw [if_neg h] at htext
  unfold bytesAt at htext
  split at htext
  · rw [← Option.some.inj htext, List.length_take, List.drop_zero]
    omega
  · cases htext

/-! ## What the client makes of the arguments -/

namespace SourceArgs

variable {a : SourceArgs} {s : Sources}

/-- Nothing is read past the end of an object. -/
lemma sources_eq_some (h : a.sources = some s) : ∃ strlen, a.strlen = some strlen ∧
    s = a.sourcesWith strlen ∧ ∀ x ∈ a.entries, s.sendLength x.length ≤ x.object.length := by
  obtain ⟨strlen, hstrlen, h⟩ := Option.bind_eq_some_iff.1 h
  split at h
  · rename_i hle
    cases h
    exact ⟨strlen, hstrlen, rfl, hle⟩
  · cases h

/-- Every string whose length is not given is as long as the first one. -/
def SameStrlen (a : SourceArgs) : Prop :=
  ∀ x ∈ a.entries, x.length = 0 → a.strlenFirst = some x.text.length

/-- Then each is sent with its length. -/
lemma exists_sources (h : a.SameStrlen) :
    ∃ strlen, a.sources = some (a.sourcesWith strlen) ∧
      ∀ x ∈ a.entries, (a.sourcesWith strlen).sendLength x.length = x.text.length := by
  obtain ⟨strlen, hstrlen, hmissing⟩ : ∃ strlen, a.strlen = some strlen ∧
      ∀ x ∈ a.entries, x.length = 0 → x.text.length = strlen := by
    by_cases hgiven : ∀ x ∈ a.entries, x.length ≠ 0
    · exact ⟨0, if_pos hgiven, fun x hx hzero => absurd hzero (hgiven x hx)⟩
    · rw [strlen, if_neg hgiven]
      push Not at hgiven
      obtain ⟨x, hx, hzero⟩ := hgiven
      exact ⟨_, h x hx hzero, fun y hy hy' =>
        Option.some.inj ((h y hy hy').symm.trans (h x hx hzero))⟩
  have hsend : ∀ x ∈ a.entries, (a.sourcesWith strlen).sendLength x.length = x.text.length := by
    intro x hx
    rw [Sources.sendLength]
    split
    · rename_i hzero
      exact (hmissing x hx hzero).symm
    · rename_i hgiven
      exact (x.length_text hgiven).symm
  have hle : ∀ x ∈ a.entries, (a.sourcesWith strlen).sendLength x.length ≤ x.object.length := by
    intro x hx
    rw [hsend x hx]
    exact x.take_text.1
  refine ⟨strlen, ?_, hsend⟩
  rw [sources, hstrlen]
  exact if_pos hle

/-- The strings as they are meant. -/
def texts (a : SourceArgs) : List (List UInt8) := a.entries.map SourceArg.text

lemma map_texts {α : Type*} (f : List UInt8 → α) :
    a.texts.map f = a.entries.map fun x => f x.text := by
  rw [texts, List.map_map]
  rfl

/-- The node gets the strings with their lengths, and the copy that the client parses has them. -/
def Arrive (a : SourceArgs) (id : ℕ) (stack : Stack) : Prop :=
  ∃ s sent, a.sources = some s ∧
    (⟨.createProgramWithSource id s, stack⟩ : Invocation).sent = some sent ∧
    sent.exited = false ∧
    Yields nextRequest sent.bytes
      (.ok (.createProgramWithSource (a.texts.map List.length) a.texts)) ∧
    InTurn (a.texts.map toChars) s.code

/-- The texts as characters, each on a line of its own. -/
def lines (a : SourceArgs) : List Char :=
  (a.texts.map toChars).flatMap fun text => '\n' :: text

section Sent

variable {strlen : ℕ}

lemma map_strings {α : Type*} (f : (ℕ → UInt8) × ℕ → α) :
    (a.sourcesWith strlen).strings.map f =
      a.entries.map fun x => f (fun i => x.object.getD i 0, x.length) := by
  rw [sourcesWith, List.map_map]
  rfl

lemma appended_eq (s : Sources) : s.appended =
    (s.strings.map fun x => bytesOf x.1 (s.sendLength x.2)).flatMap fun text => 10 :: text := by
  rw [Sources.appended, List.flatMap_map]

variable (hsend : ∀ x ∈ a.entries, (a.sourcesWith strlen).sendLength x.length = x.text.length)
include hsend

/-- With lengths that are right it is the strings that are sent. -/
lemma map_bytesOf : ((a.sourcesWith strlen).strings.map fun x =>
    bytesOf x.1 ((a.sourcesWith strlen).sendLength x.2)) = a.texts := by
  rw [map_strings, texts]
  refine List.map_congr_left fun x hx => ?_
  rw [hsend x hx, x.bytesOf_text]

/-- Then the copy is made of them. -/
lemma code_eq : (a.sourcesWith strlen).code = Parser.preprocessor a.lines := by
  rw [Sources.code, appended_eq, map_bytesOf hsend, toChars, List.map_flatMap, lines,
    List.flatMap_map]
  rfl

/-- Then nothing is sent in a buffer of no bytes. -/
lemma exited_eq_false (hlt : ∀ x ∈ a.entries, x.text.length < 2 ^ 32) {id : ℕ} {stack : Stack}
    {sent : Sent} (hsent : (⟨.createProgramWithSource id (a.sourcesWith strlen), stack⟩ :
      Invocation).sent = some sent) : sent.exited = false := by
  obtain ⟨tail, hsends, hmsg⟩ := Invocation.sends_fields
    ⟨.createProgramWithSource id (a.sourcesWith strlen), stack⟩ zeroed .createProgramWithSource
    [leBytes 4 (a.sourcesWith strlen).strings.length, leBytes 4 id]
    (((a.sourcesWith strlen).strings.map fun s => leBytes 8 ((a.sourcesWith strlen).sendLength s.2))
      ++ (a.sourcesWith strlen).strings.map fun s =>
        bytesOf s.1 ((a.sourcesWith strlen).sendLength s.2))
    (by simp [kMsgMaxSize]) (fun msg hmsg => by simp [Call.sends, hmsg])
  rw [Invocation.sent, hsends, Option.map_some, map_bytesOf hsend] at hsent
  rw [← Option.some.inj hsent, transmit_small]
  intro data hdata
  rcases List.mem_cons.1 hdata with rfl | hdata
  · rw [hmsg]
    decide
  rcases List.mem_append.1 hdata with hdata | hdata
  · obtain ⟨s, -, rfl⟩ := List.mem_map.1 hdata
    rw [length_leBytes]
    omega
  · obtain ⟨x, hx, rfl⟩ := List.mem_map.1 hdata
    exact ⟨List.length_pos_of_ne_nil x.ne_nil, hlt x hx⟩

/-- With lengths that are right the strings are, on the node and, if nothing is taken out, in the
copy. -/
lemma arrive_of_sendLength {id : ℕ} {stack : Stack} (hs : a.sources = some (a.sourcesWith strlen))
    (hcount : a.entries.length < 2 ^ 31) (hlt : ∀ x ∈ a.entries, x.text.length < 2 ^ 32)
    (huntouched : Parser.Untouched a.lines) : a.Arrive id stack := by
  obtain ⟨sent, r, hsent, hdecodes, hyields⟩ := createProgramWithSource_read stack id
    (a.sourcesWith strlen) (by rw [sourcesWith, List.length_map]; exact hcount)
  have hexited := exited_eq_false hsend hlt hsent
  cases hdecodes
  have hlengths : ((a.sourcesWith strlen).strings.map fun x =>
      (a.sourcesWith strlen).sendLength x.2 % 2 ^ 64) = a.texts.map List.length := by
    rw [map_strings, map_texts]
    refine List.map_congr_left fun x hx => ?_
    have hlt := hlt x hx
    rw [hsend x hx, Nat.mod_eq_of_lt (by omega)]
  have hstrs : ((a.sourcesWith strlen).strings.map fun x =>
      bytesOf x.1 ((a.sourcesWith strlen).sendLength x.2 % 2 ^ 32)) = a.texts := by
    rw [map_strings, texts]
    refine List.map_congr_left fun x hx => ?_
    rw [hsend x hx, Nat.mod_eq_of_lt (hlt x hx), x.bytesOf_text]
  rw [hlengths, hstrs, hexited] at hyields
  refine ⟨_, sent, hs, hsent, hexited, hyields, ?_⟩
  rw [code_eq hsend]
  exact (inTurn_preprocessor_iff _).2 huntouched

end Sent

/-- What arrives was sent with its length. -/
lemma sendLength_of_arrive {id : ℕ} {stack : Stack} (h : a.Arrive id stack) :
    a.entries.length < 2 ^ 31 ∧ ∃ strlen, a.strlen = some strlen ∧
      InTurn (a.texts.map toChars) (a.sourcesWith strlen).code ∧ ∀ x ∈ a.entries,
        (a.sourcesWith strlen).sendLength x.length = x.text.length ∧ x.text.length < 2 ^ 32 := by
  obtain ⟨s, sent, hs, hsent, hexited, hyields, hcode⟩ := h
  obtain ⟨strlen, hstrlen, rfl, hle⟩ := sources_eq_some hs
  have hstep : (⟨.createProgramWithSource id (a.sourcesWith strlen), stack⟩ :
      Invocation).InStep [] := by
    refine ⟨sent, hsent, ?_⟩
    rw [if_neg (by rw [hexited]; exact Bool.false_ne_true)]
    exact ⟨_, rfl, hyields []⟩
  have hframed := createProgramWithSource_framed hstep
  obtain ⟨sent', r, hsent', hdecodes, hyields'⟩ := createProgramWithSource_read stack id
    (a.sourcesWith strlen) hframed
  cases hsent.symm.trans hsent'
  cases hdecodes
  rw [hexited] at hyields'
  have hrequest := Except.ok.inj (Prod.mk.inj ((hyields' []).symm.trans (hyields []))).1
  obtain ⟨hlengths, hstrs⟩ := Request.createProgramWithSource.inj hrequest
  rw [map_strings, map_texts] at hlengths
  rw [map_strings, texts] at hstrs
  refine ⟨?_, strlen, hstrlen, hcode, fun x hx => ?_⟩
  · change (a.sourcesWith strlen).strings.length < 2 ^ 31 at hframed
    rwa [sourcesWith, List.length_map] at hframed
  · have hlength := List.map_inj_left.1 hlengths x hx
    have hstr := congrArg List.length (List.map_inj_left.1 hstrs x hx)
    have hobject := x.object_lt
    have hle := hle x hx
    rw [length_bytesOf] at hstr
    change (a.sourcesWith strlen).sendLength x.length % 2 ^ 64 = x.text.length at hlength
    rw [Nat.mod_eq_of_lt (by omega)] at hlength
    refine ⟨hlength, ?_⟩
    rw [← hstr]
    exact Nat.mod_lt _ (by decide)

/-- The strings arrive exactly when all of those whose length is not given are as long as
`strlen(strings[0])`, their number and lengths fit the numbers they are sent with, and there is
nothing in them for `Preprocessor`. -/
theorem arrive_iff (a : SourceArgs) (id : ℕ) (stack : Stack) :
    a.Arrive id stack ↔ a.entries.length < 2 ^ 31 ∧ (∀ x ∈ a.entries, x.text.length < 2 ^ 32) ∧
      a.SameStrlen ∧ Parser.Untouched a.lines := by
  constructor
  · intro h
    obtain ⟨hcount, strlen, hstrlen, hcode, hsend⟩ := sendLength_of_arrive h
    rw [code_eq fun x hx => (hsend x hx).1] at hcode
    refine ⟨hcount, fun x hx => (hsend x hx).2, fun x hx hzero => ?_,
      (inTurn_preprocessor_iff _).1 hcode⟩
    have hfirst : a.strlen = a.strlenFirst := if_neg fun hgiven => hgiven x hx hzero
    have hlength := (hsend x hx).1
    rw [Sources.sendLength, if_pos hzero] at hlength
    rw [← hfirst, hstrlen, ← hlength]
    rfl
  · rintro ⟨hcount, hlt, hsame, huntouched⟩
    obtain ⟨strlen, hs, hsend⟩ := exists_sources hsame
    exact arrive_of_sendLength hsend hs hcount hlt huntouched

/-- The second of `"a"` and `"bc"` is cut to `"b"`. -/
theorem second_string_cut : ∃ a : SourceArgs, a.texts = [[97], [98, 99]] ∧
    (∀ x ∈ a.entries, x.length = 0) ∧ ∀ id stack, ¬ a.Arrive id stack := by
  refine ⟨⟨[⟨[97, 0], by decide, 0, [97], rfl, by decide⟩,
    ⟨[98, 99, 0], by decide, 0, [98, 99], rfl, by decide⟩], by decide, by decide⟩, rfl, by decide,
    fun id stack h => ?_⟩
  obtain ⟨-, strlen, -, -, hsend⟩ := sendLength_of_arrive h
  have hfirst : strlen = 1 := (hsend _ List.mem_cons_self).1
  have hsecond : strlen = 2 := (hsend _ (List.mem_cons_of_mem _ List.mem_cons_self)).1
  omega

end SourceArgs

end ElasticFramework
