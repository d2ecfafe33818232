import ElasticFramework.Construction.Parser
import ElasticFramework.Construction.Wire

/-!
# The arguments of `clCreateProgramWithSource`

`ElasticClient::CreateProgramWithSource` and `newscl::clCreateProgramWithSource` share the loops
that work out `send_lengths`, send the strings and append them to `code`, and both give `code` to
`Preprocessor`; what that leaves is the copy in which the parameters of a kernel are looked up.
`Sources` has what the loops make of the arguments; here are the arguments as the caller gives
them, and the `Sources` they come to.

An entry of `lengths` that is zero stands for a string that ends with a zero, and so does every
entry of a `lengths` that is null.  Reading past the end of the object that a string is in has no
result.
-/

namespace ElasticFramework

/-- An entry of `strings` and of `lengths`. -/
structure SourceArg where
  /-- From the first character to the end of the object the string is in. -/
  object : List UInt8
  object_lt : object.length < 2 ^ 64
  length : ℕ
  /-- The string. -/
  text : List UInt8
  isText : (if length = 0 then cString object else bytesAt object 0 length) = some text
  ne_nil : text ≠ []

/-- `count`, `strings` and `lengths`. -/
structure SourceArgs where
  entries : List SourceArg
  ne_nil : entries ≠ []
  count_lt : entries.length < 2 ^ 32

namespace SourceArgs

variable (a : SourceArgs)

/-- `strlen(strings[0])`. -/
def strlenFirst : Option ℕ := (cString (a.entries.head a.ne_nil).object).map List.length

/-- What `strlen(strings[0])` comes to where it is called at all. -/
def strlen : Option ℕ := if ∀ x ∈ a.entries, x.length ≠ 0 then some 0 else a.strlenFirst

/-- The strings and their entries of `lengths`, with what goes for an entry that is zero. -/
def sourcesWith (strlen : ℕ) : Sources where
  strings := a.entries.map fun x => (fun i => x.object.getD i 0, x.length)
  strlen := strlen
  count_lt := by
    rw [List.length_map]
    exact a.count_lt

/-- What is sent; `none` when the end of an object is passed. -/
def sources : Option Sources := do
  let strlen ← a.strlen
  if ∀ x ∈ a.entries, (a.sourcesWith strlen).sendLength x.length ≤ x.object.length then
    some (a.sourcesWith strlen)
  else none

end SourceArgs

/-- What the loop appends to `code`. -/
def Sources.appended (s : Sources) : List UInt8 :=
  s.strings.flatMap fun x => 10 :: bytesOf x.1 (s.sendLength x.2)

/-- The characters of a `std::string`. -/
def toChars (bytes : List UInt8) : List Char := bytes.map fun b => Char.ofNat b.toNat

/-- `p_program->code`. -/
def Sources.code (s : Sources) : List Char := Parser.preprocessor (toChars s.appended)

end ElasticFramework
