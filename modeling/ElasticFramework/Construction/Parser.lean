import ElasticFramework.Construction.KernelArgs
import ElasticFramework.Framework.Regex

/-!
# The source text of a kernel

`Preprocessor`, `IsPointer` and `FindFuncArgList` (`client/parser.cc`), and `CreateKernel`, which
classifies the parameters of a kernel with them (`client/newscl.cc`, `client/elastic.cc`).

Texts are lists of characters.  What the loop of `Preprocessor` collects of the `#define` lines is
not used.  The name of a kernel goes into an expression as it is; as it is made of characters of a
word, it matches itself.
-/

namespace ElasticFramework

namespace Parser

/-- The characters that end a line for `$`. -/
def isSeparator (c : Char) : Bool := c = '\n' || c = Char.ofNat 12 || c = '\r'

open Regex

/-! ## `Preprocessor` -/

/-- `counter32_t`. -/
def counter32Tag : List Char := ['c', 'o', 'u', 'n', 't', 'e', 'r', '3', '2', '_', 't']

/-- `GUID_ARG`. -/
def guidArgTag : List Char := ['G', 'U', 'I', 'D', '_', 'A', 'R', 'G']

/-- `\b(counter32_t)\b`. -/
def counter32 : Regex Char := wholeWord isWord counter32Tag

/-- `//[^\n]*\n`. -/
def comment : Regex Char :=
  seq (literal ['/', '/']) (seq (many fun c => decide (c ≠ '\n')) (one fun c => decide (c = '\n')))

/-- `\b(GUID_ARG)\b`. -/
def guidArg : Regex Char := wholeWord isWord guidArgTag

/-- `Preprocessor`. -/
def preprocessor (code : List Char) : List Char :=
  let code := replaceAll counter32 ['*'] code
  let code := replaceAll comment [] code
  replaceAll guidArg [] code

/-! ## `IsPointer` -/

/-- `(const|restrict|volatile)`. -/
def typeQualifier : Regex Char :=
  group (alt (literal ['c', 'o', 'n', 's', 't'])
    (alt (literal ['r', 'e', 's', 't', 'r', 'i', 'c', 't'])
      (literal ['v', 'o', 'l', 'a', 't', 'i', 'l', 'e'])))

/-- `\[`. -/
def arraySymbol : Regex Char := one fun c => decide (c = '[')

/-- `[*]\s*\w*\s*$`. -/
def pointerSymbol : Regex Char :=
  seq (one fun c => decide (c = '*'))
    (seq (many isSpace) (seq (many isWord) (seq (many isSpace) (endLine isSeparator))))

/-- `IsPointer`. -/
def isPointer (targ : List Char) : Bool :=
  let arg := replaceAll typeQualifier [] targ
  (arraySymbol.search none arg).isSome || (pointerSymbol.search none arg).isSome

/-! ## `FindFuncArgList` -/

/-- `c_str`, as far as functions on C strings read it. -/
def cStr (code : List Char) : List Char := code.takeWhile fun c => c.toNat ≠ 0

/-- The pieces that `strtok` finds between commas. -/
def strtok (s : List Char) : List (List Char) := (s.splitOn ',').filter fun s => s ≠ []

/-- A word; the name of a kernel is one. -/
structure Word where
  chars : List Char
  ne_nil : chars ≠ []
  word : ∀ c ∈ chars, isWord c = true

/-- A word written out. -/
def Word.ofChars (chars : List Char) (h : chars ≠ [] ∧ chars.all isWord = true) : Word where
  chars := chars
  ne_nil := h.1
  word := List.all_eq_true.1 h.2

/-- `\bname\b\s*\(([^)]*)\)\s*\{`. -/
def definition (name : Word) : Regex Char :=
  seq (boundary isWord) (seq (literal name.chars) (seq (boundary isWord)
    (seq (many isSpace) (seq (one fun c => decide (c = '('))
      (seq (group (many fun c => decide (c ≠ ')'))) (seq (one fun c => decide (c = ')'))
        (seq (many isSpace) (one fun c => decide (c = '{')))))))))

/-- `\s+`. -/
def spaces : Regex Char := seq (one isSpace) (many isSpace)

/-- A piece of the list, with a blank for every stretch of whitespace. -/
def entry (pch : List Char) : List Char := replaceAll spaces [' '] pch

/-- `FindFuncArgList`, which asserts that there is one group. -/
def findFuncArgList (code : List Char) (name : Word) : List (List Char) :=
  match (definition name).search none (cStr code) with
  | some (_, _, [list]) => (strtok (list ++ [','])).map entry
  | _ => []

/-- The kernel as `CreateKernel` leaves it. -/
def createKernel (code : List Char) (name : Word) : ClKernel :=
  .new ((findFuncArgList code name).map isPointer)

end Parser

end ElasticFramework
