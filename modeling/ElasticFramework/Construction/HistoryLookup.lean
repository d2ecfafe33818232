import ElasticFramework.Construction.Parser
import ElasticFramework.Framework.Loop
import ElasticFramework.Framework.Rounding

/-!
# Looking up the history

`HistoryFileIO` (`dispatcher/HistoryFileIO.cpp`) has four functions that look for a number in a file
and return another one of its line: `getExeTime`, `getExeStdev`, `getNetworkTime` and
`getNetworkStdev`.  They are one function; the first two open one file and the others another, and
behind the token that was looked for, `strtok` is called once for the time and twice for the
deviation.

The nested loops are one loop here, which is either at the `while` over the lines or at the one over
the tokens; `strtok` keeps what is behind the token it has returned.  The loop ends with the value
that is returned, or with none: when a line does not fit into `buffer`, when `atoi` is given a
number that is no `int`, or when `atof` is given `NULL`.

A file that cannot be opened has no text.  The numbers of the type `float` are those of any type;
what is needed of it is where an `int` and a text go.
-/

namespace ElasticFramework

/-- The conversions to `float`: from `int`, and what is returned of `atof`. -/
structure Floats (F : Type*) where
  ofInt : ℤ → F
  atof : List Char → F

/-- `getline`: the line, without the end of it, and what is left; `none` at the end of the file. -/
def getline (file : List Char) : Option (List Char × List Char) :=
  if file = [] then none
  else some (file.takeWhile (· ≠ '\n'), (file.dropWhile (· ≠ '\n')).drop 1)

/-- `strtok` with `" "`: the token, if there is one, and what is kept. -/
def strtok (s : List Char) : Option (List Char) × List Char :=
  let s := s.dropWhile (· = ' ')
  if s = [] then (none, [])
  else (some (s.takeWhile (· ≠ ' ')), (s.dropWhile (· ≠ ' ')).drop 1)

/-- The number at the front of a text, with its sign. -/
def signed : List Char → ℤ
  | '-' :: s => -Nat.ofDigitChars 10 (s.takeWhile Char.isDigit) 0
  | '+' :: s => Nat.ofDigitChars 10 (s.takeWhile Char.isDigit) 0
  | s => Nat.ofDigitChars 10 (s.takeWhile Char.isDigit) 0

/-- `atoi`, which is undefined for what is no `int`. -/
def atoi (s : List Char) : Option ℤ :=
  let n := signed (s.dropWhile isSpace)
  if -2 ^ 31 ≤ n ∧ n < 2 ^ 31 then some n else none

/-- The type `float`, of which only what is an integer occurs: an `int` is rounded to 24 bits, and
`atof` rounds to the 53 of a `double` before. -/
def Floats.binary32 : Floats ℤ where
  ofInt n := n.sign * roundTo 24 n.natAbs
  atof s :=
    let n := signed (s.dropWhile isSpace)
    n.sign * roundTo 24 (roundTo 53 n.natAbs)

/-- `sizeof(buffer)`. -/
def kBufferSize : ℕ := 30

/-- The columns behind the one that is looked for. -/
inductive HistoryColumn
  | time
  | stdev
  deriving DecidableEq, Repr

/-- The token that is returned, of what is kept behind the one that was found: the first, or the
second. -/
def HistoryColumn.token (save : List Char) : HistoryColumn → Option (List Char)
  | .time => (strtok save).1
  | .stdev => (strtok (strtok save).2).1

/-- Where the loops are. -/
inductive LookupState
  /-- At `while(getline(file, line))`. -/
  | lines (file : List Char)
  /-- At `while(token != NULL)`. -/
  | tokens (file : List Char) (token : Option (List Char)) (save : List Char)
  deriving DecidableEq

section Functions

variable {F : Type*} [Zero F] [DecidableEq F] (fl : Floats F)

/-- A round of one of the two loops. -/
def lookupRound (column : HistoryColumn) (argv : F) : LookupState → Round LookupState (Option F)
  | .lines file =>
    match getline file with
    | none => .quit (some 0)
    | some (line, file) =>
      let buffer := Parser.cStr line
      if buffer.length < kBufferSize then .again (.tokens file (strtok buffer).1 (strtok buffer).2)
      else .quit none
  | .tokens file none _ => .again (.lines file)
  | .tokens file (some token) save =>
    match atoi token with
    | none => .quit none
    | some n =>
      if fl.ofInt n = argv then .quit ((column.token save).map fl.atof)
      else .again (.tokens file (strtok save).1 (strtok save).2)

/-- A function of the four returns a value, or `none` where it is undefined. -/
def Looks (column : HistoryColumn) (file : Option (List Char)) (argv : F) (r : Option F) : Prop :=
  match file with
  | none => r = some 0
  | some text => Loop.Ends (lookupRound fl column argv) (.lines text) r

/-- `HistoryFileIO`: what is in the files with its two names. -/
structure HistoryFileIO where
  exeFile : Option (List Char)
  networkFile : Option (List Char)

namespace HistoryFileIO

variable (io : HistoryFileIO)

def getExeTime : F → Option F → Prop := Looks fl .time io.exeFile

def getExeStdev : F → Option F → Prop := Looks fl .stdev io.exeFile

def getNetworkTime : F → Option F → Prop := Looks fl .time io.networkFile

def getNetworkStdev : F → Option F → Prop := Looks fl .stdev io.networkFile

end HistoryFileIO

end Functions

/-! ## History files -/

/-- A number that is not negative, by its digits. -/
structure Numeral where
  digits : List Char
  ne_nil : digits ≠ []
  isDigit : digits.all Char.isDigit = true

/-- The number. -/
def Numeral.value (n : Numeral) : ℕ := Nat.ofDigitChars 10 n.digits 0

/-- A line of a history file: three numbers, with one blank or more between them. -/
structure HistoryLine where
  argument : Numeral
  time : Numeral
  stdev : Numeral
  gap : ℕ
  gap' : ℕ
  length_lt : argument.digits.length + time.digits.length + stdev.digits.length + gap + gap' + 2 <
    kBufferSize

namespace HistoryLine

/-- The characters of the line. -/
def text (e : HistoryLine) : List Char :=
  e.argument.digits ++ ' ' :: (List.replicate e.gap ' ' ++ (e.time.digits ++
    ' ' :: (List.replicate e.gap' ' ' ++ e.stdev.digits)))

def columns (e : HistoryLine) : List Numeral := [e.argument, e.time, e.stdev]

def get (e : HistoryLine) : HistoryColumn → Numeral
  | .time => e.time
  | .stdev => e.stdev

end HistoryLine

/-- A history file; behind the last line there may be no newline. -/
structure HistoryFile where
  lines : List HistoryLine
  terminated : Bool

/-- The characters of lines. -/
def textOf (terminated : Bool) : List HistoryLine → List Char
  | [] => []
  | [e] => if terminated then e.text ++ ['\n'] else e.text
  | e :: e' :: es => e.text ++ '\n' :: textOf terminated (e' :: es)

namespace HistoryFile

def text (f : HistoryFile) : List Char := textOf f.terminated f.lines

/-- What is asked for: the column of the first line with the key as its argument, or zero. -/
def wanted {F : Type*} [Zero F] (fl : Floats F) (column : HistoryColumn) (key : ℤ)
    (f : HistoryFile) : F :=
  match f.lines.find? fun e => (e.argument.value : ℤ) = key with
  | some e => fl.atof (e.get column).digits
  | none => 0

end HistoryFile

end ElasticFramework
