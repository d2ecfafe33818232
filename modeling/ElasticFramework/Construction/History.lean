import ElasticFramework.Construction.RecvLoop

/-!
# The transfer of the history file

`updateScore` (`cn/cn.cc`) reads the file in blocks of `kMsgMaxSize` bytes and sends each of them
with what `bzero` has left behind it, until `feof` holds, and then three bytes `END`.
`HandlerUpdateScore` (`dispatcher/handler.cc`) writes what a call of `recv` returns to its copy of
the file, unless it starts with the three bytes.

`Run` has taken the message in front of the file off the socket; what the node is answered is left
out.  The array `end` is followed by a zero.
-/

namespace ElasticFramework

/-- `"END"`. -/
def endMarker : List UInt8 := [69, 78, 68]

namespace History

/-! ## The node -/

/-- The buffer that `len` bytes have been written to after `bzero`. -/
def cleared (l : List UInt8) : List UInt8 := l ++ List.replicate (kMsgMaxSize - l.length) 0

/-- What the loop of `updateScore` sends: `feof` holds when `fread` has read less than it was asked
for. -/
def blocks (file : List UInt8) : List (List UInt8) :=
  if file.length < kMsgMaxSize then [cleared file]
  else cleared (file.take kMsgMaxSize) :: blocks (file.drop kMsgMaxSize)
termination_by file.length
decreasing_by
  simp only [kMsgMaxSize, List.length_drop] at *
  omega

/-- What `updateScore` sends. -/
def updateScore (file : List UInt8) : List (List UInt8) := blocks file ++ [endMarker]

/-! ## The dispatcher -/

/-- `strncpy`, the `n` bytes it writes. -/
def strncpy (src : List UInt8) (n : ℕ) : List UInt8 :=
  let text := (src.take n).takeWhile (· ≠ 0)
  text ++ List.replicate (n - text.length) 0

/-- `strcmp(end, "END") == 0` for the `end` of a buffer. -/
def isEnd (buf : List UInt8) : Bool := cString (strncpy buf 3 ++ [0]) = some endMarker

/-- What the handler has done when it is over, or waits for more. -/
structure Handled where
  /-- What was given to `fwrite`. -/
  copy : List UInt8
  /-- `END` was recognised. -/
  ended : Bool
  /-- The results that `recv` was not asked for. -/
  unread : List RecvResult
  deriving DecidableEq

/-- The loop of `HandlerUpdateScore` on what `recv` returns. -/
def handlerUpdateScore : List RecvResult → Handled
  | [] => { copy := [], ended := false, unread := [] }
  | r :: rs =>
    if 0 < r.size then
      if isEnd (cleared r.bytes) then { copy := [], ended := true, unread := rs }
      else
        let rest := handlerUpdateScore rs
        { rest with copy := r.bytes ++ rest.copy }
    else { copy := [], ended := false, unread := rs }

/-- A way for the bytes to arrive: no result is empty, or larger than the buffer. -/
structure Segmentation (bytes : List UInt8) where
  chunks : List (List UInt8)
  flatten_eq : chunks.flatten = bytes
  ne_nil : ∀ c ∈ chunks, c ≠ []
  length_le : ∀ c ∈ chunks, c.length ≤ kMsgMaxSize

/-- The results of `recv`. -/
def Segmentation.results {bytes : List UInt8} (s : Segmentation bytes) : List RecvResult :=
  s.chunks.map .data

end History

end ElasticFramework
