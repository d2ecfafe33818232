import ElasticFramework.Framework.Loop
import Mathlib.Data.UInt

/-!
# The platforms a node works with

`InitOpenCLContext` (`cn/cn.cc`) asks for all platforms and erases from the vector those that are
called `NEWSCL`, which is what the library of the clients calls itself: a node on the machine of a
client finds it among the others.  The vector is walked while it is erased from, and the index is
stepped back behind an erased entry, below zero when it was the first.

What `clGetPlatformInfo` leaves in `platform_name` is a function of the platform.
-/

namespace ElasticFramework

/-- `"NEWSCL"`. -/
def newsclName : List UInt8 := [78, 69, 87, 83, 67, 76]

/-- The number of platforms, and the vector that is resized to it and filled. -/
structure PlatformIDs (α : Type*) where
  numOfPlatforms : UInt32
  platforms : List α
  length_platforms : platforms.length = numOfPlatforms.toNat

/-- What the loop keeps. -/
structure PlatformLoop (α : Type*) where
  i : UInt32
  numOfPlatforms : UInt32
  platforms : List α
  deriving DecidableEq

namespace PlatformLoop

variable {α : Type*} (name : α → List UInt8)

def init (p : PlatformIDs α) : PlatformLoop α where
  i := 0
  numOfPlatforms := p.numOfPlatforms
  platforms := p.platforms

/-- A round: the condition, the body, in which `platforms` may be accessed out of bounds, and
`++i`. -/
def round (s : PlatformLoop α) : Round (PlatformLoop α) (Option (PlatformLoop α)) :=
  if s.i < s.numOfPlatforms then
    match s.platforms[s.i.toNat]? with
    | some platform =>
      if name platform = newsclName then
        .again
          { i := s.i - 1 + 1
            numOfPlatforms := s.numOfPlatforms - 1
            platforms := s.platforms.eraseIdx s.i.toNat }
      else .again { s with i := s.i + 1 }
    | none => .quit none
  else .quit (some s)

/-- Of a first part of the vector the other platforms are left, and the index is behind them. -/
structure Filtered (ids : List α) (s : PlatformLoop α) : Prop where
  split : ∃ seen rest, ids = seen ++ rest ∧
    s.platforms = seen.filter (fun p => name p ≠ newsclName) ++ rest ∧
    s.i.toNat = (seen.filter fun p => name p ≠ newsclName).length
  length_platforms : s.platforms.length = s.numOfPlatforms.toNat

end PlatformLoop

end ElasticFramework
