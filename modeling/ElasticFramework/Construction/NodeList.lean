import ElasticFramework.Construction.Registry
import ElasticFramework.Framework.Transition
import Mathlib.Data.List.AList

/-!
# The list of nodes

`CNList::AddCN`, in both overloads, `DelCN` and `GetCN` (`dispatcher/cn.cc`), with the member
`i_leng_square_` of `VMAFS_N_Dispatcher` that `AddCN` keeps.  `CNs_` is an association list in which
no key occurs twice.

Each overload has a static `cn_id` of its own, an `int`: counting past the largest one has no
result.  A node is what the accessors of `CNInfo` return; `devs_`, which no code reads, is left out.
-/

namespace ElasticFramework

variable {K : Type*}

def kCNPort : ℤ := 6789

def kCNNonBlockingPort : ℤ := 6790

/-- `class CNInfo`, with the ports and the address. -/
structure CNRecord (K : Type*) extends CNInfo K where
  port : ℤ
  nonBlockingIOPort : ℤ
  IP : List UInt8

/-- The node that `AddCN` makes of an address. -/
def CNRecord.ofAddress (IP : List UInt8) (capacity weight usedTime : K) : CNRecord K where
  weight := weight
  usedTime := usedTime
  capacity := capacity
  port := kCNPort
  nonBlockingIOPort := kCNNonBlockingPort
  IP := IP

/-- The overloads of `AddCN`: of a `CNInfo`, and of an address and what is known of the node. -/
inductive Overload
  | info
  | address
  deriving DecidableEq, Repr

/-- The one that is not this one. -/
def Overload.other : Overload → Overload
  | info => address
  | address => info

/-- `CNList`, the static variables of `AddCN` and `i_leng_square_`. -/
structure CNList (K : Type*) where
  CNs : AList fun _ : ℤ => CNRecord K
  cnId : Overload → ℤ
  iLengSquare : K

/-- The calls that change the list. -/
inductive CNList.Call (K : Type*)
  | addCNInfo (cn : CNRecord K)
  | addCN (IP : List UInt8) (capacity weight usedTime : K)
  | delCN (cnId : ℤ)

namespace CNList

/-- `CNs_.insert`, which leaves a key that is there as it is. -/
def insertNew (CNs : AList fun _ : ℤ => CNRecord K) (id : ℤ) (cn : CNRecord K) :
    AList fun _ : ℤ => CNRecord K :=
  if id ∈ CNs then CNs else CNs.insert id cn

/-- `CNList::GetCN`; at the end of the map it fails an assertion. -/
def getCN (s : CNList K) (key : ℤ) : Option (CNRecord K) := s.CNs.lookup key

/-- `CNList::DelCN`. -/
def delCN (s : CNList K) (cnId : ℤ) : CNList K := { s with CNs := s.CNs.erase cnId }

/-- The node that a call is to add, and by which overload. -/
def Call.adds : Call K → Option (Overload × CNRecord K)
  | .addCNInfo cn => some (.info, cn)
  | .addCN IP capacity weight usedTime =>
    some (.address, .ofAddress IP capacity weight usedTime)
  | .delCN _ => none

/-- What a call returns, with the node that goes with it. -/
def added (s : CNList K) (c : Call K) : Option (ℤ × CNRecord K) :=
  c.adds.map fun x => (s.cnId x.1 + 1, x.2)

/-- The ids a call returns. -/
def returned (s : CNList K) (c : Call K) : List ℤ := ((s.added c).map Prod.fst).toList

variable [Zero K] [Add K] [Mul K]

def init : CNList K where
  CNs := ∅
  cnId := fun _ => -1
  iLengSquare := 0

/-- The sum of the squared capacities. -/
def sumSquares (s : CNList K) : K :=
  (s.CNs.entries.map fun x => x.2.capacity * x.2.capacity).sum

/-- What the overloads of `AddCN` have in common: the id that is returned, and the list. -/
def add (s : CNList K) (o : Overload) (cn : CNRecord K) : Option (ℤ × CNList K) :=
  if s.cnId o < 2 ^ 31 - 1 then
    some (s.cnId o + 1,
      { CNs := insertNew s.CNs (s.cnId o + 1) cn
        cnId := Function.update s.cnId o (s.cnId o + 1)
        iLengSquare := s.iLengSquare + cn.capacity * cn.capacity })
  else none

/-- `CNList::AddCN(const CNInfo&)`. -/
def addCNInfo (s : CNList K) (cn : CNRecord K) : Option (ℤ × CNList K) := s.add .info cn

/-- `CNList::AddCN(const std::string, …)`. -/
def addCN (s : CNList K) (IP : List UInt8) (capacity weight usedTime : K) :
    Option (ℤ × CNList K) :=
  s.add .address (.ofAddress IP capacity weight usedTime)

/-- The calls, one after the other. -/
def machine : Machine (CNList K) (Call K) where
  step s
    | .addCNInfo cn => (s.addCNInfo cn).map Prod.snd
    | .addCN IP capacity weight usedTime => (s.addCN IP capacity weight usedTime).map Prod.snd
    | .delCN cnId => some (s.delCN cnId)

end CNList

end ElasticFramework
