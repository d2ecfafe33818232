import ElasticFramework.Framework.Arith
import ElasticFramework.Framework.Selection

/-!
# The dispatcher's registry

The two singletons of the dispatcher, `CNList` (`dispatcher/cn.h`, `cn.cc`) and
`VMAFS_N_Dispatcher`, in one record, and `Scoring::chooseBestCN`.  `CNs_` is an `unordered_map`; it
is kept here as the list its iterators go through, in an order that is not the code's to
choose.  `AddCN` numbers the nodes in a static variable, which does not overflow.

`double` is an arbitrary `Arith K`.  The ports, which are the same for all nodes, and the address a
client is sent are left out.
-/

namespace ElasticFramework

variable {K : Type*}

/-- `class CNInfo`. -/
structure CNInfo (K : Type*) where
  weight : K
  usedTime : K
  capacity : K

/-- `CNList` and `VMAFS_N_Dispatcher`. -/
structure Registry (K : Type*) where
  /-- `CNs_`, in the order of iteration. -/
  CNs : List (ℤ × CNInfo K)
  /-- `static int cn_id`. -/
  cnId : ℤ
  basedInnerProduct : K
  vLengSquare : K
  iLengSquare : K

namespace Registry

/-- The keys of `CNs_`. -/
def ids (r : Registry K) : List ℤ := r.CNs.map Prod.fst

/-- `CNs_.find`; at the end of the map `GetCN` fails an assertion. -/
def getCN (r : Registry K) (key : ℤ) : Option (CNInfo K) :=
  (r.CNs.find? fun x => x.1 == key).map Prod.snd

/-- `CNList::DelCN`. -/
def delCN (r : Registry K) (cnId : ℤ) : Registry K :=
  { r with CNs := r.CNs.filter fun x => x.1 != cnId }

/-- A change of the node under a key. -/
def modify (r : Registry K) (key : ℤ) (f : CNInfo K → CNInfo K) : Registry K :=
  { r with CNs := r.CNs.map fun x => if x.1 = key then (x.1, f x.2) else x }

/-- `CNList::UpdateCNWeight`: the code that is returned, and the registry. -/
def updateCNWeight (r : Registry K) (key : ℤ) (weight : K) : ℤ × Registry K :=
  match r.getCN key with
  | none => (-1, r)
  | some _ => (0, r.modify key fun cn => { cn with weight := weight })

/-- `CNList::UpdateCNUsedTime`. -/
def updateCNUsedTime (r : Registry K) (key : ℤ) (usedTime : K) : ℤ × Registry K :=
  match r.getCN key with
  | none => (-1, r)
  | some _ => (0, r.modify key fun cn => { cn with usedTime := usedTime })

/-- The map is iterated from another entry first. -/
def reorder (r : Registry K) (i : ℕ) : Registry K :=
  { r with CNs := (r.CNs[i]?).toList ++ r.CNs.eraseIdx i }

/-- `Scoring::chooseBestCN`: the cells of its array, of which those not written hold `junk`. -/
def chooseBestCN (r : Registry K) (junk : ℕ → ℤ) (i : ℕ) : ℤ := (r.ids[i]?).getD (junk i)

variable [Arith K]

def init : Registry K where
  CNs := []
  cnId := -1
  basedInnerProduct := 0
  vLengSquare := 0
  iLengSquare := 0

/-- `CNList::AddCN`, with the default weight and used time. -/
def addCN (r : Registry K) (capacity : K) : ℤ × Registry K :=
  (r.cnId + 1, { r with
    CNs := r.CNs ++ [(r.cnId + 1, { weight := 0, usedTime := 0, capacity := capacity })]
    cnId := r.cnId + 1
    iLengSquare := r.iLengSquare + capacity * capacity })

/-- `cos_value` in `Dispatch`. -/
def cosValue (r : Registry K) (appWeight : K) (cn : CNInfo K) : K :=
  let innerProduct := r.basedInnerProduct + appWeight * cn.weight
  let vLengSquare := r.vLengSquare + (1 + 1) * cn.weight * appWeight + appWeight * appWeight
  innerProduct / (Arith.sqrt r.iLengSquare * Arith.sqrt vLengSquare)

/-- `VMAFS_N_Dispatcher::Dispatch`: the first node with the largest `cos_value` above `-1`, or
`-1`. -/
def dispatch (r : Registry K) (appWeight : K) : ℤ :=
  ((bestFrom (fun _ => true) (fun x => r.cosValue appWeight x.2) (-1, none) r.CNs).2.map
    Prod.fst).getD (-1)

end Registry

end ElasticFramework
