import ElasticFramework.Framework.Tally
import ElasticFramework.Properties.Nodes
import Mathlib.Tactic.Linarith
import Mathlib.Tactic.Positivity
import Mathlib.Tactic.Ring

/-!
# Where the dispatcher sends a client

`Dispatch` is meant to keep the vector of the nodes' weights in the direction of the vector of
their capacities: `Registry.idealCosine` is the cosine between the two when one node gets more
weight, and `Registry.Balances` says that a node makes it largest.  The code computes something
else.  Its `based_inner_product_` and `v_leng_square_` stay zero, as nothing updates them
(`Registry.Priced`), and where the capacity of the node belongs it multiplies by the node's
weight.  What is left of the cosine grows with the weight (`Registry.Priced.cosValue_lt`), so that
`Dispatch` takes the first node of the largest weight, `Registry.Priced.dispatch_eq`.

## Results

`dispatch_balances_iff`: in every state that can be reached, the answer is the right one if and
only if that node happens to be.  `heaviest_dispatched` is a state in which it is not.
-/

namespace ElasticFramework

/-- A node registers with a positive capacity and reports weights that are not negative. -/
def DispatcherMsg.Sound : DispatcherMsg ℝ → Prop
  | .cnReg capacity => 0 < capacity
  | .loadInfo _ weight _ => 0 ≤ weight
  | _ => True

namespace Registry

/-! ## What `Dispatch` is for -/

/-- The weight of a node when `id` gets `appWeight` more. -/
noncomputable def loaded (appWeight : ℝ) (id : ℤ) (x : ℤ × CNInfo ℝ) : ℝ :=
  x.2.weight + if x.1 = id then appWeight else 0

/-- The cosine between the capacities and the weights when `id` gets `appWeight` more. -/
noncomputable def idealCosine (r : Registry ℝ) (appWeight : ℝ) (id : ℤ) : ℝ :=
  (r.CNs.map fun x => x.2.capacity * loaded appWeight id x).sum /
    (√(r.CNs.map fun x => x.2.capacity ^ 2).sum *
      √(r.CNs.map fun x => loaded appWeight id x ^ 2).sum)

/-- The node is registered, no other gives a larger cosine, and no other of its capacity has less
weight. -/
def Balances (r : Registry ℝ) (appWeight : ℝ) (id : ℤ) : Prop :=
  ∃ cn, (id, cn) ∈ r.CNs ∧
    (∀ x ∈ r.CNs, r.idealCosine appWeight x.1 ≤ r.idealCosine appWeight id) ∧
    ∀ x ∈ r.CNs, x.2.capacity = cn.capacity → cn.weight ≤ x.2.weight

/-- The inner product of capacities and weights. -/
noncomputable def innerProduct (r : Registry ℝ) : ℝ :=
  (r.CNs.map fun x => x.2.capacity * x.2.weight).sum

/-- The square of the length of the weights. -/
noncomputable def weightSquare (r : Registry ℝ) : ℝ := (r.CNs.map fun x => x.2.weight ^ 2).sum

/-- The first node of the largest weight. -/
def FirstHeaviest (r : Registry ℝ) (n : ℤ × CNInfo ℝ) : Prop :=
  ∃ pre post, r.CNs = pre ++ n :: post ∧ (∀ x ∈ pre, x.2.weight < n.2.weight) ∧
    ∀ x ∈ post, x.2.weight ≤ n.2.weight

/-- There is a first node of the largest weight, and of all nodes it is the one with which the
weights come closest to the capacities. -/
def HeaviestIsBest (r : Registry ℝ) (appWeight : ℝ) : Prop :=
  ∃ n, r.FirstHeaviest n ∧ ∀ x ∈ r.CNs,
    (r.innerProduct + appWeight * x.2.capacity) ^ 2 *
        (r.weightSquare + (2 * n.2.weight * appWeight + appWeight ^ 2)) ≤
      (r.innerProduct + appWeight * n.2.capacity) ^ 2 *
        (r.weightSquare + (2 * x.2.weight * appWeight + appWeight ^ 2))

/-! ## The numbers of the registry -/

/-- Capacities are positive, weights not negative, and of the three aggregates only the last is ever
updated. -/
structure Priced (r : Registry ℝ) : Prop where
  numbered : r.Numbered
  inner : r.basedInnerProduct = 0
  weights : r.vLengSquare = 0
  capacity : ∀ x ∈ r.CNs, 0 < x.2.capacity
  weight : ∀ x ∈ r.CNs, 0 ≤ x.2.weight
  ideal_nonneg : 0 ≤ r.iLengSquare
  ideal : r.CNs ≠ [] → 0 < r.iLengSquare

namespace Priced

variable {r : Registry ℝ}

lemma init : Registry.init.Priced where
  numbered := Numbered.init
  inner := rfl
  weights := rfl
  capacity := by simp [Registry.init]
  weight := by simp [Registry.init]
  ideal_nonneg := le_rfl
  ideal := fun hne => absurd rfl hne

lemma addCN (h : r.Priced) {capacity : ℝ} (hcapacity : 0 < capacity) :
    (r.addCN capacity).2.Priced where
  numbered := h.numbered.addCN capacity
  inner := h.inner
  weights := h.weights
  capacity := by
    intro x hx
    rcases List.mem_append.1 hx with hx | hx
    · exact h.capacity x hx
    · rw [List.mem_singleton.1 hx]
      exact hcapacity
  weight := by
    intro x hx
    rcases List.mem_append.1 hx with hx | hx
    · exact h.weight x hx
    · rw [List.mem_singleton.1 hx]
  ideal_nonneg := add_nonneg h.ideal_nonneg (mul_self_nonneg capacity)
  ideal := fun _ => add_pos_of_nonneg_of_pos h.ideal_nonneg (mul_pos hcapacity hcapacity)

/-- Nodes are taken out, or are iterated in another order. -/
lemma of_subset {r' : Registry ℝ} (h : r.Priced) (hnumbered : r'.Numbered)
    (hCNs : ∀ x ∈ r'.CNs, x ∈ r.CNs) (hinner : r'.basedInnerProduct = r.basedInnerProduct)
    (hweights : r'.vLengSquare = r.vLengSquare) (hideal : r'.iLengSquare = r.iLengSquare) :
    r'.Priced where
  numbered := hnumbered
  inner := hinner.trans h.inner
  weights := hweights.trans h.weights
  capacity := fun x hx => h.capacity x (hCNs x hx)
  weight := fun x hx => h.weight x (hCNs x hx)
  ideal_nonneg := hideal ▸ h.ideal_nonneg
  ideal := by
    intro hne
    obtain ⟨x, hx⟩ := List.exists_mem_of_ne_nil _ hne
    rw [hideal]
    exact h.ideal (List.ne_nil_of_mem (hCNs x hx))

/-- A node changes, but not its capacity. -/
lemma modify (h : r.Priced) (key : ℤ) {f : CNInfo ℝ → CNInfo ℝ}
    (hcapacity : ∀ cn, (f cn).capacity = cn.capacity)
    (hweight : ∀ cn, 0 ≤ cn.weight → 0 ≤ (f cn).weight) : (r.modify key f).Priced where
  numbered := h.numbered.congr (by simp) rfl
  inner := h.inner
  weights := h.weights
  capacity := by
    intro x hx
    obtain ⟨y, hy, rfl⟩ := List.mem_map.1 hx
    split
    · rw [hcapacity]
      exact h.capacity y hy
    · exact h.capacity y hy
  weight := by
    intro x hx
    obtain ⟨y, hy, rfl⟩ := List.mem_map.1 hx
    split
    · exact hweight _ (h.weight y hy)
    · exact h.weight y hy
  ideal_nonneg := h.ideal_nonneg
  ideal := fun hne => h.ideal fun hnil => hne (by simp [Registry.modify, hnil])

lemma updateCNWeight (h : r.Priced) (key : ℤ) {weight : ℝ} (hweight : 0 ≤ weight) :
    (r.updateCNWeight key weight).2.Priced := by
  rcases r.updateCNWeight_cases key weight with heq | heq
  · rw [heq]
    exact h
  · rw [heq]
    exact h.modify key (fun _ => rfl) fun _ _ => hweight

lemma updateCNUsedTime (h : r.Priced) (key : ℤ) (usedTime : ℝ) :
    (r.updateCNUsedTime key usedTime).2.Priced := by
  rcases r.updateCNUsedTime_cases key usedTime with heq | heq
  · rw [heq]
    exact h
  · rw [heq]
    exact h.modify key (fun _ => rfl) fun _ hweight => hweight

lemma stable : Registry.Stable Priced DispatcherMsg.Sound where
  loadInfo := fun _ cnId _ usedTime h hm =>
    (h.updateCNWeight cnId hm).updateCNUsedTime cnId usedTime
  cnReg := fun _ _ h hm => h.addCN hm
  binding := fun _ key h => h.modify key (fun _ => rfl) fun _ hweight => by
    change 0 ≤ _ + (1 : ℝ)
    linarith
  delCN := fun _ cnId h => h.of_subset (h.numbered.delCN cnId)
    (fun _ hx => List.mem_of_mem_filter hx) rfl rfl rfl
  reorder := fun r i h => h.of_subset
    (h.numbered.congr ((r.reorder_perm i).map Prod.fst) rfl)
    (fun _ hx => (r.reorder_perm i).mem_iff.1 hx) rfl rfl rfl

/-! ## What `Dispatch` takes -/

lemma cosValue_eq (h : r.Priced) (a : ℝ) (cn : CNInfo ℝ) :
    r.cosValue a cn = a * cn.weight / (√r.iLengSquare * √(2 * cn.weight * a + a ^ 2)) := by
  simp only [cosValue, h.inner, h.weights, zero_add, Arith.sqrt_real]
  norm_num [sq]

/-- Of two nodes the one with less weight comes off worse. -/
lemma cosValue_lt (h : r.Priced) {a : ℝ} (ha : 0 < a) (hne : r.CNs ≠ []) {cn cn' : CNInfo ℝ}
    (hcn : 0 ≤ cn.weight) (hlt : cn.weight < cn'.weight) : r.cosValue a cn < r.cosValue a cn' := by
  have hcn' : 0 < cn'.weight := lt_of_le_of_lt hcn hlt
  rw [h.cosValue_eq, h.cosValue_eq, ← not_le,
    div_sqrt_le_div_sqrt_iff (by positivity) (by positivity) (h.ideal hne) (by positivity)
      (by positivity), not_le]
  -- With both sides multiplied out the difference is a sum of positive terms.
  have hdiff : (a * cn'.weight) ^ 2 * (2 * cn.weight * a + a ^ 2) -
      (a * cn.weight) ^ 2 * (2 * cn'.weight * a + a ^ 2) =
        a ^ 3 * (cn'.weight - cn.weight) *
          (2 * cn.weight * cn'.weight + a * (cn'.weight + cn.weight)) := by
    ring
  have hpos : 0 < cn'.weight - cn.weight := sub_pos.2 hlt
  have hterm : 0 < a ^ 3 * (cn'.weight - cn.weight) *
      (2 * cn.weight * cn'.weight + a * (cn'.weight + cn.weight)) := by
    positivity
  linarith

lemma cosValue_le (h : r.Priced) {a : ℝ} (ha : 0 < a) (hne : r.CNs ≠ []) {cn cn' : CNInfo ℝ}
    (hcn : 0 ≤ cn.weight) (hle : cn.weight ≤ cn'.weight) : r.cosValue a cn ≤ r.cosValue a cn' := by
  rcases hle.lt_or_eq with hlt | heq
  · exact (h.cosValue_lt ha hne hcn hlt).le
  · rw [h.cosValue_eq, h.cosValue_eq, heq]

/-- `Dispatch` takes the first node of the largest weight. -/
theorem dispatch_eq (h : r.Priced) {a : ℝ} (ha : 0 < a) {n : ℤ × CNInfo ℝ}
    (hn : r.FirstHeaviest n) : r.dispatch a = n.1 := by
  obtain ⟨pre, post, hCNs, hpre, hpost⟩ := hn
  have hmem : ∀ x ∈ pre ++ n :: post, x ∈ r.CNs := fun x hx => hCNs ▸ hx
  have hne : r.CNs ≠ [] := by simp [hCNs]
  have hnonneg : 0 ≤ r.cosValue a n.2 := by
    have hweight := h.weight n (hmem n (by simp))
    rw [h.cosValue_eq]
    positivity
  have hfirst : bestFrom (fun _ => true) (fun x => r.cosValue a x.2) (-1, none) (pre ++ n :: post) =
      (r.cosValue a n.2, some n) :=
    bestFrom_first rfl (by linarith)
      (fun x hx => h.cosValue_lt ha hne (h.weight x (hmem x (by simp [hx]))) (hpre x hx))
      (fun x hx => h.cosValue_le ha hne (h.weight x (hmem x (by simp [hx]))) (hpost x hx))
  rw [Registry.dispatch, hCNs, hfirst]
  rfl

/-! ## What it should take -/

/-- Weight given to a registered node, in a sum over all nodes. -/
lemma sum_loaded (h : r.Priced) {n : ℤ × CNInfo ℝ} (hn : n ∈ r.CNs) (a : ℝ)
    (f : CNInfo ℝ → ℝ → ℝ) :
    (r.CNs.map fun x => f x.2 (loaded a n.1 x)).sum + f n.2 n.2.weight =
      (r.CNs.map fun x => f x.2 x.2.weight).sum + f n.2 (n.2.weight + a) := by
  have hsum := sum_map_update (f := fun x : ℤ × CNInfo ℝ => f x.2 x.2.weight)
    (g := fun x => f x.2 (loaded a n.1 x)) (List.Nodup.of_map _ h.numbered.nodup) hn ?_
  · simpa [loaded] using hsum
  · intro x hx hne
    have hid : x.1 ≠ n.1 := fun hid =>
      hne (List.inj_on_of_nodup_map h.numbered.nodup hx hn hid)
    simp [loaded, hid]

lemma idealCosine_eq (h : r.Priced) {n : ℤ × CNInfo ℝ} (hn : n ∈ r.CNs) (a : ℝ) :
    r.idealCosine a n.1 = (r.innerProduct + a * n.2.capacity) /
      (√(r.CNs.map fun x => x.2.capacity ^ 2).sum *
        √(r.weightSquare + (2 * n.2.weight * a + a ^ 2))) := by
  have hinner := h.sum_loaded hn a fun cn weight => cn.capacity * weight
  have hsquare := h.sum_loaded hn a fun _ weight => weight ^ 2
  have hinner' : (r.CNs.map fun x => x.2.capacity * loaded a n.1 x).sum =
      r.innerProduct + a * n.2.capacity := by
    rw [innerProduct]
    linarith
  have hsquare' : (r.CNs.map fun x => loaded a n.1 x ^ 2).sum =
      r.weightSquare + (2 * n.2.weight * a + a ^ 2) := by
    rw [weightSquare]
    linarith
  rw [idealCosine, hinner', hsquare']

lemma innerProduct_nonneg (h : r.Priced) : 0 ≤ r.innerProduct := by
  refine List.sum_nonneg fun x hx => ?_
  obtain ⟨y, hy, rfl⟩ := List.mem_map.1 hx
  exact mul_nonneg (h.capacity y hy).le (h.weight y hy)

lemma weightSquare_nonneg (r : Registry ℝ) : 0 ≤ r.weightSquare := by
  refine List.sum_nonneg fun x hx => ?_
  obtain ⟨y, -, rfl⟩ := List.mem_map.1 hx
  positivity

/-- The cosines of two nodes, compared without roots. -/
lemma idealCosine_le_iff (h : r.Priced) {a : ℝ} (ha : 0 < a) {m n : ℤ × CNInfo ℝ}
    (hm : m ∈ r.CNs) (hn : n ∈ r.CNs) :
    r.idealCosine a m.1 ≤ r.idealCosine a n.1 ↔
      (r.innerProduct + a * m.2.capacity) ^ 2 *
          (r.weightSquare + (2 * n.2.weight * a + a ^ 2)) ≤
        (r.innerProduct + a * n.2.capacity) ^ 2 *
          (r.weightSquare + (2 * m.2.weight * a + a ^ 2)) := by
  have hinner := h.innerProduct_nonneg
  have hsquare := weightSquare_nonneg r
  have hmcap := h.capacity m hm
  have hncap := h.capacity n hn
  have hmweight := h.weight m hm
  have hnweight := h.weight n hn
  have hcaps : 0 < (r.CNs.map fun x => x.2.capacity ^ 2).sum := by
    refine lt_of_lt_of_le (pow_pos hncap 2) (List.single_le_sum ?_ _ (List.mem_map.2 ⟨n, hn, rfl⟩))
    intro x hx
    obtain ⟨y, -, rfl⟩ := List.mem_map.1 hx
    positivity
  rw [h.idealCosine_eq hm, h.idealCosine_eq hn]
  exact div_sqrt_le_div_sqrt_iff (by positivity) (by positivity) hcaps (by positivity)
    (by positivity)

/-- Of two nodes of one capacity the one with less weight is the better choice. -/
lemma weight_le_of_best (h : r.Priced) {a : ℝ} (ha : 0 < a) {m n : ℤ × CNInfo ℝ}
    (hm : m ∈ r.CNs) (hn : n ∈ r.CNs) (hcapacity : m.2.capacity = n.2.capacity)
    (hle : r.idealCosine a m.1 ≤ r.idealCosine a n.1) : n.2.weight ≤ m.2.weight := by
  have hpos : 0 < (r.innerProduct + a * n.2.capacity) ^ 2 :=
    pow_pos (add_pos_of_nonneg_of_pos h.innerProduct_nonneg (mul_pos ha (h.capacity n hn))) 2
  rw [h.idealCosine_le_iff ha hm hn, hcapacity] at hle
  have hweights := le_of_mul_le_mul_left hle hpos
  have hscaled : n.2.weight * (2 * a) ≤ m.2.weight * (2 * a) := by linarith
  exact le_of_mul_le_mul_right hscaled (by linarith)

end Priced

lemma FirstHeaviest.mem {r : Registry ℝ} {n : ℤ × CNInfo ℝ} (h : r.FirstHeaviest n) :
    n ∈ r.CNs := by
  obtain ⟨pre, post, hCNs, -⟩ := h
  simp [hCNs]

end Registry

section Runs

variable {C : Type*} [DecidableEq C] {s : Dispatcher C ℝ} {ls : List (DispatcherStep C ℝ)}

/-- **Dispatch goes by weight.**  In every state that registrations with positive capacities, load
reports that are not negative, requests and disconnections lead to, the node that `Dispatch` returns
keeps the weights in the direction of the capacities if and only if the first node of the largest
weight does. -/
theorem dispatch_balances_iff (h : dispatcher.exec Dispatcher.init ls = some s)
    (hls : ∀ l ∈ ls, l.Receives DispatcherMsg.Sound) {appWeight : ℝ} (happ : 0 < appWeight) :
    s.registry.Balances appWeight (s.registry.dispatch appWeight) ↔
      s.registry.HeaviestIsBest appWeight := by
  have hp : s.registry.Priced := Registry.Priced.stable.run Registry.Priced.init hls h
  constructor
  · rintro ⟨cn, hcn, hbest, -⟩
    obtain ⟨pre, n, post, hCNs, hpre, hpost⟩ :=
      exists_first_max (fun x : ℤ × CNInfo ℝ => x.2.weight) (List.ne_nil_of_mem hcn)
    have hn : s.registry.FirstHeaviest n := ⟨pre, post, hCNs, hpre, hpost⟩
    rw [hp.dispatch_eq happ hn] at hbest
    exact ⟨n, hn, fun x hx => (hp.idealCosine_le_iff happ hx hn.mem).1 (hbest x hx)⟩
  · rintro ⟨n, hn, hbest⟩
    have hcosine : ∀ x ∈ s.registry.CNs,
        s.registry.idealCosine appWeight x.1 ≤ s.registry.idealCosine appWeight n.1 :=
      fun x hx => (hp.idealCosine_le_iff happ hx hn.mem).2 (hbest x hx)
    rw [hp.dispatch_eq happ hn]
    exact ⟨n.2, hn.mem, hcosine, fun x hx hcapacity =>
      hp.weight_le_of_best happ hx hn.mem hcapacity (hcosine x hx)⟩

end Runs

/-! ## Two nodes -/

/-- Two nodes register. -/
def twoNodes (capacity capacity' : ℝ) : List (DispatcherStep Unit ℝ) :=
  [.receive () (.cnReg capacity) 0, .receive () (.cnReg capacity') 0]

/-- The first of two nodes that have nothing to do is taken, and has the larger capacity. -/
theorem dispatch_balances_iff_run :
    ∃ s, dispatcher.exec Dispatcher.init (twoNodes 2 1) = some s ∧
      s.registry.Balances 1 (s.registry.dispatch 1) := by
  obtain ⟨s, hrun, hCNs⟩ : ∃ s, dispatcher.exec Dispatcher.init (twoNodes 2 1) = some s ∧
      s.registry.CNs = [(0, ⟨0, 0, 2⟩), (1, ⟨0, 0, 1⟩)] := ⟨_, rfl, rfl⟩
  refine ⟨s, hrun, (dispatch_balances_iff hrun ?_ one_pos).2 ?_⟩
  · simp [twoNodes, DispatcherStep.Receives, DispatcherMsg.Sound]
  · have hinner : s.registry.innerProduct = 0 := by simp [Registry.innerProduct, hCNs]
    have hsquare : s.registry.weightSquare = 0 := by simp [Registry.weightSquare, hCNs]
    refine ⟨(0, ⟨0, 0, 2⟩), ⟨[], [(1, ⟨0, 0, 1⟩)], hCNs, by simp, by simp⟩, ?_⟩
    rw [hCNs, hinner, hsquare]
    simp

/-- Of two nodes of one capacity the first has reported a weight, and gets the next client. -/
theorem heaviest_dispatched :
    ∃ s, dispatcher.exec Dispatcher.init
        (twoNodes 1 1 ++ [.receive () (.loadInfo 0 1 0) 0, .getCN ()]) = some s ∧
      ¬ s.registry.Balances 1 (s.registry.dispatch 1) := by
  obtain ⟨s, hrun, hCNs⟩ : ∃ s, dispatcher.exec Dispatcher.init
      (twoNodes 1 1 ++ [.receive () (.loadInfo 0 1 0) 0, .getCN ()]) = some s ∧
        s.registry.CNs = [(0, ⟨1, 0, 1⟩), (1, ⟨0, 0, 1⟩)] := ⟨_, rfl, rfl⟩
  have hp : s.registry.Priced := by
    refine Registry.Priced.stable.run Registry.Priced.init ?_ hrun
    simp [twoNodes, DispatcherStep.Receives, DispatcherMsg.Sound]
  have hdispatch : s.registry.dispatch 1 = 0 :=
    hp.dispatch_eq one_pos (n := (0, ⟨1, 0, 1⟩))
      ⟨[], [(1, ⟨0, 0, 1⟩)], hCNs, by simp, by simp⟩
  refine ⟨s, hrun, ?_⟩
  rintro ⟨cn, hcn, -, hleast⟩
  rw [hdispatch] at hcn
  rw [hCNs] at hcn hleast
  obtain rfl : cn = ⟨1, 0, 1⟩ := by simpa using hcn
  have hle := hleast (1, ⟨0, 0, 1⟩) (by simp) rfl
  norm_num at hle

end ElasticFramework
