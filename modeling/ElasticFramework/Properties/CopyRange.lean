import ElasticFramework.Construction.CopyRange
import ElasticFramework.Properties.ControlMessages

/-!
# Which copies are sent

The tests are right as long as no sum wraps (`accepted_iff_within`).  A range that runs past the
last address comes out with a small end, which passes the test against the size: such a copy is
sent (`copy_checked_iff`), and with the fields it was asked for (`request_carried`).
-/

namespace ElasticFramework

namespace CopyCall

variable {mem : ℕ → ClMem} {c : CopyCall}

/-- A copy within bounds is sent, and of any other there is an error and nothing is sent. -/
def Checked (queue : ℕ) (mem : ℕ → ClMem) (c : CopyCall) : Prop :=
  (c.Within mem → clEnqueueCopyBuffer queue mem queue c = (clSuccess, some (c.request mem))) ∧
    (¬ c.Within mem → ∃ err, err ≠ clSuccess ∧
      clEnqueueCopyBuffer queue mem queue c = (err, none))

/-- An end is past the last address, and its remainder in bounds; and of one buffer, not even the
lower range reaches over the start of the other. -/
def WrapsPast (mem : ℕ → ClMem) (c : CopyCall) : Prop :=
  let srcEnd := c.srcOffset.toNat + c.cb.toNat
  let dstEnd := c.dstOffset.toNat + c.cb.toNat
  (2 ^ 64 ≤ srcEnd ∨ 2 ^ 64 ≤ dstEnd) ∧ srcEnd % 2 ^ 64 ≤ (mem c.srcBuffer).size.toNat ∧
    dstEnd % 2 ^ 64 ≤ (mem c.dstBuffer).size.toNat ∧
      (c.srcBuffer = c.dstBuffer → min srcEnd dstEnd < 2 ^ 64 →
        min srcEnd dstEnd ≤ max c.srcOffset.toNat c.dstOffset.toNat)

/-- What comes of a call on the client's queue. -/
lemma clEnqueueCopyBuffer_cases (queue : ℕ) (mem : ℕ → ClMem) (c : CopyCall) :
    (¬ c.Overlaps ∧ ¬ c.Exceeds mem ∧
        clEnqueueCopyBuffer queue mem queue c = (clSuccess, some (c.request mem))) ∨
      ((c.Overlaps ∨ c.Exceeds mem) ∧ ∃ err, err ≠ clSuccess ∧
        clEnqueueCopyBuffer queue mem queue c = (err, none)) := by
  rw [clEnqueueCopyBuffer, if_neg (not_not.2 rfl)]
  by_cases hoverlaps : c.Overlaps
  · rw [if_pos hoverlaps]
    exact Or.inr ⟨Or.inl hoverlaps, _, by decide, rfl⟩
  · rw [if_neg hoverlaps]
    by_cases hexceeds : c.Exceeds mem
    · rw [if_pos hexceeds]
      exact Or.inr ⟨Or.inr hexceeds, _, by decide, rfl⟩
    · rw [if_neg hexceeds]
      exact Or.inl ⟨hoverlaps, hexceeds, rfl⟩

/-- The call does what is asked of it when its tests are those on the ranges. -/
lemma checked_iff (queue : ℕ) :
    c.Checked queue mem ↔ (¬ c.Overlaps ∧ ¬ c.Exceeds mem ↔ c.Within mem) := by
  unfold Checked
  rcases clEnqueueCopyBuffer_cases queue mem c with
    ⟨hoverlaps, hexceeds, heq⟩ | ⟨hrefused, err, herr, heq⟩
  · rw [heq]
    simp [hoverlaps, hexceeds]
  · have hne : (err, (none : Option Call)) ≠ (clSuccess, some (c.request mem)) := by
      intro h
      cases (Prod.mk.inj h).2
    have haccepted : ¬ (¬ c.Overlaps ∧ ¬ c.Exceeds mem) := by tauto
    rw [heq]
    simp [hne, haccepted, herr]

/-- The tests, on numbers. -/
lemma overlaps_iff : c.Overlaps ↔ c.srcBuffer = c.dstBuffer ∧
    ((c.srcOffset.toNat ≤ c.dstOffset.toNat ∧
        c.dstOffset.toNat < (c.srcOffset.toNat + c.cb.toNat) % 2 ^ 64) ∨
      (c.dstOffset.toNat < c.srcOffset.toNat ∧
        c.srcOffset.toNat < (c.dstOffset.toNat + c.cb.toNat) % 2 ^ 64)) := by
  simp only [Overlaps, gt_iff_lt, UInt64.lt_iff_toNat_lt, UInt64.le_iff_toNat_le,
    UInt64.toNat_add]

lemma exceeds_iff : c.Exceeds mem ↔
    (mem c.srcBuffer).size.toNat < (c.srcOffset.toNat + c.cb.toNat) % 2 ^ 64 ∨
      (mem c.dstBuffer).size.toNat < (c.dstOffset.toNat + c.cb.toNat) % 2 ^ 64 := by
  simp only [Exceeds, gt_iff_lt, UInt64.lt_iff_toNat_lt, UInt64.toNat_add]

/-- Two ranges have no place in common when the lower one ends before the upper one starts. -/
lemma ranges_disjoint_iff {a b a' b' : ℕ} :
    (∀ i, ¬ ((a ≤ i ∧ i < b) ∧ a' ≤ i ∧ i < b')) ↔ min b b' ≤ max a a' := by
  constructor
  · intro h
    by_contra! hlt
    exact h (max a a') (by omega)
  · intro h i hi
    omega

/-- The tests are those on the ranges but for a sum that wraps and passes them. -/
lemma accepted_iff_within :
    (¬ c.Overlaps ∧ ¬ c.Exceeds mem ↔ c.Within mem) ↔ ¬ c.WrapsPast mem := by
  have hsrc := c.srcOffset.toNat_lt
  have hdst := c.dstOffset.toNat_lt
  have hcb := c.cb.toNat_lt
  have hsrcSize := (mem c.srcBuffer).size.toNat_lt
  have hdstSize := (mem c.dstBuffer).size.toNat_lt
  rw [overlaps_iff, exceeds_iff, Within, WrapsPast, ranges_disjoint_iff]
  by_cases hsame : c.srcBuffer = c.dstBuffer
  · rw [hsame] at hsrcSize
    simp only [hsame, true_and, forall_const]
    omega
  · simp only [hsame, false_and, not_false_eq_true, true_and, IsEmpty.forall_iff, and_true]
    omega

/-- A copy is sent exactly when it is within bounds, unless one of its ends wraps and passes the
tests. -/
theorem copy_checked_iff (queue : ℕ) (mem : ℕ → ClMem) (c : CopyCall) :
    c.Checked queue mem ↔ ¬ c.WrapsPast mem := by
  rw [checked_iff, accepted_iff_within]

/-- The handler reads what the copy was asked for. -/
theorem request_carried (mem : ℕ → ClMem) (c : CopyCall) (stack : Stack) :
    (⟨c.request mem, stack⟩ : Invocation).Carries
      (.enqueueCopyBuffer (mem c.srcBuffer).id.toNat (mem c.dstBuffer).id.toNat c.srcOffset.toNat
        c.dstOffset.toNat c.cb.toNat) := by
  have hcarries := carries_received (c := ⟨c.request mem, stack⟩) rfl
  rw [Control.received, Nat.mod_eq_of_lt (mem c.srcBuffer).id.toNat_lt,
    Nat.mod_eq_of_lt (mem c.dstBuffer).id.toNat_lt, Nat.mod_eq_of_lt c.srcOffset.toNat_lt,
    Nat.mod_eq_of_lt c.dstOffset.toNat_lt, Nat.mod_eq_of_lt c.cb.toNat_lt] at hcarries
  exact hcarries

end CopyCall

/-- Sixteen bytes of which eight are past the last address, from a buffer of sixteen. -/
def wrappingCopy : CopyCall where
  srcBuffer := 0
  dstBuffer := 1
  srcOffset := 18446744073709551608
  dstOffset := 0
  cb := 16

/-- They are sent. -/
theorem wrapped_copy_sent :
    ¬ ∀ (queue : ℕ) (mem : ℕ → ClMem) (c : CopyCall), c.Checked queue mem := by
  intro h
  obtain ⟨err, -, heq⟩ := (h 0 (fun id => ⟨UInt32.ofNat id, 16⟩) wrappingCopy).2 fun hwithin =>
    absurd hwithin.1 (by decide)
  rw [clEnqueueCopyBuffer, if_neg (by decide), if_neg (by decide), if_neg (by decide)] at heq
  cases (Prod.mk.inj heq).2

end ElasticFramework
