import Mathlib.Analysis.Real.Sqrt

/-!
# Arithmetic with a square root and a comparison

Code over a floating-point type uses a handful of operations and a strict comparison, and
assumes no law of them.  `Arith` is that interface.  A definition written against it runs at
`Float`, and is the exact-arithmetic reading of the same code at `ℝ`; a theorem proved for every
`Arith` holds whatever the rounding does.
-/

namespace ElasticFramework

/-- The operations of a floating-point type, with no law. -/
class Arith (K : Type*) extends Zero K, One K, Neg K, Add K, Sub K, Mul K, Div K, LT K where
  sqrt : K → K
  decideLt : ∀ a b : K, Decidable (a < b)

instance Arith.instDecidableLT {K : Type*} [Arith K] : DecidableLT K := Arith.decideLt

/-- Exact arithmetic. -/
noncomputable instance : Arith ℝ where
  sqrt := Real.sqrt
  decideLt := fun _ _ => inferInstance

/-- Time in whole units. -/
def Ticks : Type := ℤ

/-- Quotients and roots are rounded down. -/
instance : Arith Ticks where
  zero := Int.ofNat 0
  one := Int.ofNat 1
  neg := Int.neg
  add := Int.add
  sub := Int.sub
  mul := Int.mul
  div := Int.fdiv
  lt := Int.lt
  sqrt x := Int.ofNat ((List.range (x.toNat + 1)).countP fun k => k * k ≤ x.toNat) - Int.ofNat 1
  decideLt := Int.decLt

instance : Arith Float where
  zero := 0
  one := 1
  sqrt := Float.sqrt
  decideLt := fun _ _ => inferInstance

@[simp] lemma Arith.sqrt_real (x : ℝ) : Arith.sqrt x = Real.sqrt x := rfl

/-! ## Cosines -/

/-- Two cosines with one vector in common, compared without roots. -/
lemma div_sqrt_le_div_sqrt_iff {x y k p q : ℝ} (hx : 0 ≤ x) (hy : 0 ≤ y) (hk : 0 < k)
    (hp : 0 < p) (hq : 0 < q) : x / (√k * √p) ≤ y / (√k * √q) ↔ x ^ 2 * q ≤ y ^ 2 * p := by
  have hroot : 0 < √k := Real.sqrt_pos.2 hk
  have hsquare : ∀ {u v : ℝ}, 0 ≤ u → u * √v = √(u ^ 2 * v) := by
    intro u v hu
    rw [Real.sqrt_mul (sq_nonneg u), Real.sqrt_sq hu]
  rw [div_le_div_iff₀ (mul_pos hroot (Real.sqrt_pos.2 hp)) (mul_pos hroot (Real.sqrt_pos.2 hq)),
    mul_left_comm, mul_left_comm y, mul_le_mul_iff_right₀ hroot, hsquare hx, hsquare hy,
    Real.sqrt_le_sqrt_iff (by positivity)]

end ElasticFramework
