import Mathlib.Algebra.Order.Ring.Nat

/-!
# Rounding to a number of bits

`roundTo p n` is the number with a significand of `p` bits that is nearest to `n`, and of two that
are equally near the one with an even significand: what a conversion of an integer to a
floating-point type comes to, where the exponent is in range.  Below `2 ^ p` nothing is rounded.
-/

namespace ElasticFramework

/-- The number of bits a significand of `p` bits leaves off. -/
def excess (p n : ℕ) : ℕ := n.log2 + 1 - p

/-- The nearest number with a significand of `p` bits. -/
def roundTo (p n : ℕ) : ℕ :=
  let unit := 2 ^ excess p n
  let q := n / unit
  let r := n % unit
  if 2 * r < unit ∨ 2 * r = unit ∧ q % 2 = 0 then q * unit else (q + 1) * unit

/-- What has no more than `p` bits stays as it is. -/
lemma roundTo_of_lt {p n : ℕ} (h : n < 2 ^ p) : roundTo p n = n := by
  rcases Nat.eq_zero_or_pos n with rfl | hpos
  · simp [roundTo]
  · have hlog := (Nat.log2_lt hpos.ne').2 h
    have hexcess : excess p n = 0 := by
      rw [excess]
      omega
    simp [roundTo, hexcess, Nat.mod_one]

/-- In the middle of two numbers the even significand is taken. -/
example : roundTo 24 16777217 = 16777216 ∧ roundTo 24 16777219 = 16777220 := by decide

end ElasticFramework
