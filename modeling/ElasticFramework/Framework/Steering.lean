import ElasticFramework.Framework.Arith
import Mathlib.Algebra.Order.BigOperators.Ring.Finset
import Mathlib.Algebra.Order.Chebyshev
import Mathlib.Analysis.PSeries

/-!
# Steering a vector by the cosine

Somebody steers a vector `u` towards the direction of `w`, one coordinate at a time.  Of some
coordinates `C`, and possibly others, he lets that one grow which, grown by one, gives the best
cosine; it then grows by some other amount, of which only bounds are known.  `Steers` is such a
step, and `Steered n` says that `n` of them have been made.

A step gains at least what the best coordinate of `C` promises, up to an error that is small because
a long vector turns but little (`gain`).  Two things follow from this.

* No coordinate of `C` waits for ever (`exists_le_of_waits`).  While it waits the others leave it
  behind, and a step towards it would do ever more good.  So the squared cosine gains about `1 / k`
  in the `k`-th step, and these gains have no finite sum.
* If all coordinates are in `C`, the vector takes the direction of `w` (`exists_shares_le`).  What
  is missing of the squared cosine shrinks in the `k`-th step by about `1 / k` of itself, and the
  errors, which are about `1 / k ^ 2`, do have a finite sum.
-/

namespace ElasticFramework

/-! ## One step, as numbers -/

/-- What is taken, to the first order, when a coordinate `y` of weight `ω` promised `g` and the
coordinate `p` of weight `x` made no worse a cosine; `d` bounds what a turn of the vector costs. -/
lemma promise_le {a b d g x p y ω : ℝ} (hb : 0 < b) (ha : a ^ 2 ≤ d) (hg : 0 ≤ g) (hp : 0 ≤ p)
    (hpb : 2 * p + 1 ≤ 3 * b) (hy : 0 ≤ y) (hyb : 2 * y + 1 ≤ 3 * b)
    (hpromise : g ≤ 2 * a * (ω * b - a * y))
    (hbetter : (a + ω) ^ 2 * (b + (2 * p + 1)) ≤ (a + x) ^ 2 * (b + (2 * y + 1))) :
    g / 4 - 4 * d ≤ 2 * a * (x * b - a * p) + (x ^ 2 * b - a ^ 2) := by
  have hd : 0 ≤ d := (sq_nonneg a).trans ha
  -- the square of the sum after a step of one, less what a turn alone would give
  have hcompare : (2 * a * (ω * b - a * y) + (ω ^ 2 * b - a ^ 2)) * (b + (2 * p + 1)) ≤
      (2 * a * (x * b - a * p) + (x ^ 2 * b - a ^ 2)) * (b + (2 * y + 1)) := by
    have hscaled := mul_le_mul_of_nonneg_right hbetter hb.le
    linarith
  have hpromised : g - d ≤ 2 * a * (ω * b - a * y) + (ω ^ 2 * b - a ^ 2) := by
    have hω : 0 ≤ ω ^ 2 * b := by positivity
    linarith
  refine le_of_mul_le_mul_right ?_ (show 0 < b + (2 * y + 1) by linarith)
  calc (g / 4 - 4 * d) * (b + (2 * y + 1))
      = g / 4 * (b + (2 * y + 1)) - 4 * d * (b + (2 * y + 1)) := by ring
    _ ≤ g / 4 * (4 * b) - 4 * d * b := by gcongr <;> linarith
    _ = g * b - d * (4 * b) := by ring
    _ ≤ g * (b + (2 * p + 1)) - d * (b + (2 * p + 1)) := by gcongr <;> linarith
    _ = (g - d) * (b + (2 * p + 1)) := by ring
    _ ≤ (2 * a * (ω * b - a * y) + (ω ^ 2 * b - a ^ 2)) * (b + (2 * p + 1)) := by gcongr
    _ ≤ _ := hcompare

/-- A part of the promise, and the whole of the error, divided by the new length. -/
lemma part_le {b d f g q t δ M : ℝ} (hb : 0 < b) (hbq : b ≤ q) (hqb : q ≤ 4 * b) (hd : 0 ≤ d)
    (hg : 0 ≤ g) (hδ : 0 < δ) (hδt : δ ≤ t) (htM : t ≤ M) (hf : g / 4 - d * b ≤ f) :
    δ * g / (16 * b ^ 2) - M * d / b ≤ t * f / (q * b) := by
  have ht : 0 < t := hδ.trans_le hδt
  have hM : 0 < M := ht.trans_le htM
  have hq : 0 < q := hb.trans_le hbq
  have hpart : δ * g / (16 * b ^ 2) ≤ t * (g / 4) / (q * b) := by
    rw [div_le_div_iff₀ (by positivity) (by positivity)]
    calc δ * g * (q * b) ≤ t * g * (4 * b * b) := by gcongr
      _ = t * (g / 4) * (16 * b ^ 2) := by ring
  have herror : t * (d * b) / (q * b) ≤ M * d / b := by
    rw [div_le_div_iff₀ (by positivity) hb]
    calc t * (d * b) * b ≤ M * (d * q) * b := by gcongr
      _ = M * d * (q * b) := by ring
  calc δ * g / (16 * b ^ 2) - M * d / b
      ≤ t * (g / 4) / (q * b) - t * (d * b) / (q * b) := by gcongr
    _ = t * (g / 4 - d * b) / (q * b) := by ring
    _ ≤ t * f / (q * b) := by gcongr

/-- What a step gains, when a coordinate `y` of weight `ω` promised `g` and the coordinate `p` of
weight `x` was taken. -/
lemma gain {a r c g x p y ω t δ M : ℝ} (hr : 1 ≤ r) (hMr : M ≤ r) (ha : 0 ≤ a) (hac : a ≤ c * r)
    (hx : 0 ≤ x) (hxc : x ≤ c) (hp : 0 ≤ p) (hpr : p ≤ r) (hy : 0 ≤ y) (hyr : y ≤ r) (hδ : 0 < δ)
    (hδt : δ ≤ t) (htM : t ≤ M) (hg : 0 ≤ g) (hpromise : g ≤ 2 * a * (ω * r ^ 2 - a * y))
    (hbetter : (a + ω) ^ 2 * (r ^ 2 + (2 * p + 1)) ≤ (a + x) ^ 2 * (r ^ 2 + (2 * y + 1))) :
    a ^ 2 / r ^ 2 + δ * g / (16 * (r ^ 2) ^ 2) - M * (5 + M) * c ^ 2 / r ^ 2 ≤
      (a + t * x) ^ 2 / (r ^ 2 + (2 * p * t + t ^ 2)) := by
  have hr₀ : 0 < r := one_pos.trans_le hr
  have hrr : r ≤ r ^ 2 := by nlinarith
  have ht : 0 < t := hδ.trans_le hδt
  have hM : 0 < M := ht.trans_le htM
  have hsquare : a ^ 2 ≤ c ^ 2 * r ^ 2 := by
    rw [← mul_pow]
    exact pow_le_pow_left₀ ha hac 2
  have hxx : x ^ 2 * r ^ 2 ≤ c ^ 2 * r ^ 2 := by gcongr
  have hqr : 2 * p * t + t ^ 2 ≤ 3 * r ^ 2 := by
    have htr : t ≤ r := htM.trans hMr
    have hpt : p * t ≤ r * r := mul_le_mul hpr htr ht.le hr₀.le
    have htt : t * t ≤ r * r := mul_le_mul htr htr ht.le hr₀.le
    linarith
  have hqpos : 0 ≤ 2 * p * t + t ^ 2 := by positivity
  set b := r ^ 2 with hb
  have hb₀ : 0 < b := by positivity
  set q := b + (2 * p * t + t ^ 2) with hq
  have hfirst := promise_le (d := c ^ 2 * b) hb₀ hsquare hg hp (by linarith) hy (by linarith)
    hpromise hbetter
  have hlinear : g / 4 - (5 + M) * c ^ 2 * b ≤
      2 * a * (x * b - a * p) + t * (x ^ 2 * b - a ^ 2) := by
    have htaa : t * a ^ 2 ≤ M * (c ^ 2 * b) := mul_le_mul htM hsquare (sq_nonneg a) hM.le
    have htxx : 0 ≤ t * (x ^ 2 * b) := by positivity
    have haa := sq_nonneg a
    linarith
  have hgained := part_le hb₀ (show b ≤ q by linarith) (show q ≤ 4 * b by linarith)
    (by positivity) hg hδ hδt htM hlinear
  have hdiff : (a + t * x) ^ 2 / q - a ^ 2 / b =
      t * (2 * a * (x * b - a * p) + t * (x ^ 2 * b - a ^ 2)) / (q * b) := by
    rw [div_sub_div _ _ (by positivity) hb₀.ne', hq]
    ring
  rw [← mul_assoc] at hgained
  linarith

/-! ## The sums -/

section Sums

variable {ι : Type*} {s : Finset ι} {w u : ι → ℝ} {i j : ι} {t : ℝ}

lemma sum_sq_nonneg (s : Finset ι) (u : ι → ℝ) : 0 ≤ ∑ k ∈ s, u k ^ 2 :=
  Finset.sum_nonneg fun k _ => sq_nonneg (u k)

lemma le_sqrt_sum_sq (hj : j ∈ s) : u j ≤ √(∑ k ∈ s, u k ^ 2) :=
  Real.le_sqrt_of_sq_le (Finset.single_le_sum (fun k _ => sq_nonneg (u k)) hj)

/-- The least weight times the length bounds the inner product from below. -/
lemma mul_sqrt_sum_sq_le {m : ℝ} (hm : 0 ≤ m) (hmw : ∀ k ∈ s, m ≤ w k) (hu : ∀ k ∈ s, 0 ≤ u k) :
    m * √(∑ k ∈ s, u k ^ 2) ≤ ∑ k ∈ s, w k * u k := by
  have hlength : √(∑ k ∈ s, u k ^ 2) ≤ ∑ k ∈ s, u k :=
    (Real.sqrt_le_left (Finset.sum_nonneg hu)).2 (Finset.sum_sq_le_sq_sum_of_nonneg hu)
  calc m * √(∑ k ∈ s, u k ^ 2) ≤ m * ∑ k ∈ s, u k := by gcongr
    _ = ∑ k ∈ s, m * u k := Finset.mul_sum ..
    _ ≤ ∑ k ∈ s, w k * u k := Finset.sum_le_sum fun k hk => by
        gcongr
        · exact hu k hk
        · exact hmw k hk

/-- The squared cosine, up to the length of `w`, is bounded by that length. -/
lemma sq_sum_div_le : (∑ k ∈ s, w k * u k) ^ 2 / ∑ k ∈ s, u k ^ 2 ≤ ∑ k ∈ s, w k ^ 2 :=
  div_le_of_le_mul₀ (sum_sq_nonneg s u) (sum_sq_nonneg s w) (Finset.sum_mul_sq_le_sq_mul_sq s w u)

variable [DecidableEq ι]

/-- A coordinate grows. -/
lemma update_add_apply (u : ι → ℝ) (i : ι) (t : ℝ) (j : ι) :
    Function.update u i (u i + t) j = u j + if j = i then t else 0 := by
  by_cases hj : j = i
  · subst hj
    simp
  · simp [hj]

lemma sum_mul_update (hi : i ∈ s) :
    ∑ k ∈ s, w k * Function.update u i (u i + t) k = (∑ k ∈ s, w k * u k) + t * w i := by
  simp only [update_add_apply, mul_add, Finset.sum_add_distrib, mul_ite, mul_zero,
    Finset.sum_ite_eq', hi, if_true, mul_comm t]

lemma sum_update_add (hi : i ∈ s) :
    ∑ k ∈ s, Function.update u i (u i + t) k = (∑ k ∈ s, u k) + t := by
  simp only [update_add_apply, Finset.sum_add_distrib, Finset.sum_ite_eq', hi, if_true]

lemma sum_sq_update (hi : i ∈ s) :
    ∑ k ∈ s, Function.update u i (u i + t) k ^ 2 =
      (∑ k ∈ s, u k ^ 2) + (2 * u i * t + t ^ 2) := by
  have hsquare : ∀ k, Function.update u i (u i + t) k ^ 2 =
      u k ^ 2 + if k = i then 2 * u i * t + t ^ 2 else 0 := by
    intro k
    rw [update_add_apply]
    split
    · rename_i hk
      rw [hk]
      ring
    · ring
  simp only [hsquare, Finset.sum_add_distrib, Finset.sum_ite_eq', hi, if_true]

/-- The length grows by no more than the coordinate. -/
lemma sqrt_sum_sq_update_le (hi : i ∈ s) (ht : 0 ≤ t) :
    √(∑ k ∈ s, Function.update u i (u i + t) k ^ 2) ≤ √(∑ k ∈ s, u k ^ 2) + t := by
  set r := √(∑ k ∈ s, u k ^ 2) with hr
  have hrr : r ^ 2 = ∑ k ∈ s, u k ^ 2 := Real.sq_sqrt (sum_sq_nonneg s u)
  have hmul : u i * t ≤ r * t := mul_le_mul_of_nonneg_right (le_sqrt_sum_sq hi) ht
  rw [sum_sq_update hi, ← hrr, Real.sqrt_le_left (by positivity)]
  linarith

end Sums

/-- The shares have no finite sum. -/
lemma exists_lt_sum_div {η R M : ℝ} (hη : 0 < η) (hR : 0 < R) (hM : 0 < M) (k₀ : ℕ) (C : ℝ) :
    ∃ N, C < ∑ k ∈ Finset.Ico k₀ N, η / (R + k * M) := by
  set q := η / (R + M) with hq
  have hqpos : 0 < q := by positivity
  obtain ⟨N, hN, hlarge⟩ := ((Real.tendsto_sum_range_one_div_nat_succ_atTop.const_mul_atTop
    hqpos).eventually_gt_atTop (C + q * ∑ k ∈ Finset.range k₀, 1 / ((k : ℝ) + 1))).and
      (Filter.eventually_ge_atTop k₀) |>.exists
  refine ⟨N, lt_of_lt_of_le (b := q * ∑ k ∈ Finset.Ico k₀ N, 1 / ((k : ℝ) + 1)) ?_ ?_⟩
  · rw [Finset.sum_Ico_eq_sub _ hlarge, mul_sub]
    linarith
  · rw [Finset.mul_sum]
    refine Finset.sum_le_sum fun k _ => ?_
    have hle : R + k * M ≤ (R + M) * (k + 1) := by
      have hkR : 0 ≤ (k : ℝ) * R := by positivity
      linarith
    calc q * (1 / ((k : ℝ) + 1)) = η / ((R + M) * (k + 1)) := by
          rw [hq]
          field_simp
      _ ≤ η / (R + k * M) := div_le_div_of_nonneg_left hη.le (by positivity) hle

/-- Once a sum of shares is too large, it stays so. -/
lemma sum_div_mono {η R M : ℝ} (hη : 0 < η) (hR : 0 < R) (hM : 0 < M) (k₀ : ℕ) {n N : ℕ}
    (hn : N ≤ n) :
    ∑ k ∈ Finset.Ico k₀ N, η / (R + k * M) ≤ ∑ k ∈ Finset.Ico k₀ n, η / (R + k * M) := by
  refine Finset.sum_le_sum_of_subset_of_nonneg (Finset.Ico_subset_Ico_right hn) fun k _ _ => ?_
  positivity

/-! ## Steps -/

section Steps

variable {ι : Type*} [DecidableEq ι] (s : Finset ι) (w : ι → ℝ) (C : Set ι) (δ M : ℝ)

/-- Coordinate `i`, grown by one, makes no worse a cosine with `w` than `v` would. -/
def Better (u : ι → ℝ) (v i : ι) : Prop :=
  (∑ k ∈ s, w k * Function.update u v (u v + 1) k) ^ 2 *
      ∑ k ∈ s, Function.update u i (u i + 1) k ^ 2 ≤
    (∑ k ∈ s, w k * Function.update u i (u i + 1) k) ^ 2 *
      ∑ k ∈ s, Function.update u v (u v + 1) k ^ 2

/-- A coordinate grows that is no worse a choice than any of `C`. -/
inductive Steers (u : ι → ℝ) : (ι → ℝ) → Prop
  | grow (i : ι) (t : ℝ) (hi : i ∈ s) (hδ : δ ≤ t) (hM : t ≤ M)
      (hbetter : ∀ v ∈ C, Better s w u v i) : Steers u (Function.update u i (u i + t))

/-- So many steps. -/
inductive Steered : ℕ → (ι → ℝ) → (ι → ℝ) → Prop
  | refl (u : ι → ℝ) : Steered 0 u u
  | step {n : ℕ} {u u' u'' : ι → ℝ} (h : Steered n u u') (hs : Steers s w C δ M u' u'') :
      Steered (n + 1) u u''

/-- How long the vector is after `n` steps, if its length was at most `R`. -/
structure Grown (R : ℝ) (n : ℕ) (u u' : ι → ℝ) : Prop where
  nonneg : ∀ k ∈ s, 0 ≤ u' k
  le : ∀ k, u k ≤ u' k
  length_le : √(∑ k ∈ s, u' k ^ 2) ≤ R + n * M
  le_sum : n * δ ≤ ∑ k ∈ s, u' k

variable {s w C δ M} {R : ℝ} {n : ℕ} {u u' u'' : ι → ℝ}

lemma better_iff {v i : ι} (hv : v ∈ s) (hi : i ∈ s) :
    Better s w u v i ↔
      ((∑ k ∈ s, w k * u k) + w v) ^ 2 * ((∑ k ∈ s, u k ^ 2) + (2 * u i + 1)) ≤
        ((∑ k ∈ s, w k * u k) + w i) ^ 2 * ((∑ k ∈ s, u k ^ 2) + (2 * u v + 1)) := by
  rw [Better, sum_mul_update hv, sum_mul_update hi, sum_sq_update hv, sum_sq_update hi]
  simp only [one_mul, mul_one, one_pow]

lemma Steers.le (hδ : 0 < δ) (hs : Steers s w C δ M u u') (k : ι) : u k ≤ u' k := by
  obtain ⟨i, t, hi, hδt, htM, -⟩ := hs
  rw [update_add_apply]
  split <;> linarith

lemma Steered.le (hδ : 0 < δ) (h : Steered s w C δ M n u u') (k : ι) : u k ≤ u' k := by
  induction h with
  | refl u => exact le_rfl
  | step h hs ih => exact ih.trans (hs.le hδ k)

lemma Steered.grown (hδ : 0 < δ) (hu : ∀ k ∈ s, 0 ≤ u k) (hR : √(∑ k ∈ s, u k ^ 2) ≤ R)
    (h : Steered s w C δ M n u u') : Grown s δ M R n u u' := by
  induction h with
  | refl u =>
      refine ⟨hu, fun _ => le_rfl, by simpa using hR, ?_⟩
      rw [Nat.cast_zero, zero_mul]
      exact Finset.sum_nonneg hu
  | @step n u u' u'' h hs ih =>
      have hgrown := ih hu hR
      have hle := hs.le hδ
      refine ⟨fun k hk => (hgrown.nonneg k hk).trans (hle k), fun k => (hgrown.le k).trans (hle k),
        ?_, ?_⟩
      · obtain ⟨i, t, hi, hδt, htM, -⟩ := hs
        have hlength := hgrown.length_le
        have hstep := sqrt_sum_sq_update_le (u := u') hi (hδ.le.trans hδt)
        push_cast
        linarith
      · obtain ⟨i, t, hi, hδt, htM, -⟩ := hs
        have hsum := hgrown.le_sum
        rw [sum_update_add hi]
        push_cast
        linarith

omit [DecidableEq ι] in
/-- The vector gets long at a constant rate. -/
lemma Grown.sq_le (h : Grown s δ M R n u u') (hδ : 0 < δ) :
    (n * δ) ^ 2 ≤ s.card * ∑ k ∈ s, u' k ^ 2 :=
  (pow_le_pow_left₀ (by positivity) h.le_sum 2).trans sq_sum_le_card_mul_sum_sq

/-- What a step gains when `v` of `C` promises `g`. -/
lemma Steers.gain {g : ℝ} {v : ι} (hs : Steers s w C δ M u u') (hw : ∀ k ∈ s, 0 < w k)
    (hu : ∀ k ∈ s, 0 ≤ u k) (hv : v ∈ C) (hvs : v ∈ s) (hδ : 0 < δ)
    (hr : 1 ≤ √(∑ k ∈ s, u k ^ 2)) (hMr : M ≤ √(∑ k ∈ s, u k ^ 2)) (hg : 0 ≤ g)
    (hpromise : g ≤ 2 * (∑ k ∈ s, w k * u k) *
      (w v * ∑ k ∈ s, u k ^ 2 - (∑ k ∈ s, w k * u k) * u v)) :
    (∑ k ∈ s, w k * u k) ^ 2 / ∑ k ∈ s, u k ^ 2 + δ * g / (16 * (∑ k ∈ s, u k ^ 2) ^ 2) -
        M * (5 + M) * (∑ k ∈ s, w k ^ 2) / ∑ k ∈ s, u k ^ 2 ≤
      (∑ k ∈ s, w k * u' k) ^ 2 / ∑ k ∈ s, u' k ^ 2 := by
  obtain ⟨i, t, hi, hδt, htM, hbetter⟩ := hs
  have hrr := Real.sq_sqrt (sum_sq_nonneg s u)
  have hcc := Real.sq_sqrt (sum_sq_nonneg s w)
  have hgain := ElasticFramework.gain hr hMr
    (Finset.sum_nonneg fun k hk => mul_nonneg (hw k hk).le (hu k hk))
    (Real.sum_mul_le_sqrt_mul_sqrt s w u) (hw i hi).le (le_sqrt_sum_sq hi) (hu i hi)
    (le_sqrt_sum_sq hi) (hu v hvs) (le_sqrt_sum_sq hvs) hδ hδt htM hg (hrr.symm ▸ hpromise)
    (by rw [hrr]; exact (better_iff hvs hi).1 (hbetter v hv))
  rw [hrr, hcc] at hgain
  rw [sum_sq_update hi, sum_mul_update hi]
  exact hgain

omit [DecidableEq ι] in
/-- From some step on the vector is as long as one likes. -/
lemma exists_le_length (hs : s.Nonempty) (hδ : 0 < δ) (B : ℝ) :
    ∃ k₀, 1 ≤ k₀ ∧ ∀ {n : ℕ} {u u' : ι → ℝ}, k₀ ≤ n → Grown s δ M R n u u' →
      B ≤ √(∑ k ∈ s, u' k ^ 2) := by
  have hcard : (1 : ℝ) ≤ s.card := by exact_mod_cast hs.card_pos
  obtain ⟨k₀, hk₀⟩ := exists_nat_ge (|B| * s.card / δ)
  rw [div_le_iff₀ hδ] at hk₀
  refine ⟨k₀ + 1, Nat.le_add_left .., fun {n u u'} hn h => ?_⟩
  refine (le_abs_self B).trans (Real.le_sqrt_of_sq_le ?_)
  have hle : |B| * s.card ≤ n * δ := hk₀.trans (by gcongr; omega)
  refine le_of_mul_le_mul_left ?_ (one_pos.trans_le hcard)
  calc (s.card : ℝ) * |B| ^ 2 ≤ s.card * (s.card * |B| ^ 2) := le_mul_of_one_le_left
        (by positivity) hcard
    _ = (|B| * s.card) ^ 2 := by ring
    _ ≤ (n * δ) ^ 2 := by gcongr
    _ ≤ s.card * ∑ k ∈ s, u' k ^ 2 := h.sq_le hδ

/-! ## Waiting -/

/-- A step while `v` waits, when the vector is long enough. -/
lemma Steers.gain_of_waits {m : ℝ} {v : ι} (hs : Steers s w C δ M u u') (hw : ∀ k ∈ s, 0 < w k)
    (hu : ∀ k ∈ s, 0 ≤ u k) (hv : v ∈ C) (hvs : v ∈ s) (hδ : 0 < δ) (hm : 0 < m)
    (hmw : ∀ k ∈ s, m ≤ w k) (huR : u v ≤ R) (hr : 1 ≤ √(∑ k ∈ s, u k ^ 2))
    (hMr : M ≤ √(∑ k ∈ s, u k ^ 2))
    (hwait : 2 * (√(∑ k ∈ s, w k ^ 2) * R) ≤ w v * √(∑ k ∈ s, u k ^ 2))
    (hturn : M * (5 + M) * (∑ k ∈ s, w k ^ 2) ≤ δ * (m * w v) / 32 * √(∑ k ∈ s, u k ^ 2)) :
    (∑ k ∈ s, w k * u k) ^ 2 / ∑ k ∈ s, u k ^ 2 + δ * (m * w v) / 32 / √(∑ k ∈ s, u k ^ 2) ≤
      (∑ k ∈ s, w k * u' k) ^ 2 / ∑ k ∈ s, u' k ^ 2 := by
  have hinner := mul_sqrt_sum_sq_le hm.le hmw hu
  have hcauchy := Real.sum_mul_le_sqrt_mul_sqrt s w u
  have hrr := Real.sq_sqrt (sum_sq_nonneg s u)
  set a := ∑ k ∈ s, w k * u k with ha
  set b := ∑ k ∈ s, u k ^ 2 with hb
  set r := √b with hrdef
  have hr₀ : 0 < r := one_pos.trans_le hr
  have hb₀ : 0 < b := by rw [← hrr]; positivity
  have ha₀ : 0 < a := (mul_pos hm hr₀).trans_le hinner
  have hwv := hw v hvs
  have hpromise : a * w v * b ≤ 2 * a * (w v * b - a * u v) := by
    have hback : 2 * (a * u v) ≤ w v * b := by
      calc 2 * (a * u v) ≤ 2 * (√(∑ k ∈ s, w k ^ 2) * r * R) := by
            gcongr
            exact hu v hvs
        _ = 2 * (√(∑ k ∈ s, w k ^ 2) * R) * r := by ring
        _ ≤ w v * r * r := by gcongr
        _ = w v * b := by rw [← hrr]; ring
    have hscaled := mul_le_mul_of_nonneg_left hback ha₀.le
    linarith
  have hgain := hs.gain hw hu hv hvs hδ hr hMr (by positivity) hpromise
  have hshare : δ * (m * w v) / 32 / r + M * (5 + M) * (∑ k ∈ s, w k ^ 2) / b ≤
      δ * (a * w v * b) / (16 * b ^ 2) := by
    rw [← hrr, div_add_div _ _ hr₀.ne' (by positivity), div_le_div_iff₀ (by positivity)
      (by positivity)]
    have hle : δ * (m * w v) / 32 * r + M * (5 + M) * (∑ k ∈ s, w k ^ 2) ≤ δ * (a * w v) / 16 := by
      have hpart : δ * (m * w v) * r ≤ δ * (a * w v) := by
        calc δ * (m * w v) * r = δ * (m * r * w v) := by ring
          _ ≤ δ * (a * w v) := by gcongr
      linarith
    calc (δ * (m * w v) / 32 * r ^ 2 + r * (M * (5 + M) * ∑ k ∈ s, w k ^ 2)) * (16 * (r ^ 2) ^ 2)
        = (δ * (m * w v) / 32 * r + M * (5 + M) * ∑ k ∈ s, w k ^ 2) * (16 * r ^ 5) := by ring
      _ ≤ δ * (a * w v) / 16 * (16 * r ^ 5) := by gcongr
      _ = δ * (a * w v * r ^ 2) * (r * r ^ 2) := by ring
  linarith

/-- **Nobody waits for ever.**  The number of steps that pass by a coordinate of `C` is bounded,
however they are chosen, by a number that depends on the vector only through its length. -/
theorem exists_le_of_waits {v : ι} (hw : ∀ k ∈ s, 0 < w k) (hv : v ∈ C) (hvs : v ∈ s) (hδ : 0 < δ)
    (hM : 0 < M) (hR : 0 < R) :
    ∃ N, ∀ {n : ℕ} {u u' : ι → ℝ}, (∀ k ∈ s, 0 ≤ u k) → √(∑ k ∈ s, u k ^ 2) ≤ R →
      Steered s w C δ M n u u' → u' v = u v → n ≤ N := by
  obtain ⟨j, hj, hmw⟩ := s.exists_min_image w ⟨v, hvs⟩
  have hm := hw j hj
  have hwv := hw v hvs
  set η := δ * (w j * w v) / 32 with hη
  have hη₀ : 0 < η := by positivity
  set c := √(∑ k ∈ s, w k ^ 2) with hc
  have hturn₀ : 0 ≤ M * (5 + M) * (∑ k ∈ s, w k ^ 2) :=
    mul_nonneg (by positivity) (sum_sq_nonneg s w)
  obtain ⟨k₀, -, hk₀⟩ := exists_le_length (M := M) (R := R) ⟨v, hvs⟩ hδ
    (1 + M + 2 * (c * R) / w v + M * (5 + M) * (∑ k ∈ s, w k ^ 2) / η)
  obtain ⟨N, hN⟩ := exists_lt_sum_div hη₀ hR hM k₀ (∑ k ∈ s, w k ^ 2)
  refine ⟨N, fun {n u u'} hu hlength hsteered hsame => ?_⟩
  have hgained : ∑ k ∈ Finset.Ico k₀ n, η / (R + k * M) ≤
      (∑ k ∈ s, w k * u' k) ^ 2 / ∑ k ∈ s, u' k ^ 2 := by
    induction hsteered with
    | refl u =>
        rw [Finset.Ico_eq_empty_of_le (Nat.zero_le k₀), Finset.sum_empty]
        exact div_nonneg (sq_nonneg _) (sum_sq_nonneg s u)
    | @step n u u' u'' h hs ih =>
        rcases Nat.lt_or_ge n k₀ with hn | hn
        · rw [Finset.Ico_eq_empty_of_le hn, Finset.sum_empty]
          exact div_nonneg (sq_nonneg _) (sum_sq_nonneg s u'')
        · have hgrown := h.grown hδ hu hlength
          have hsame' : u' v = u v :=
            le_antisymm ((hs.le hδ v).trans hsame.le) (h.le hδ v)
          have hr := hk₀ hn hgrown
          set r := √(∑ k ∈ s, u' k ^ 2) with hrdef
          have hwait₀ : 0 ≤ 2 * (c * R) / w v := by positivity
          have hturn₁ : 0 ≤ M * (5 + M) * (∑ k ∈ s, w k ^ 2) / η := div_nonneg hturn₀ hη₀.le
          have hwait : 2 * (c * R) / w v ≤ r := by linarith
          have hturn : M * (5 + M) * (∑ k ∈ s, w k ^ 2) / η ≤ r := by linarith
          rw [div_le_iff₀' hwv] at hwait
          rw [div_le_iff₀' hη₀] at hturn
          have huR : u' v ≤ R := hsame'.trans_le ((le_sqrt_sum_sq hvs).trans hlength)
          have hgain := hs.gain_of_waits hw hgrown.nonneg hv hvs hδ hm hmw huR (by linarith)
            (by linarith) hwait hturn
          have hshare : η / (R + n * M) ≤ η / r :=
            div_le_div_of_nonneg_left hη₀.le (by linarith) hgrown.length_le
          have hold := ih hu hlength hsame'
          rw [Finset.sum_Ico_succ_top hn]
          linarith
  by_contra hn
  have hmono := sum_div_mono hη₀ hR hM k₀ (not_le.1 hn).le
  have hbound := hgained.trans sq_sum_div_le
  linarith

/-! ## The direction -/

/-- What the squared cosine is short of one. -/
noncomputable def missing (s : Finset ι) (w u : ι → ℝ) : ℝ :=
  1 - (∑ k ∈ s, w k * u k) ^ 2 / ((∑ k ∈ s, w k ^ 2) * ∑ k ∈ s, u k ^ 2)

omit [DecidableEq ι] in
lemma missing_nonneg : 0 ≤ missing s w u := by
  have hle : (∑ k ∈ s, w k * u k) ^ 2 / ((∑ k ∈ s, w k ^ 2) * ∑ k ∈ s, u k ^ 2) ≤ 1 :=
    div_le_one_of_le₀ (Finset.sum_mul_sq_le_sq_mul_sq s w u)
      (mul_nonneg (sum_sq_nonneg s w) (sum_sq_nonneg s u))
  rw [missing]
  linarith

omit [DecidableEq ι] in
lemma missing_le_one : missing s w u ≤ 1 := by
  have hle : 0 ≤ (∑ k ∈ s, w k * u k) ^ 2 / ((∑ k ∈ s, w k ^ 2) * ∑ k ∈ s, u k ^ 2) :=
    div_nonneg (sq_nonneg _) (mul_nonneg (sum_sq_nonneg s w) (sum_sq_nonneg s u))
  rw [missing]
  linarith

omit [DecidableEq ι] in
/-- Some coordinate promises its part of what is missing. -/
lemma exists_promise (hs : s.Nonempty) (hw : ∀ k ∈ s, 0 < w k) :
    ∃ v ∈ s, ((∑ k ∈ s, w k ^ 2) * (∑ k ∈ s, u k ^ 2) - (∑ k ∈ s, w k * u k) ^ 2) / ∑ k ∈ s, w k ≤
      w v * (∑ k ∈ s, u k ^ 2) - (∑ k ∈ s, w k * u k) * u v := by
  set a := ∑ k ∈ s, w k * u k with ha
  set b := ∑ k ∈ s, u k ^ 2 with hb
  have hsum : 0 < ∑ k ∈ s, w k := Finset.sum_pos hw hs
  have htotal : ∑ k ∈ s, w k * ((((∑ k ∈ s, w k ^ 2) * b) - a ^ 2) / ∑ k ∈ s, w k) ≤
      ∑ k ∈ s, w k * (w k * b - a * u k) := by
    have hright : ∑ k ∈ s, w k * (w k * b - a * u k) = (∑ k ∈ s, w k ^ 2) * b - a ^ 2 := by
      have hterm : ∀ k, w k * (w k * b - a * u k) = w k ^ 2 * b - w k * u k * a := fun k => by ring
      simp only [hterm, Finset.sum_sub_distrib, ← Finset.sum_mul, ← ha]
      ring
    rw [hright, ← Finset.sum_mul, mul_div_cancel₀ _ hsum.ne']
  obtain ⟨v, hv, hle⟩ := Finset.exists_le_of_sum_le hs htotal
  exact ⟨v, hv, le_of_mul_le_mul_left hle (hw v hv)⟩

/-- What a step leaves missing. -/
lemma Steers.missing_le {m : ℝ} (h : Steers s w C δ M u u') (hw : ∀ k ∈ s, 0 < w k)
    (hu : ∀ k ∈ s, 0 ≤ u k) (hC : ∀ k ∈ s, k ∈ C) (hs : s.Nonempty) (hδ : 0 < δ) (hm : 0 < m)
    (hmw : ∀ k ∈ s, m ≤ w k) (hr : 1 ≤ √(∑ k ∈ s, u k ^ 2)) (hMr : M ≤ √(∑ k ∈ s, u k ^ 2)) :
    missing s w u' ≤ missing s w u -
      δ * m / (8 * ∑ k ∈ s, w k) * missing s w u / √(∑ k ∈ s, u k ^ 2) +
        M * (5 + M) / ∑ k ∈ s, u k ^ 2 := by
  obtain ⟨v, hvs, hle⟩ := exists_promise (u := u) hs hw
  have hinner := mul_sqrt_sum_sq_le hm.le hmw hu
  have hrr := Real.sq_sqrt (sum_sq_nonneg s u)
  have hmissing := missing_nonneg (s := s) (w := w) (u := u)
  have hsum : 0 < ∑ k ∈ s, w k := Finset.sum_pos hw hs
  have hww : 0 < ∑ k ∈ s, w k ^ 2 := Finset.sum_pos (fun k hk => pow_pos (hw k hk) 2) hs
  have hr₀ : 0 < √(∑ k ∈ s, u k ^ 2) := one_pos.trans_le hr
  have hb₀ : 0 < ∑ k ∈ s, u k ^ 2 := by rw [← hrr]; positivity
  have ha₀ : 0 < ∑ k ∈ s, w k * u k := (mul_pos hm hr₀).trans_le hinner
  have hsplit : ∀ u : ι → ℝ, (∑ k ∈ s, w k * u k) ^ 2 / ∑ k ∈ s, u k ^ 2 =
      (∑ k ∈ s, w k ^ 2) * (1 - missing s w u) := by
    intro u
    rw [missing, sub_sub_cancel, div_mul_eq_div_div_swap, mul_div_cancel₀ _ hww.ne']
  have hpart : (∑ k ∈ s, w k ^ 2) * (∑ k ∈ s, u k ^ 2) - (∑ k ∈ s, w k * u k) ^ 2 =
      (∑ k ∈ s, w k ^ 2) * ((∑ k ∈ s, u k ^ 2) * missing s w u) := by
    rw [missing]
    field_simp
  rw [hpart] at hle
  have hpromise := mul_le_mul_of_nonneg_left hle (mul_pos two_pos ha₀).le
  have hgain := h.gain hw hu (hC v hvs) hvs hδ hr hMr (by positivity) hpromise
  rw [hsplit u, hsplit u'] at hgain
  set e := missing s w u with he
  set q := ∑ k ∈ s, w k with hq
  set b := ∑ k ∈ s, u k ^ 2 with hb
  set r := √b with hrdef
  have hshare : (∑ k ∈ s, w k ^ 2) * (δ * m / (8 * q) * e / r) ≤
      δ * (2 * (∑ k ∈ s, w k * u k) * ((∑ k ∈ s, w k ^ 2) * (b * e) / q)) / (16 * b ^ 2) := by
    calc (∑ k ∈ s, w k ^ 2) * (δ * m / (8 * q) * e / r)
        = δ * (∑ k ∈ s, w k ^ 2) * e / (8 * q * r ^ 2) * (m * r) := by field_simp
      _ ≤ δ * (∑ k ∈ s, w k ^ 2) * e / (8 * q * r ^ 2) * ∑ k ∈ s, w k * u k := by gcongr
      _ = _ := by
        rw [hrr]
        field_simp
        ring
  refine le_of_mul_le_mul_left ?_ hww
  calc (∑ k ∈ s, w k ^ 2) * missing s w u'
      ≤ (∑ k ∈ s, w k ^ 2) * e - (∑ k ∈ s, w k ^ 2) * (δ * m / (8 * q) * e / r) +
          M * (5 + M) * (∑ k ∈ s, w k ^ 2) / b := by linarith
    _ = _ := by ring

/-- The error of a step, and the rest of all errors after it. -/
lemma error_le {c b : ℝ} (hc : 0 ≤ c) (hb : 0 < b) (hn : 1 ≤ n) (hδ : 0 < δ) {N : ℕ}
    (hle : (n * δ) ^ 2 ≤ N * b) :
    c / b + 2 * (c * N / δ ^ 2) / (n + 1 : ℕ) ≤ 2 * (c * N / δ ^ 2) / n := by
  have hn₁ : (1 : ℝ) ≤ n := by exact_mod_cast hn
  have hn₀ : (0 : ℝ) < n := one_pos.trans_le hn₁
  set q := c * N / δ ^ 2 with hq
  have hq₀ : 0 ≤ q := by positivity
  have hone : c / b ≤ q / n ^ 2 := by
    rw [hq, div_div, div_le_div_iff₀ hb (by positivity)]
    calc c * (δ ^ 2 * n ^ 2) = c * (n * δ) ^ 2 := by ring
      _ ≤ c * (N * b) := by gcongr
      _ = c * N * b := by ring
  have htwo : q / n ^ 2 + 2 * q / (n + 1) ≤ 2 * q / n := by
    rw [div_add_div _ _ (by positivity) (by positivity), div_le_div_iff₀ (by positivity) hn₀]
    have hdiff : 2 * q * (n ^ 2 * (n + 1)) - (q * (n + 1) + n ^ 2 * (2 * q)) * n =
        q * n * (n - 1) := by ring
    have hpos : 0 ≤ q * n * (n - 1) := mul_nonneg (by positivity) (by linarith)
    linarith
  push_cast
  linarith

/-- What a step leaves missing of a long vector, together with the errors still to come. -/
lemma Steers.missing_add_le {m : ℝ} (h : Steers s w C δ M u' u'') (hgrown : Grown s δ M R n u u')
    (hw : ∀ k ∈ s, 0 < w k) (hC : ∀ k ∈ s, k ∈ C) (hs : s.Nonempty) (hδ : 0 < δ) (hM : 0 < M)
    (hm : 0 < m) (hmw : ∀ k ∈ s, m ≤ w k) (hn : 1 ≤ n) (hr : 1 + M ≤ √(∑ k ∈ s, u' k ^ 2)) :
    missing s w u'' + 2 * (M * (5 + M) * s.card / δ ^ 2) / (n + 1 : ℕ) ≤
      missing s w u' + 2 * (M * (5 + M) * s.card / δ ^ 2) / n -
        δ * m / (8 * ∑ k ∈ s, w k) * missing s w u' / (R + n * M) := by
  have hsum : 0 < ∑ k ∈ s, w k := Finset.sum_pos hw hs
  have hr₀ : 0 < √(∑ k ∈ s, u' k ^ 2) := by linarith
  have hmissing := h.missing_le hw hgrown.nonneg hC hs hδ hm hmw (by linarith) (by linarith)
  have herror := error_le (c := M * (5 + M)) (by positivity) (Real.sqrt_pos.1 hr₀) hn hδ
    (hgrown.sq_le hδ)
  have hshare : δ * m / (8 * ∑ k ∈ s, w k) * missing s w u' / (R + n * M) ≤
      δ * m / (8 * ∑ k ∈ s, w k) * missing s w u' / √(∑ k ∈ s, u' k ^ 2) :=
    div_le_div_of_nonneg_left (mul_nonneg (by positivity) missing_nonneg) hr₀ hgrown.length_le
  linarith

/-- When all coordinates are in `C`, what is missing goes to zero. -/
lemma exists_missing_le {ε : ℝ} (hs : s.Nonempty) (hw : ∀ k ∈ s, 0 < w k) (hC : ∀ k ∈ s, k ∈ C)
    (hδ : 0 < δ) (hM : 0 < M) (hR : 0 < R) (hε : 0 < ε) :
    ∃ N, ∀ {n : ℕ} {u u' : ι → ℝ}, N ≤ n → (∀ k ∈ s, 0 ≤ u k) → √(∑ k ∈ s, u k ^ 2) ≤ R →
      Steered s w C δ M n u u' → missing s w u' ≤ ε := by
  obtain ⟨j, hj, hmw⟩ := s.exists_min_image w hs
  have hm := hw j hj
  have hsum : 0 < ∑ k ∈ s, w k := Finset.sum_pos hw hs
  set κ := δ * w j / (8 * ∑ k ∈ s, w k) with hκ
  have hκ₀ : 0 < κ := by positivity
  set q := M * (5 + M) * s.card / δ ^ 2 with hq
  have hq₀ : 0 ≤ q := by positivity
  obtain ⟨k₀, hk₀, hlong⟩ := exists_le_length (M := M) (R := R) hs hδ (1 + M)
  obtain ⟨k₁, hk₁⟩ := exists_nat_ge (4 * q / ε)
  set K := max k₀ (k₁ + 1) with hK
  have hKpos : 1 ≤ K := hk₀.trans (le_max_left ..)
  -- the errors from `K` on come to less than the half of `ε`
  have hrest : ∀ n : ℕ, K ≤ n → 2 * q / n ≤ ε / 2 := by
    intro n hn
    have hn₁ : (k₁ : ℝ) ≤ n := by
      exact_mod_cast (Nat.le_succ k₁).trans ((le_max_right ..).trans hn)
    have hn₀ : (0 : ℝ) < n := by exact_mod_cast hKpos.trans hn
    have hle := hk₁.trans hn₁
    rw [div_le_iff₀ hε] at hle
    rw [div_le_div_iff₀ hn₀ two_pos]
    linarith
  obtain ⟨N, hN⟩ := exists_lt_sum_div (η := κ * (ε / 2)) (by positivity) hR hM K (1 + ε / 2)
  refine ⟨max K N, fun {n u u'} hn hu hlength hsteered => ?_⟩
  have hinv : K ≤ n → missing s w u' + 2 * q / n ≤ ε ∨
      missing s w u' + 2 * q / n + ∑ k ∈ Finset.Ico K n, κ * (ε / 2) / (R + k * M) ≤
        1 + ε / 2 := by
    clear hn
    induction hsteered with
    | refl u => exact fun hn => absurd (hKpos.trans hn) (by decide)
    | @step n u u' u'' h hstep ih =>
        intro hn
        rcases Nat.lt_or_ge n K with hlt | hge
        · refine .inr ?_
          rw [Finset.Ico_eq_empty_of_le hlt, Finset.sum_empty]
          have hone := missing_le_one (s := s) (w := w) (u := u'')
          linarith [hrest _ hn]
        · have hgrown := h.grown hδ hu hlength
          have hshrunk := hstep.missing_add_le hgrown hw hC hs hδ hM hm hmw (hKpos.trans hge)
            (hlong ((le_max_left ..).trans hge) hgrown)
          have hshare₀ : 0 ≤ κ * missing s w u' / (R + n * M) :=
            div_nonneg (mul_nonneg hκ₀.le missing_nonneg) (by positivity)
          rcases ih hu hlength hge with hle | hle
          · exact .inl (by linarith)
          · rcases le_or_gt (missing s w u') (ε / 2) with hsmall | hlarge
            · exact .inl (by linarith [hrest n hge])
            · refine .inr ?_
              have hpart : κ * (ε / 2) / (R + n * M) ≤ κ * missing s w u' / (R + n * M) := by
                gcongr
              rw [Finset.sum_Ico_succ_top hge]
              linarith
  have hKn : K ≤ n := (le_max_left ..).trans hn
  have hpos : 0 ≤ 2 * q / n := by positivity
  rcases hinv hKn with hle | hle
  · linarith
  · have hmono := sum_div_mono (η := κ * (ε / 2)) (by positivity) hR hM K
      ((le_max_right ..).trans hn)
    have hnonneg := missing_nonneg (s := s) (w := w) (u := u')
    linarith

omit [DecidableEq ι] in
/-- Shares of two vectors of nearly the same direction. -/
lemma abs_share_sub_le {i : ι} (hw : ∀ k ∈ s, 0 < w k) (hu : ∀ k ∈ s, 0 ≤ u k) (hi : i ∈ s)
    (hpos : 0 < ∑ k ∈ s, u k ^ 2) :
    |u i / ∑ k ∈ s, u k - w i / ∑ k ∈ s, w k| ≤ (s.card + 1) * √(missing s w u) := by
  have hs : s.Nonempty := ⟨i, hi⟩
  have hsum : 0 < ∑ k ∈ s, w k := Finset.sum_pos hw hs
  have hww : 0 < ∑ k ∈ s, w k ^ 2 := Finset.sum_pos (fun k hk => pow_pos (hw k hk) 2) hs
  set a := ∑ k ∈ s, w k * u k with ha
  set b := ∑ k ∈ s, u k ^ 2 with hb
  set e := missing s w u with he
  have hr₀ : 0 < √b := Real.sqrt_pos.2 hpos
  have hru : √b ≤ ∑ k ∈ s, u k :=
    (Real.sqrt_le_left (Finset.sum_nonneg hu)).2 (Finset.sum_sq_le_sq_sum_of_nonneg hu)
  -- the distance from the multiple of `w` that is nearest
  set l := a / ∑ k ∈ s, w k ^ 2 with hl
  have hdistance : ∑ k ∈ s, (u k - l * w k) ^ 2 = b * e := by
    have hterm : ∀ k, (u k - l * w k) ^ 2 = u k ^ 2 - 2 * l * (w k * u k) + l ^ 2 * w k ^ 2 :=
      fun k => by ring
    simp only [hterm, Finset.sum_add_distrib, Finset.sum_sub_distrib, ← Finset.mul_sum, ← ha, ← hb]
    rw [he, missing, ← ha, ← hb, hl]
    field_simp
    ring
  have hnear : ∀ k ∈ s, |u k - l * w k| ≤ √b * √e := by
    intro k hk
    rw [← Real.sqrt_mul hpos.le, ← hdistance]
    exact Real.abs_le_sqrt (Finset.single_le_sum (f := fun k => (u k - l * w k) ^ 2)
      (fun k _ => sq_nonneg _) hk)
  have htotal : |∑ k ∈ s, (u k - l * w k)| ≤ s.card * (√b * √e) := by
    refine (Finset.abs_sum_le_sum_abs _ _).trans ?_
    rw [← nsmul_eq_mul]
    exact Finset.sum_le_card_nsmul _ _ _ hnear
  have hcross : |u i * (∑ k ∈ s, w k) - (∑ k ∈ s, u k) * w i| ≤
      (s.card + 1) * √e * (√b * ∑ k ∈ s, w k) := by
    have hwi : w i ≤ ∑ k ∈ s, w k := Finset.single_le_sum (fun k hk => (hw k hk).le) hi
    have hsplit : u i * (∑ k ∈ s, w k) - (∑ k ∈ s, u k) * w i =
        (u i - l * w i) * (∑ k ∈ s, w k) - (∑ k ∈ s, (u k - l * w k)) * w i := by
      rw [Finset.sum_sub_distrib, ← Finset.mul_sum]
      ring
    have hwi₀ := (hw i hi).le
    calc |u i * (∑ k ∈ s, w k) - (∑ k ∈ s, u k) * w i|
        ≤ |(u i - l * w i) * ∑ k ∈ s, w k| + |(∑ k ∈ s, (u k - l * w k)) * w i| := by
          rw [hsplit]
          exact abs_sub _ _
      _ = |u i - l * w i| * (∑ k ∈ s, w k) + |∑ k ∈ s, (u k - l * w k)| * w i := by
          rw [abs_mul, abs_mul, abs_of_pos hsum, abs_of_nonneg hwi₀]
      _ ≤ √b * √e * (∑ k ∈ s, w k) + s.card * (√b * √e) * ∑ k ∈ s, w k := by
          gcongr
          exact hnear i hi
      _ = (s.card + 1) * √e * (√b * ∑ k ∈ s, w k) := by ring
  have hu₀ : 0 < ∑ k ∈ s, u k := hr₀.trans_le hru
  rw [div_sub_div _ _ hu₀.ne' hsum.ne', abs_div, abs_of_pos (mul_pos hu₀ hsum),
    div_le_iff₀ (mul_pos hu₀ hsum)]
  refine hcross.trans ?_
  gcongr

/-- **The shares.**  When all coordinates are in `C`, those of `u` become those of `w`. -/
theorem exists_shares_le {ε : ℝ} (hs : s.Nonempty) (hw : ∀ k ∈ s, 0 < w k) (hC : ∀ k ∈ s, k ∈ C)
    (hδ : 0 < δ) (hM : 0 < M) (hR : 0 < R) (hε : 0 < ε) :
    ∃ N, ∀ {n : ℕ} {u u' : ι → ℝ}, N ≤ n → (∀ k ∈ s, 0 ≤ u k) → √(∑ k ∈ s, u k ^ 2) ≤ R →
      Steered s w C δ M n u u' →
        ∀ i ∈ s, |u' i / ∑ k ∈ s, u' k - w i / ∑ k ∈ s, w k| ≤ ε := by
  have hcard : (0 : ℝ) < s.card + 1 := by positivity
  obtain ⟨N, hN⟩ := exists_missing_le (ε := (ε / (s.card + 1)) ^ 2) hs hw hC hδ hM hR
    (by positivity)
  obtain ⟨k₀, -, hk₀⟩ := exists_le_length (M := M) (R := R) hs hδ 1
  refine ⟨max N k₀, fun {n u u'} hn hu hlength hsteered i hi => ?_⟩
  have hgrown := hsteered.grown hδ hu hlength
  have hpos : 0 < ∑ k ∈ s, u' k ^ 2 :=
    Real.sqrt_pos.1 (one_pos.trans_le (hk₀ ((le_max_right ..).trans hn) hgrown))
  have hmissing := hN ((le_max_left ..).trans hn) hu hlength hsteered
  refine (abs_share_sub_le hw hgrown.nonneg hi hpos).trans ?_
  calc (s.card + 1) * √(missing s w u') ≤ (s.card + 1) * (ε / (s.card + 1)) := by
        gcongr
        exact (Real.sqrt_le_left (by positivity)).2 hmissing
    _ = ε := mul_div_cancel₀ ε hcard.ne'

end Steps

end ElasticFramework
