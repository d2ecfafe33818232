import ElasticFramework.Framework.Arith
import ElasticFramework.Framework.Tally
import Mathlib.Tactic.Linarith
import Mathlib.Tactic.Positivity

/-!
# Cosines of vectors with listed coordinates

`cosine l u w` is the cosine between the vectors `u` and `w` over the coordinates in `l`.  A code
that keeps the inner product and the squared lengths of two vectors can tell what the cosine would
be if one coordinate of `w` were to grow: `cosine_update` is the formula, and `cosine_update_pos`
says that the result is positive when the vectors are.
-/

namespace ElasticFramework

variable {ι : Type*} {l : List ι} {u w : ι → ℝ} {i : ι} {d : ℝ}

/-- The cosine between `u` and `w`. -/
noncomputable def cosine (l : List ι) (u w : ι → ℝ) : ℝ :=
  (l.map fun j => u j * w j).sum /
    (√(l.map fun j => u j ^ 2).sum * √(l.map fun j => w j ^ 2).sum)

/-- The squared length of a vector with a coordinate that is not zero. -/
lemma sum_sq_pos (hi : i ∈ l) (hu : u i ≠ 0) : 0 < (l.map fun j => u j ^ 2).sum := by
  have hle : u i ^ 2 ≤ (l.map fun j => u j ^ 2).sum := by
    refine List.single_le_sum (fun x hx => ?_) _ (List.mem_map.2 ⟨i, hi, rfl⟩)
    obtain ⟨j, -, rfl⟩ := List.mem_map.1 hx
    positivity
  exact lt_of_lt_of_le (by positivity) hle

/-- Two vectors that make acute angles with a third are compared by sums of products alone. -/
lemma cosine_le_cosine_iff {v : ι → ℝ} (hu : 0 < (l.map fun j => u j ^ 2).sum)
    (hv : 0 < (l.map fun j => v j ^ 2).sum) (hw : 0 < (l.map fun j => w j ^ 2).sum)
    (huv : 0 ≤ (l.map fun j => u j * v j).sum) (huw : 0 ≤ (l.map fun j => u j * w j).sum) :
    cosine l u v ≤ cosine l u w ↔
      (l.map fun j => u j * v j).sum ^ 2 * (l.map fun j => w j ^ 2).sum ≤
        (l.map fun j => u j * w j).sum ^ 2 * (l.map fun j => v j ^ 2).sum :=
  div_sqrt_le_div_sqrt_iff huv huw hu hv hw

variable [DecidableEq ι]

/-- The cosine after one coordinate has grown, from the sums before. -/
lemma cosine_update (hl : l.Nodup) (hi : i ∈ l) :
    cosine l u (Function.update w i (w i + d)) =
      ((l.map fun j => u j * w j).sum + d * u i) /
        (√(l.map fun j => u j ^ 2).sum *
          √((l.map fun j => w j ^ 2).sum + (2 * w i * d + d ^ 2))) := by
  have hsame : ∀ j, j ≠ i → Function.update w i (w i + d) j = w j :=
    fun j hj => Function.update_of_ne hj _ _
  have hinner := sum_map_update hl hi (f := fun j => u j * w j)
    (g := fun j => u j * Function.update w i (w i + d) j)
    (fun j _ hj => by rw [hsame j hj])
  have hsquare := sum_map_update hl hi (f := fun j => w j ^ 2)
    (g := fun j => Function.update w i (w i + d) j ^ 2) (fun j _ hj => by rw [hsame j hj])
  rw [Function.update_self] at hinner hsquare
  have hinner' : (l.map fun j => u j * Function.update w i (w i + d) j).sum =
      (l.map fun j => u j * w j).sum + d * u i := by
    linarith
  have hsquare' : (l.map fun j => Function.update w i (w i + d) j ^ 2).sum =
      (l.map fun j => w j ^ 2).sum + (2 * w i * d + d ^ 2) := by
    linarith
  rw [cosine, hinner', hsquare']

/-- Vectors in the positive quadrant make an acute angle. -/
lemma cosine_update_pos (hl : l.Nodup) (hi : i ∈ l) (hu : ∀ j ∈ l, 0 < u j)
    (hw : ∀ j ∈ l, 0 ≤ w j) (hd : 0 < d) :
    0 < cosine l u (Function.update w i (w i + d)) := by
  have hinner : 0 ≤ (l.map fun j => u j * w j).sum := by
    refine List.sum_nonneg fun x hx => ?_
    obtain ⟨j, hj, rfl⟩ := List.mem_map.1 hx
    exact mul_nonneg (hu j hj).le (hw j hj)
  have hsquare : 0 ≤ (l.map fun j => w j ^ 2).sum := by
    refine List.sum_nonneg fun x hx => ?_
    obtain ⟨j, -, rfl⟩ := List.mem_map.1 hx
    positivity
  have hui := hu i hi
  have hwi := hw i hi
  have hlength := sum_sq_pos hi hui.ne'
  rw [cosine_update hl hi]
  positivity

end ElasticFramework
