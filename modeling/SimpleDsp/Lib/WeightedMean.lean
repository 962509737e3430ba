import Mathlib.Algebra.BigOperators.Ring.List
import Mathlib.Algebra.Order.BigOperators.Group.List
import Mathlib.Algebra.Order.Field.Basic

/-!
# Weighted means

* `mean_perm`: the order of the items does not matter;
* `le_mean`, `mean_le`: with weights that are not negative, the mean is between the
  values.
-/

namespace WeightedMean

variable {A K : Type} [Field K] (w e : A → K)

/-- Without any weight, zero. -/
def mean (l : List A) : K := (l.map fun a => w a * e a).sum / (l.map w).sum

variable {w e} {l l' : List A}

theorem mean_perm (h : l.Perm l') : mean w e l = mean w e l' := by
  rw [mean, mean, (h.map _).sum_eq, (h.map w).sum_eq]

section
variable [LinearOrder K] [IsStrictOrderedRing K]

theorem le_mean {lo : K} (nonneg : ∀ a ∈ l, 0 ≤ w a) (some : 0 < (l.map w).sum)
    (bound : ∀ a ∈ l, lo ≤ e a) : lo ≤ mean w e l := by
  rw [mean, le_div_iff₀ some]
  calc lo * (l.map w).sum = (l.map fun a => lo * w a).sum := (List.sum_map_mul_left ..).symm
    _ ≤ (l.map fun a => w a * e a).sum := by
      apply List.sum_le_sum
      intro a ha
      rw [mul_comm lo]
      exact mul_le_mul_of_nonneg_left (bound a ha) (nonneg a ha)

theorem mean_le {hi : K} (nonneg : ∀ a ∈ l, 0 ≤ w a) (some : 0 < (l.map w).sum)
    (bound : ∀ a ∈ l, e a ≤ hi) : mean w e l ≤ hi := by
  rw [mean, div_le_iff₀ some]
  calc (l.map fun a => w a * e a).sum ≤ (l.map fun a => hi * w a).sum := by
        apply List.sum_le_sum
        intro a ha
        rw [mul_comm hi]
        exact mul_le_mul_of_nonneg_left (bound a ha) (nonneg a ha)
    _ = hi * (l.map w).sum := List.sum_map_mul_left ..

end

end WeightedMean
