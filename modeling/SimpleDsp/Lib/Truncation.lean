import Mathlib.Data.Rat.Floor
import Mathlib.Tactic.Linarith

/-!
# Truncation

Rational numbers cut off toward zero, as a conversion to an integer type does.

* `truncated_mono`: the order is kept, but not strictly;
* `truncated_between`: the numbers that stay between two integers around zero.
-/

namespace Truncation

def truncated (q : Rat) : Int := if 0 ≤ q then q.floor else q.ceil

@[simp] theorem truncated_intCast (v : Int) : truncated (v : Rat) = v := by
  unfold truncated
  split
  · exact Rat.floor_intCast v
  · exact Rat.ceil_intCast v

theorem truncated_nonneg {q : Rat} (h : 0 ≤ q) : 0 ≤ truncated q := by
  rw [truncated, if_pos h]
  exact Rat.le_floor_iff.mpr (by exact_mod_cast h)

theorem truncated_nonpos {q : Rat} (h : q < 0) : truncated q ≤ 0 := by
  rw [truncated, if_neg (by linarith)]
  exact Rat.ceil_le_iff.mpr (by exact_mod_cast h.le)

theorem truncated_mono {a b : Rat} (h : a ≤ b) : truncated a ≤ truncated b := by
  by_cases ha : 0 ≤ a
  · rw [truncated, truncated, if_pos ha, if_pos (ha.trans h)]
    exact Rat.floor_monotone h
  · have neg : a < 0 := lt_of_not_ge ha
    by_cases hb : 0 ≤ b
    · exact (truncated_nonpos neg).trans (truncated_nonneg hb)
    · rw [truncated, truncated, if_neg ha, if_neg hb]
      exact Rat.ceil_le_iff.mpr (h.trans Rat.le_ceil)

theorem le_truncated_iff {lo : Int} (low : lo ≤ 0) {q : Rat} :
    lo ≤ truncated q ↔ (lo : Rat) - 1 < q := by
  have cast : (lo : Rat) ≤ 0 := by exact_mod_cast low
  by_cases hq : 0 ≤ q
  · have nonneg := truncated_nonneg hq
    constructor
    · intro _
      linarith
    · intro _
      omega
  · rw [truncated, if_neg hq, ← Int.sub_one_lt_iff, Rat.lt_ceil_iff]
    push_cast
    rfl

theorem truncated_le_iff {hi : Int} (high : 0 ≤ hi) {q : Rat} :
    truncated q ≤ hi ↔ q < (hi : Rat) + 1 := by
  have cast : (0 : Rat) ≤ hi := by exact_mod_cast high
  by_cases hq : 0 ≤ q
  · rw [truncated, if_pos hq, ← Int.lt_add_one_iff, Rat.floor_lt_iff]
    push_cast
    rfl
  · have nonpos := truncated_nonpos (lt_of_not_ge hq)
    constructor
    · intro _
      linarith
    · intro _
      omega

theorem truncated_between {lo hi : Int} (low : lo ≤ 0) (high : 0 ≤ hi) {q : Rat} :
    lo ≤ truncated q ∧ truncated q ≤ hi ↔ (lo : Rat) - 1 < q ∧ q < (hi : Rat) + 1 :=
  and_congr (le_truncated_iff low) (truncated_le_iff high)

end Truncation
