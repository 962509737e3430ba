import Mathlib.Algebra.BigOperators.Ring.Finset
import Mathlib.Algebra.Order.BigOperators.Group.Finset

/-!
# Weighted rotation

Turns go to members with weights, each turn to a member for which the turns it
would then have had are least in proportion to its weight. Ratios are compared
crosswise.

* `Fair.turn`: such a turn keeps the rotation fair;
* `Fair.share`: in a fair rotation no member is more than one turn short of its share.
-/

namespace Rotation

variable {A : Type} {members : Finset A} {weight turns : A → Nat}

/-- No member is a whole turn ahead of another. -/
def Fair (members : Finset A) (weight turns : A → Nat) : Prop :=
  ∀ i ∈ members, ∀ j ∈ members, turns i * weight j ≤ (turns j + 1) * weight i

/-- The turn may go to `k`. -/
def Next (members : Finset A) (weight turns : A → Nat) (k : A) : Prop :=
  ∀ j ∈ members, (turns k + 1) * weight j ≤ (turns j + 1) * weight k

theorem fair_zero : Fair members weight fun _ => 0 := by
  intro i _ j _
  simp

theorem Fair.congr {turns' : A → Nat} (fair : Fair members weight turns)
    (same : ∀ i ∈ members, turns' i = turns i) : Fair members weight turns' := by
  intro i hi j hj
  rw [same i hi, same j hj]
  exact fair i hi j hj

theorem Fair.turn [DecidableEq A] {k : A} (fair : Fair members weight turns)
    (next : Next members weight turns k) :
    Fair members weight (Function.update turns k (turns k + 1)) := by
  intro i hi j hj
  -- Only `k` has more turns than before, so the right side has not become less.
  have grown : turns j ≤ Function.update turns k (turns k + 1) j := by
    by_cases here : j = k
    · subst here
      simp
    · simp [here]
  have right : (turns j + 1) * weight i ≤
      (Function.update turns k (turns k + 1) j + 1) * weight i :=
    Nat.mul_le_mul_right _ (Nat.succ_le_succ grown)
  by_cases here : i = k
  · subst here
    rw [Function.update_self]
    exact Nat.le_trans (next j hj) right
  · rw [Function.update_of_ne here]
    exact Nat.le_trans (fair i hi j hj) right

/-- A member lacks at most one turn of its share. -/
theorem Fair.share {i : A} (fair : Fair members weight turns) (hi : i ∈ members) :
    (∑ j ∈ members, turns j) * weight i ≤ (turns i + 1) * ∑ j ∈ members, weight j := by
  rw [Finset.sum_mul, Finset.mul_sum]
  exact Finset.sum_le_sum fun j hj => fair j hj i hi

end Rotation
