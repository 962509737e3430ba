import SimpleDsp.Lib.Rotation
import Mathlib.Logic.Function.Basic

/-!
# Rotation by readings that may be late

Several workers give turns to members with weights. A worker reads the turns of the members,
one after the other, and later gives a turn by what it has read, while others go on.

* `Late.turn`: what such a turn keeps;
* `Late.crosswise`: with `n` workers a member is less than `n` turns ahead of another;
* `Late.share`: so no member is far short of its share.
-/

namespace Rotation

variable {A : Type} {members : Finset A} {weight turns : A → Nat}

/-- By the readings `seen` the turn may go to `k`. -/
def Least (members : Finset A) (weight : A → Nat) (seen : A → Option Nat) (k : A) : Prop :=
  ∃ x, seen k = some x ∧
    ∀ j ∈ members, ∃ y, seen j = some y ∧ (x + 1) * weight j ≤ (y + 1) * weight k

/-- The workers that have read less than `m` turns of `a`, and have not given one since. -/
def behind (seen : Nat → A → Option Nat) (n : Nat) (a : A) (m : Nat) : Finset Nat :=
  (Finset.range n).filter fun i => ∃ x, seen i a = some x ∧ x < m

/-- By `y` turns of `b` no worker gives a turn to `a` once it has read `m`. -/
def Enough (weight : A → Nat) (a b : A) (y m : Nat) : Prop :=
  ∀ x, (x + 1) * weight b ≤ (y + 1) * weight a → x < m

/-- What the readings of `n` workers have to do with the turns. A member that has enough gets
one more from each worker at most that has read too little, and one worker has just given. -/
structure Late (members : Finset A) (weight turns : A → Nat) (seen : Nat → A → Option Nat)
    (n : Nat) : Prop where
  past : ∀ i, ∀ a ∈ members, ∀ x, seen i a = some x → x ≤ turns a
  few : ∀ a ∈ members, ∀ b ∈ members, ∀ m, Enough weight a b (turns b) m →
    turns a < m ∨ turns a + (behind seen n a m).card ≤ m + (n - 1)

theorem mem_behind {seen : Nat → A → Option Nat} {n i m : Nat} {a : A} :
    i ∈ behind seen n a m ↔ i < n ∧ ∃ x, seen i a = some x ∧ x < m := by
  simp [behind]

theorem Enough.mono {a b : A} {y y' m : Nat} (h : Enough weight a b y' m) (le : y ≤ y') :
    Enough weight a b y m :=
  fun x small => h x (small.trans (Nat.mul_le_mul_right _ (Nat.succ_le_succ le)))

theorem late_zero : Late members weight (fun _ => 0) (fun _ _ => none) 0 where
  past _ _ _ _ read := by cases read
  few a _ b _ m _ := by simp [behind]

section
variable {seen : Nat → A → Option Nat} {n : Nat}

/-- One more worker. -/
theorem Late.enter (late : Late members weight turns seen n) (blank : seen n = fun _ => none) :
    Late members weight turns seen (n + 1) where
  past := late.past
  few a ha b hb m enough := by
    have same : behind seen (n + 1) a m = behind seen n a m := by
      ext i
      rw [mem_behind, mem_behind]
      constructor
      · rintro ⟨lt, x, read, less⟩
        have ne : i ≠ n := by
          rintro rfl
          rw [blank] at read
          cases read
        exact ⟨by omega, x, read, less⟩
      · rintro ⟨lt, read⟩
        exact ⟨by omega, read⟩
    rw [same]
    rcases late.few a ha b hb m enough with less | fits
    · exact Or.inl less
    · exact Or.inr (by omega)

variable [DecidableEq A]

/-- A worker reads the turns of `k`. -/
theorem Late.read (late : Late members weight turns seen n) (i : Nat) (k : A) {x : Nat}
    (now : k ∈ members → x = turns k) :
    Late members weight turns
      (Function.update seen i (Function.update (seen i) k (some x))) n where
  past j a ha y read := by
    by_cases here : j = i
    · subst here
      rw [Function.update_self] at read
      by_cases same : a = k
      · subst same
        rw [Function.update_self] at read
        exact (Option.some.inj read).symm.trans (now ha) |>.le
      · rw [Function.update_of_ne same] at read
        exact late.past j a ha y read
    · rw [Function.update_of_ne here] at read
      exact late.past j a ha y read
  few a ha b hb m enough := by
    rcases late.few a ha b hb m enough with less | fits
    · exact Or.inl less
    · by_cases less : turns a < m
      · exact Or.inl less
      · -- What is read now is not less than `m`.
        have fewer : behind (Function.update seen i (Function.update (seen i) k (some x))) n a m ⊆
            behind seen n a m := by
          intro j mem
          obtain ⟨lt, y, read, below⟩ := mem_behind.mp mem
          refine mem_behind.mpr ⟨lt, y, ?_, below⟩
          by_cases here : j = i
          · subst here
            rw [Function.update_self] at read
            by_cases same : a = k
            · subst same
              rw [Function.update_self] at read
              have equal := (Option.some.inj read).symm.trans (now ha)
              omega
            · rwa [Function.update_of_ne same] at read
          · rwa [Function.update_of_ne here] at read
        have le := Finset.card_le_card fewer
        exact Or.inr (by omega)

/-- A worker gives a turn to `k`, and forgets. -/
theorem Late.turn (late : Late members weight turns seen n) {i : Nat} (lt : i < n) {k : A}
    (hk : k ∈ members) (least : Least members weight (seen i) k) :
    Late members weight (Function.update turns k (turns k + 1))
      (Function.update seen i fun _ => none) n := by
  obtain ⟨x, read, rest⟩ := least
  have grown (a : A) : turns a ≤ Function.update turns k (turns k + 1) a := by
    by_cases here : a = k
    · subst here
      simp
    · simp [here]
  have forgets (a : A) (m : Nat) : behind (Function.update seen i fun _ => none) n a m =
      (behind seen n a m).erase i := by
    ext j
    rw [Finset.mem_erase, mem_behind, mem_behind]
    by_cases here : j = i
    · subst here
      simp
    · simp [here]
  constructor
  · intro j a ha y found
    by_cases here : j = i
    · subst here
      rw [Function.update_self] at found
      cases found
    · rw [Function.update_of_ne here] at found
      exact (late.past j a ha y found).trans (grown a)
  · intro a ha b hb m enough
    have before := enough.mono (grown b)
    rw [forgets]
    by_cases here : a = k
    · subst here
      -- The worker has read less than `m`, for what it has read of `b` is not more than now.
      obtain ⟨y, read', less⟩ := rest b hb
      have behind_m : x < m := by
        apply before x
        exact less.trans (Nat.mul_le_mul_right _ (Nat.succ_le_succ (late.past i b hb y read')))
      have mem : i ∈ behind seen n a m := mem_behind.mpr ⟨lt, x, read, behind_m⟩
      have others := Finset.card_erase_of_mem mem
      have some_ := Finset.card_pos.mpr ⟨i, mem⟩
      have all : (behind seen n a m).card ≤ n :=
        (Finset.card_filter_le ..).trans_eq (Finset.card_range n)
      rw [Function.update_self]
      rcases late.few a ha b hb m before with less | fits
      · by_cases last : turns a + 1 < m
        · exact Or.inl last
        · exact Or.inr (by omega)
      · exact Or.inr (by omega)
    · have fewer := Finset.card_erase_le (s := behind seen n a m) (a := i)
      rw [Function.update_of_ne here]
      rcases late.few a ha b hb m before with less | fits
      · exact Or.inl less
      · exact Or.inr (by omega)

end

variable {seen : Nat → A → Option Nat} {n : Nat}

/-- One worker is fair; each further one may be a turn late. -/
theorem Late.crosswise (late : Late members weight turns seen n) {a b : A} (ha : a ∈ members)
    (hb : b ∈ members) :
    turns a * weight b ≤ (turns b + 1) * weight a + (n - 1) * weight b := by
  rcases Nat.eq_zero_or_pos (weight b) with zero | pos
  · simp [zero]
  · let m := (turns b + 1) * weight a / weight b
    have enough : Enough weight a b (turns b) m :=
      fun x small => (Nat.le_div_iff_mul_le pos).mpr small
    have most : m * weight b ≤ (turns b + 1) * weight a := Nat.div_mul_le_self ..
    have le : turns a ≤ m + (n - 1) := by
      rcases late.few a ha b hb m enough with less | fits
      · omega
      · omega
    calc turns a * weight b ≤ (m + (n - 1)) * weight b := Nat.mul_le_mul_right _ le
      _ = m * weight b + (n - 1) * weight b := Nat.add_mul ..
      _ ≤ (turns b + 1) * weight a + (n - 1) * weight b := Nat.add_le_add_right most _

theorem Late.share (late : Late members weight turns seen n) {a : A} (ha : a ∈ members) :
    (∑ j ∈ members, turns j) * weight a ≤
      (turns a + 1) * (∑ j ∈ members, weight j) + members.card * ((n - 1) * weight a) := by
  have each : ∑ j ∈ members, turns j * weight a ≤
      ∑ j ∈ members, ((turns a + 1) * weight j + (n - 1) * weight a) :=
    Finset.sum_le_sum fun j hj => late.crosswise hj ha
  rw [Finset.sum_add_distrib, Finset.sum_const, Nat.nsmul_eq_mul] at each
  rw [Finset.sum_mul, Finset.mul_sum]
  exact each

end Rotation
