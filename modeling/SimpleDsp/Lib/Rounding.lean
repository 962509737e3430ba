import Mathlib.Data.Int.Log
import Mathlib.Data.Rat.Floor
import Mathlib.Tactic.FieldSimp
import Mathlib.Tactic.Linarith
import Mathlib.Tactic.Positivity
import Mathlib.Tactic.Ring

/-!
# Rounding to digits

Rationals rounded to the nearest number with so many digits in a base, from two
equally near ones to the even.

* `atPlace`: rounded to a multiple of a power of the base;
* `HasDigits`, `rounded`: to so many digits from the leading one;
* `rounded_of_close`: what is close enough to a number with so many digits rounds
  to it, `close_rounded`: how close a number is to what it rounds to.
-/

namespace Rounding

def nearestEven (q : Rat) : Int :=
  let rest := q - ⌊q⌋
  if rest < 1 / 2 then ⌊q⌋
  else if 1 / 2 < rest then ⌊q⌋ + 1
  else if ⌊q⌋ % 2 = 0 then ⌊q⌋ else ⌊q⌋ + 1

theorem nearestEven_near (q : Rat) : |q - nearestEven q| ≤ 1 / 2 := by
  have lo := Int.floor_le q
  have hi := Int.lt_floor_add_one q
  rw [abs_le]
  unfold nearestEven
  by_cases less : q - ⌊q⌋ < 1 / 2
  · simp only [less, if_true]
    constructor <;> linarith
  · by_cases more : 1 / 2 < q - ⌊q⌋
    · simp only [less, more, if_true, if_false]
      push_cast
      constructor <;> linarith
    · simp only [less, more, if_false]
      split <;> push_cast <;> constructor <;> linarith

theorem nearestEven_of_near {q : Rat} {n : Int} (h : |q - n| < 1 / 2) : nearestEven q = n := by
  have near := nearestEven_near q
  rw [abs_lt] at h
  rw [abs_le] at near
  have lo : ((nearestEven q - n : Int) : Rat) < 1 := by push_cast; linarith
  have hi : (-1 : Rat) < ((nearestEven q - n : Int) : Rat) := by push_cast; linarith
  have lo' : nearestEven q - n < 1 := by exact_mod_cast lo
  have hi' : -1 < nearestEven q - n := by exact_mod_cast hi
  omega

@[simp] theorem nearestEven_intCast (n : Int) : nearestEven n = n :=
  nearestEven_of_near (by simp)

theorem le_nearestEven {q : Rat} {n : Int} (h : n ≤ q) : n ≤ nearestEven q := by
  have near := nearestEven_near q
  rw [abs_le] at near
  have above : ((n - 1 : Int) : Rat) < nearestEven q := by push_cast; linarith
  have above' : n - 1 < nearestEven q := by exact_mod_cast above
  omega

theorem nearestEven_le {q : Rat} {n : Int} (h : q ≤ n) : nearestEven q ≤ n := by
  have near := nearestEven_near q
  rw [abs_le] at near
  have below : (nearestEven q : Rat) < ((n + 1 : Int) : Rat) := by push_cast; linarith
  have below' : nearestEven q < n + 1 := by exact_mod_cast below
  omega

theorem nearestEven_neg (q : Rat) : nearestEven (-q) = -nearestEven q := by
  by_cases whole : q = ⌊q⌋
  · rw [whole, ← Int.cast_neg, nearestEven_intCast, nearestEven_intCast]
  have lo : (⌊q⌋ : Rat) < q := lt_of_le_of_ne (Int.floor_le q) (Ne.symm whole)
  have hi := Int.lt_floor_add_one q
  have other : ⌊-q⌋ = -⌊q⌋ - 1 := by
    rw [Int.floor_eq_iff]
    push_cast
    constructor <;> linarith
  have rest : -q - ⌊-q⌋ = 1 - (q - ⌊q⌋) := by
    rw [other]
    push_cast
    ring
  unfold nearestEven
  simp only [rest]
  simp only [other]
  by_cases less : q - ⌊q⌋ < 1 / 2
  · have more : 1 / 2 < 1 - (q - ⌊q⌋) := by linarith
    simp only [less, more, not_lt.mpr more.le, if_true, if_false]
    omega
  · by_cases more : 1 / 2 < q - ⌊q⌋
    · have less' : 1 - (q - ⌊q⌋) < 1 / 2 := by linarith
      simp only [less, more, less', if_true, if_false]
      omega
    · have less' : ¬1 - (q - ⌊q⌋) < 1 / 2 := by linarith
      have more' : ¬1 / 2 < 1 - (q - ⌊q⌋) := by linarith
      simp only [less, more, less', more', if_false]
      split <;> split <;> omega

/-! ## Places -/

section
variable {b : Nat}

/-- `q` rounded to a multiple of `b ^ e`. -/
def atPlace (b : Nat) (e : Int) (q : Rat) : Rat := nearestEven (q / (b : Rat) ^ e) * (b : Rat) ^ e

theorem power_pos (hb : 1 < b) (e : Int) : 0 < (b : Rat) ^ e :=
  zpow_pos (by exact_mod_cast Nat.lt_trans Nat.zero_lt_one hb) e

theorem atPlace_near (hb : 1 < b) (e : Int) (q : Rat) :
    |q - atPlace b e q| ≤ (b : Rat) ^ e / 2 := by
  have pos := power_pos hb e
  have scaled : q - atPlace b e q =
      (q / (b : Rat) ^ e - nearestEven (q / (b : Rat) ^ e)) * (b : Rat) ^ e := by
    unfold atPlace
    field_simp
  rw [scaled, abs_mul, abs_of_pos pos]
  have near := mul_le_mul_of_nonneg_right (nearestEven_near (q / (b : Rat) ^ e)) pos.le
  linarith

theorem atPlace_of_near (hb : 1 < b) {e m : Int} {q : Rat}
    (h : |q - m * (b : Rat) ^ e| < (b : Rat) ^ e / 2) : atPlace b e q = m * (b : Rat) ^ e := by
  have pos := power_pos hb e
  have scaled : q / (b : Rat) ^ e - m = (q - m * (b : Rat) ^ e) / (b : Rat) ^ e := by
    field_simp
  have near : |q / (b : Rat) ^ e - m| < 1 / 2 := by
    rw [scaled, abs_div, abs_of_pos pos, div_lt_iff₀ pos]
    linarith
  rw [atPlace, nearestEven_of_near near]

theorem le_atPlace (hb : 1 < b) {e m : Int} {q : Rat} (h : m * (b : Rat) ^ e ≤ q) :
    m * (b : Rat) ^ e ≤ atPlace b e q := by
  have pos := power_pos hb e
  have whole := le_nearestEven ((le_div_iff₀ pos).mpr h)
  exact mul_le_mul_of_nonneg_right (by exact_mod_cast whole) pos.le

theorem atPlace_le (hb : 1 < b) {e m : Int} {q : Rat} (h : q ≤ m * (b : Rat) ^ e) :
    atPlace b e q ≤ m * (b : Rat) ^ e := by
  have pos := power_pos hb e
  have whole := nearestEven_le ((div_le_iff₀ pos).mpr h)
  exact mul_le_mul_of_nonneg_right (by exact_mod_cast whole) pos.le

@[simp] theorem atPlace_zero (e : Int) : atPlace b e 0 = 0 := by
  have none : nearestEven 0 = 0 := nearestEven_intCast 0
  simp [atPlace, none]

/-! ## Digits -/

/-- At most `n` digits from the first to the last that is not zero. -/
def HasDigits (b n : Nat) (q : Rat) : Prop :=
  ∃ m e : Int, |m| < (b : Int) ^ n ∧ q = m * (b : Rat) ^ e

/-- `q` rounded to `n` digits. -/
def rounded (b n : Nat) (q : Rat) : Rat := atPlace b (Int.log b |q| + 1 - n) q

@[simp] theorem rounded_zero (n : Nat) : rounded b n 0 = 0 := by simp [rounded]

theorem rounded_neg (n : Nat) (q : Rat) : rounded b n (-q) = -rounded b n q := by
  rw [rounded, rounded, atPlace, atPlace, abs_neg, neg_div, nearestEven_neg]
  push_cast
  ring

theorem rounded_nonneg (hb : 1 < b) (n : Nat) {q : Rat} (h : 0 ≤ q) : 0 ≤ rounded b n q := by
  have least := le_atPlace hb (e := Int.log b |q| + 1 - n) (m := 0) (q := q) (by simpa using h)
  rwa [Int.cast_zero, zero_mul] at least

theorem power_log_le (hb : 1 < b) {q : Rat} (hq : q ≠ 0) : (b : Rat) ^ Int.log b |q| ≤ |q| :=
  Int.zpow_log_le_self hb (abs_pos.mpr hq)

theorem lt_power_log (hb : 1 < b) (q : Rat) : |q| < (b : Rat) ^ (Int.log b |q| + 1) :=
  Int.lt_zpow_succ_log_self hb |q|

theorem power_mono (hb : 1 < b) {d e : Int} (h : d ≤ e) : (b : Rat) ^ d ≤ (b : Rat) ^ e :=
  zpow_le_zpow_right₀ (by exact_mod_cast hb.le) h

theorem power_add (hb : 1 < b) (d e : Int) : (b : Rat) ^ (d + e) = (b : Rat) ^ d * (b : Rat) ^ e :=
  zpow_add₀ (by exact_mod_cast (by omega : b ≠ 0)) d e

/-- The last of so many digits is not below the place that rounding goes to. -/
theorem HasDigits.at_place (hb : 1 < b) {n : Nat} {q : Rat} (h : HasDigits b n q) (hq : q ≠ 0)
    {e : Int} (le : e ≤ Int.log b |q| + 1 - n) :
    ∃ m : Int, q = m * (b : Rat) ^ e := by
  obtain ⟨m, d, few, rfl⟩ := h
  have above : e ≤ d := by
    by_contra below
    have few' : |(m : Rat)| < (b : Rat) ^ (n : Int) := by exact_mod_cast few
    have small : |m * (b : Rat) ^ d| < (b : Rat) ^ ((n : Int) + d) := by
      rw [abs_mul, abs_of_pos (power_pos hb d), power_add hb]
      exact mul_lt_mul_of_pos_right few' (power_pos hb d)
    have mono := power_mono hb (show (n : Int) + d ≤ Int.log b |m * (b : Rat) ^ d| by omega)
    have lead := power_log_le hb hq
    linarith
  obtain ⟨k, rfl⟩ := Int.le.dest above
  refine ⟨m * (b : Int) ^ k, ?_⟩
  rw [power_add hb, zpow_natCast]
  push_cast
  ring

theorem rounded_hasDigits (hb : 1 < b) {n : Nat} (hn : 0 < n) (q : Rat) :
    HasDigits b n (rounded b n q) := by
  by_cases hq : q = 0
  · subst hq
    exact ⟨0, 0, by positivity, by simp⟩
  let e := Int.log b |q| + 1 - n
  have pos := power_pos hb e
  have below : |q / (b : Rat) ^ e| < (b : Rat) ^ (n : Int) := by
    rw [abs_div, abs_of_pos pos, div_lt_iff₀ pos, ← power_add hb]
    have le := lt_power_log hb q
    rwa [show (n : Int) + e = Int.log b |q| + 1 by omega]
  have near := nearestEven_near (q / (b : Rat) ^ e)
  have most : |nearestEven (q / (b : Rat) ^ e)| ≤ (b : Int) ^ n := by
    have close : |(nearestEven (q / (b : Rat) ^ e) : Rat)| < (b : Rat) ^ (n : Int) + 1 := by
      rw [abs_lt] at below ⊢
      rw [abs_le] at near
      constructor <;> linarith
    have close' : |nearestEven (q / (b : Rat) ^ e)| < (b : Int) ^ n + 1 := by exact_mod_cast close
    omega
  rcases lt_or_eq_of_le most with few | full
  · exact ⟨_, e, few, rfl⟩
  · -- Rounding has carried into a new leading digit.
    obtain ⟨k, rfl⟩ : ∃ k, n = k + 1 := ⟨n - 1, by omega⟩
    have base : (1 : Int) < b := by exact_mod_cast hb
    have one_digit : (b : Int) ^ k < (b : Int) ^ (k + 1) := pow_lt_pow_right₀ base (by omega)
    have carried : rounded b (k + 1) q = nearestEven (q / (b : Rat) ^ e) * (b : Rat) ^ e := rfl
    have shift : (b : Rat) ^ (e + 1) = b * (b : Rat) ^ e := by rw [power_add hb]; simp [mul_comm]
    rcases abs_eq (by positivity) |>.mp full with up | down
    · refine ⟨(b : Int) ^ k, e + 1, by rwa [abs_of_nonneg (by positivity)], ?_⟩
      rw [carried, up, shift]
      push_cast
      ring
    · refine ⟨-(b : Int) ^ k, e + 1, by rwa [abs_neg, abs_of_nonneg (by positivity)], ?_⟩
      rw [carried, down, shift]
      push_cast
      ring

/-- What rounds to `p` has its leading digit in the place of that of `p`, or in
the place below. -/
theorem log_of_near (hb : 1 < b) {n : Nat} {p q : Rat} (digits : HasDigits b n p) (hp : p ≠ 0)
    (near : |q - p| < (b : Rat) ^ (Int.log b |p| - n) / 2) :
    Int.log b |p| - 1 ≤ Int.log b |q| ∧ Int.log b |q| ≤ Int.log b |p| := by
  generalize lead : Int.log b |p| = L at near
  have le := power_log_le hb hp
  have lt := lt_power_log hb p
  obtain ⟨m, hm⟩ := digits.at_place hb hp (le_refl (Int.log b |p| + 1 - n))
  rw [lead] at le lt hm
  have unit := power_pos hb (L + 1 - n)
  have most : |p| ≤ (b : Rat) ^ (L + 1) - (b : Rat) ^ (L + 1 - n) := by
    have whole : (b : Rat) ^ (L + 1) = (b : Rat) ^ (n : Int) * (b : Rat) ^ (L + 1 - n) := by
      rw [← power_add hb]
      congr 1
      omega
    have abs_p : |p| = |(m : Rat)| * (b : Rat) ^ (L + 1 - n) := by
      rw [hm, abs_mul, abs_of_pos unit]
    rw [abs_p, whole] at lt
    have few : |(m : Rat)| < (b : Rat) ^ (n : Int) := lt_of_mul_lt_mul_right lt unit.le
    have few' : |m| < (b : Int) ^ n := by exact_mod_cast few
    have few'' : |(m : Rat)| ≤ (b : Rat) ^ (n : Int) - 1 := by
      have le : |m| ≤ (b : Int) ^ n - 1 := by omega
      exact_mod_cast le
    rw [abs_p, whole]
    have scaled := mul_le_mul_of_nonneg_right few'' unit.le
    linarith
  have small : (b : Rat) ^ (L - n) ≤ (b : Rat) ^ (L + 1 - n) := power_mono hb (by omega)
  have low : (b : Rat) ^ (L - n) ≤ (b : Rat) ^ L := power_mono hb (by omega)
  have half : (b : Rat) ^ (L - 1) ≤ (b : Rat) ^ L / 2 := by
    have two : (2 : Rat) ≤ b := by exact_mod_cast hb
    have step : (b : Rat) ^ L = (b : Rat) ^ (L - 1) * b := by
      have split := power_add hb (L - 1) 1
      rwa [sub_add_cancel, zpow_one] at split
    have scaled := mul_le_mul_of_nonneg_left two (power_pos hb (L - 1)).le
    linarith
  have apart : |p| - |q| ≤ |q - p| := by
    rw [abs_sub_comm]
    exact abs_sub_abs_le_abs_sub p q
  have apart' : |q| - |p| ≤ |q - p| := abs_sub_abs_le_abs_sub q p
  have pos : 0 < |q| := by linarith [power_pos hb (L - 1)]
  constructor
  · exact (Int.zpow_le_iff_le_log hb pos).mp (by linarith)
  · have below : |q| < (b : Rat) ^ (L + 1) := by linarith
    have := (Int.lt_zpow_iff_log_lt hb pos).mp below
    omega

/-- A number closer than half a unit, of the place below its last digit, rounds
to it. -/
theorem rounded_of_close (hb : 1 < b) {n : Nat} {p q : Rat} (digits : HasDigits b n p)
    (close : |q - p| * (2 * (b : Rat) ^ (n + 1)) ≤ |p|) : rounded b n q = p := by
  have unit : 0 < (b : Rat) ^ (n + 1) := by exact_mod_cast power_pos hb (n + 1)
  by_cases hp : p = 0
  · subst hp
    have none : |q| * (2 * (b : Rat) ^ (n + 1)) ≤ 0 := by simpa using close
    have zero : |q| ≤ 0 := le_of_mul_le_mul_right (by linarith) (by linarith : 0 < 2 * (b : Rat) ^ (n + 1))
    rw [abs_nonpos_iff.mp zero, rounded_zero]
  have near : |q - p| < (b : Rat) ^ (Int.log b |p| - n) / 2 := by
    have lt := lt_power_log hb p
    have split : (b : Rat) ^ (Int.log b |p| + 1) =
        (b : Rat) ^ (Int.log b |p| - n) * (b : Rat) ^ (n + 1) := by
      rw [← zpow_natCast, ← power_add hb]
      congr 1
      push_cast
      omega
    rw [split] at lt
    have scaled : |q - p| * 2 * (b : Rat) ^ (n + 1) <
        (b : Rat) ^ (Int.log b |p| - n) * (b : Rat) ^ (n + 1) := by linarith
    have := lt_of_mul_lt_mul_right scaled unit.le
    linarith
  obtain ⟨lo, hi⟩ := log_of_near hb digits hp near
  obtain ⟨m, hm⟩ := digits.at_place hb hp (by omega : Int.log b |q| + 1 - n ≤ Int.log b |p| + 1 - n)
  have mono := power_mono hb (by omega : Int.log b |p| - n ≤ Int.log b |q| + 1 - n)
  rw [rounded, hm]
  apply atPlace_of_near hb
  rw [← hm]
  linarith

/-- A number with so many digits is what it rounds to. -/
theorem HasDigits.rounded_eq (hb : 1 < b) {n : Nat} {p : Rat} (digits : HasDigits b n p) :
    rounded b n p = p :=
  rounded_of_close hb digits (by simp)

theorem rounded_eq_self_iff (hb : 1 < b) {n : Nat} (hn : 0 < n) {q : Rat} :
    rounded b n q = q ↔ HasDigits b n q := by
  constructor
  · intro same
    have digits := rounded_hasDigits hb hn q
    rwa [same] at digits
  · exact HasDigits.rounded_eq hb

/-- The error of rounding, against the number. -/
theorem close_rounded (hb : 1 < b) (n : Nat) (q : Rat) :
    |q - rounded b n q| * (2 * (b : Rat) ^ ((n : Int) - 1)) ≤ |q| := by
  by_cases hq : q = 0
  · subst hq
    simp
  · have near := atPlace_near hb (Int.log b |q| + 1 - n) q
    have pos := power_pos hb ((n : Int) - 1)
    have lead := power_log_le hb hq
    have scaled : (b : Rat) ^ (Int.log b |q| + 1 - n) * (b : Rat) ^ ((n : Int) - 1) =
        (b : Rat) ^ Int.log b |q| := by
      rw [← power_add hb]
      congr 1
      omega
    have both := mul_le_mul_of_nonneg_right near pos.le
    change |q - atPlace b _ q| * _ ≤ _
    linarith

end

end Rounding
