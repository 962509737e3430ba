import SimpleDsp.Lib.RealText
import SimpleDsp.Store.Redis

/-!
# Doubles and floats

The two binary formats, read from a stream and printed with the six significant
digits that a stream prints.

* `BinaryFormat.nearest_close`: the error of a format;
* `rounded_nearest`: six significant digits survive a double.
-/

namespace SimpleDsp

open DecimalText RealText Rounding

/-! ## Formats -/

/-- Numbers with so many binary digits, none of them below the place `least`. -/
structure BinaryFormat where
  digits : Nat
  least : Int
  greatest : Rat

def binary64 : BinaryFormat := ⟨53, -1074, (2 ^ 53 - 1) * 2 ^ 971⟩

def binary32 : BinaryFormat := ⟨24, -149, (2 ^ 24 - 1) * 2 ^ 104⟩

namespace BinaryFormat

variable (f : BinaryFormat)

/-- Rounded, whatever its size. -/
def nearest (q : Rat) : Rat := atPlace 2 (max (Int.log 2 |q| + 1 - f.digits) f.least) q

/-- `stream >> v` where the text is not blank: a number that cannot be read is
stored as zero, one out of range as the greatest with its sign. -/
def read (t : Text) : Rat :=
  match scanReal t with
  | none => 0
  | some (q, _) => if |f.nearest q| ≤ f.greatest then f.nearest q else withSign (q < 0) f.greatest

/-- The text starts with a number in the range of the format. -/
def Reads (t : Text) : Prop := ∃ q rest, scanReal t = some (q, rest) ∧ |f.nearest q| ≤ f.greatest

variable {f}

theorem nearest_normal {q : Rat} (normal : f.least ≤ Int.log 2 |q| + 1 - f.digits) :
    f.nearest q = rounded 2 f.digits q := by
  rw [nearest, max_eq_left normal]
  rfl

/-- What has few enough digits, and none too low, is kept. -/
theorem nearest_of_hasDigits {q : Rat} (few : HasDigits 2 f.digits q)
    (normal : f.least ≤ Int.log 2 |q| + 1 - f.digits) : f.nearest q = q := by
  rw [nearest_normal normal, few.rounded_eq (by decide)]

@[simp] theorem nearest_zero : f.nearest 0 = 0 := atPlace_zero _

/-- Whole numbers with few enough digits are kept. -/
theorem nearest_intCast {m : Int} (few : |m| < 2 ^ f.digits) (low : f.least + f.digits ≤ 1) :
    f.nearest m = m := by
  by_cases zero : m = 0
  · simp [zero]
  · apply nearest_of_hasDigits ⟨m, 0, by exact_mod_cast few, by simp⟩
    have one : (1 : Rat) ≤ |(m : Rat)| := by
      have : 1 ≤ |m| := Int.one_le_abs zero
      exact_mod_cast this
    have lead : 0 ≤ Int.log 2 |(m : Rat)| := by
      rw [← Int.zpow_le_iff_le_log (by decide) (by linarith)]
      simpa using one
    omega

end BinaryFormat

/-! ## Streams -/

/-- A double is printed with six significant digits, and read to the nearest. -/
structure Doubles.IsBinary64 (d : Doubles) : Prop where
  print : ∀ q, d.print q = general 6 q
  read : ∀ t, d.read t = binary64.read t

theorem isWord_general (n : Nat) (q : Rat) : IsWord (general (n + 1) q) where
  ne_nil none := by
    have read := scanReal_general_self n q
    rw [none] at read
    cases read
  plain c h := by
    obtain digit | rfl | rfl | rfl | rfl := mem_general h
    · refine ⟨?_, ?_, ?_⟩ <;> (rintro rfl; revert digit; decide)
    all_goals decide

/-- `Machine.plain`, with the doubles of a stream. -/
def Machine.binary64 : Machine :=
  { Machine.plain with
    doubles := { Machine.plain.doubles with
      print := general 6
      print_word := isWord_general 5
      read := SimpleDsp.binary64.read } }

theorem Machine.isBinary64 : Machine.binary64.doubles.IsBinary64 := ⟨fun _ => rfl, fun _ => rfl⟩

/-! ## Six significant digits -/

section
variable {p q : Rat}

/-- The place of a number that is not too small is that of its leading digit. -/
theorem binary64_normal (large : 2 ^ (-1022 : Int) ≤ |q|) :
    binary64.least ≤ Int.log 2 |q| + 1 - binary64.digits := by
  have pos : 0 < |q| := lt_of_lt_of_le (zpow_pos (by decide) _) large
  have lead := (Int.zpow_le_iff_le_log (b := 2) (by decide) pos).mp (by exact_mod_cast large)
  simp only [binary64]
  omega

theorem binary64_close (large : 2 ^ (-1022 : Int) ≤ |q|) :
    |binary64.nearest q - q| * 2 ^ 53 ≤ |q| := by
  have close := close_rounded (b := 2) (by decide) binary64.digits q
  rw [← BinaryFormat.nearest_normal (binary64_normal large), abs_sub_comm] at close
  have scale : (2 : Rat) * ((2 : Nat) : Rat) ^ ((binary64.digits : Int) - 1) = 2 ^ 53 := by
    norm_num [binary64]
  rwa [scale] at close

/-- A double near a number of six significant digits is printed as that number. -/
theorem rounded_binary64 (large : 2 ^ (-1022 : Int) ≤ |p|) (few : HasDigits 10 6 p) :
    rounded 10 6 (binary64.nearest p) = p := by
  apply rounded_of_close (by decide) few
  have close := binary64_close large
  have nonneg := abs_nonneg (binary64.nearest p - p)
  have scale : (2 : Rat) * ((10 : Nat) : Rat) ^ (6 + 1) ≤ 2 ^ 53 := by norm_num
  exact le_trans (mul_le_mul_of_nonneg_left scale nonneg) close

/-- At a place above the point a whole number rounds to one. -/
theorem atPlace_whole (x : Int) (e : Nat) :
    ∃ k : Int, atPlace 10 e (x : Rat) = (k * 10 ^ e : Int) ∧ |2 * x - 2 * (k * 10 ^ e)| ≤ 10 ^ e := by
  have near := atPlace_near (b := 10) (by decide) e (x : Rat)
  unfold atPlace at near ⊢
  generalize nearestEven (x / ((10 : Nat) : Rat) ^ (e : Int)) = k at near ⊢
  rw [zpow_natCast] at near ⊢
  refine ⟨k, by push_cast; rfl, ?_⟩
  have twice : |((2 * x - 2 * (k * 10 ^ e) : Int) : Rat)| ≤ ((10 ^ e : Int) : Rat) := by
    push_cast at near ⊢
    rw [← mul_sub, abs_mul, abs_two]
    linarith
  exact_mod_cast twice

/-- A whole number that a float holds is printed as one that it holds. -/
theorem rounded_whole {x : Int} (small : |x| ≤ 2 ^ 24) :
    ∃ k : Int, rounded 10 6 (x : Rat) = k ∧ |k| < 2 ^ 24 := by
  by_cases few : |x| < 10 ^ 6
  · have digits : HasDigits 10 6 (x : Rat) := ⟨x, 0, by exact_mod_cast few, by simp⟩
    exact ⟨x, digits.rounded_eq (by decide), by omega⟩
  have pos : 0 < |(x : Rat)| := by
    have : 0 < |x| := by omega
    exact_mod_cast this
  have lead : 6 ≤ Int.log 10 |(x : Rat)| := by
    rw [← Int.zpow_le_iff_le_log (by decide) pos]
    have large := not_lt.mp few
    exact_mod_cast large
  rw [abs_le] at small
  unfold rounded
  by_cases seven : |x| < 10 ^ 7
  · have below : Int.log 10 |(x : Rat)| < 7 := by
      rw [← Int.lt_zpow_iff_log_lt (by decide) pos]
      exact_mod_cast seven
    obtain ⟨k, whole, near⟩ := atPlace_whole x 1
    have place : Int.log 10 |(x : Rat)| + 1 - (6 : Nat) = (1 : Nat) := by omega
    refine ⟨_, by rw [place, whole], ?_⟩
    rw [abs_le] at near
    rw [abs_lt] at seven ⊢
    omega
  · have below : Int.log 10 |(x : Rat)| < 8 := by
      rw [← Int.lt_zpow_iff_log_lt (by decide) pos]
      have less : |x| < 10 ^ 8 := by rw [abs_lt]; omega
      exact_mod_cast less
    have above : 7 ≤ Int.log 10 |(x : Rat)| := by
      rw [← Int.zpow_le_iff_le_log (by decide) pos]
      have large := not_lt.mp seven
      exact_mod_cast large
    obtain ⟨k, whole, near⟩ := atPlace_whole x 2
    have place : Int.log 10 |(x : Rat)| + 1 - (6 : Nat) = (2 : Nat) := by omega
    refine ⟨_, by rw [place, whole], ?_⟩
    -- Multiples of a hundred pass over the last numbers before the bound.
    rw [abs_le] at near
    rw [abs_lt]
    omega

/-! ## The range of doubles -/

theorem greatest_eq :
    binary64.greatest = ((2 ^ 53 - 1 : Int) : Rat) * ((2 : Nat) : Rat) ^ (971 : Int) := by
  norm_num [binary64]

theorem greatest_pos : 0 < binary64.greatest := by
  rw [greatest_eq]
  exact mul_pos (by norm_num) (power_pos (by decide) _)

theorem greatest_lt : binary64.greatest < ((2 : Nat) : Rat) ^ (1024 : Int) := by
  have split : ((2 : Nat) : Rat) ^ (1024 : Int) =
      ((2 : Nat) : Rat) ^ (53 : Int) * ((2 : Nat) : Rat) ^ (971 : Int) := by
    rw [← power_add (by decide)]
    rfl
  rw [greatest_eq, split]
  exact mul_lt_mul_of_pos_right (by norm_num) (power_pos (by decide) _)

theorem log_le_of_le_greatest (pos : 0 < p) (le : p ≤ binary64.greatest) : Int.log 2 |p| ≤ 1023 := by
  have below : |p| < ((2 : Nat) : Rat) ^ (1024 : Int) := by
    rw [abs_of_pos pos]
    exact lt_of_le_of_lt le greatest_lt
  have := (Int.lt_zpow_iff_log_lt (by decide) (abs_pos.mpr pos.ne')).mp below
  omega

/-- The greatest double is a multiple of every unit up to its own. -/
theorem greatest_at {e : Int} (le : e ≤ 971) :
    ∃ m : Int, binary64.greatest = m * ((2 : Nat) : Rat) ^ e := by
  obtain ⟨k, hk⟩ := Int.le.dest le
  refine ⟨(2 ^ 53 - 1) * 2 ^ k, ?_⟩
  rw [greatest_eq, ← hk, power_add (by decide), zpow_natCast]
  push_cast
  ring

theorem nearest_le_greatest (pos : 0 < p) (le : p ≤ binary64.greatest) :
    |binary64.nearest p| ≤ binary64.greatest := by
  have lead := log_le_of_le_greatest pos le
  obtain ⟨m, hm⟩ := greatest_at (e := max (Int.log 2 |p| + 1 - 53) (-1074)) (by omega)
  have above := atPlace_le (by decide) (hm ▸ le)
  have below := le_atPlace (b := 2) (by decide) (e := max (Int.log 2 |p| + 1 - 53) (-1074)) (m := 0)
    (q := p) (by simpa using pos.le)
  rw [← hm] at above
  rw [Int.cast_zero, zero_mul] at below
  have same : binary64.nearest p = atPlace 2 (max (Int.log 2 |p| + 1 - 53) (-1074)) p := rfl
  rw [same, abs_of_nonneg below]
  exact above

theorem greatest_le_nearest (gt : binary64.greatest < p) : binary64.greatest ≤ binary64.nearest p := by
  have pos := lt_trans greatest_pos gt
  by_cases small : Int.log 2 |p| ≤ 1023
  · obtain ⟨m, hm⟩ := greatest_at (e := max (Int.log 2 |p| + 1 - 53) (-1074)) (by omega)
    have below := le_atPlace (by decide) (hm ▸ gt.le)
    rwa [← hm] at below
  · have lead := power_log_le (b := 2) (by decide) pos.ne'
    rw [abs_of_pos pos] at lead
    have whole : ((2 ^ 52 : Int) : Rat) * ((2 : Nat) : Rat) ^ max (Int.log 2 |p| + 1 - 53) (-1074) =
        ((2 : Nat) : Rat) ^ Int.log 2 |p| := by
      have unit : ((2 ^ 52 : Int) : Rat) = ((2 : Nat) : Rat) ^ (52 : Int) := by norm_num
      rw [unit, ← power_add (by decide)]
      congr 1
      omega
    have below := le_atPlace (b := 2) (by decide) (e := max (Int.log 2 |p| + 1 - 53) (-1074))
      (m := 2 ^ 52) (q := p) (by rw [whole, abs_of_pos pos]; exact lead)
    rw [whole] at below
    have mono := power_mono (b := 2) (by decide) (by omega : 1024 ≤ Int.log 2 |p|)
    exact le_trans greatest_lt.le (le_trans mono below)

theorem read_in_range {t rest : Text} (text : scanReal t = some (p, rest)) (pos : 0 < p)
    (le : p ≤ binary64.greatest) : binary64.read t = binary64.nearest p := by
  simp only [BinaryFormat.read, text, if_pos (nearest_le_greatest pos le)]

theorem read_beyond {t rest : Text} (text : scanReal t = some (p, rest))
    (gt : binary64.greatest < p) : binary64.read t = binary64.greatest := by
  have pos := lt_trans greatest_pos gt
  have above := greatest_le_nearest gt
  simp only [BinaryFormat.read, text]
  split
  · rename_i le
    exact le_antisymm (le_trans (le_abs_self _) le) above
  · rw [withSign, if_neg (by simpa using pos.le)]

/-- In decimal digits it begins with 179769 and goes on with a 3. -/
theorem greatest_digits : (10 : Nat) ^ 308 ≤ (2 ^ 53 - 1) * 2 ^ 971 ∧
    (2 ^ 53 - 1) * 2 ^ 971 < (10 : Nat) ^ 309 ∧ 179769 * 10 ^ 303 < (2 ^ 53 - 1) * 2 ^ 971 ∧
    2 * ((2 ^ 53 - 1) * 2 ^ 971) < (2 * 179769 + 1) * (10 : Nat) ^ 303 := by
  decide +kernel

theorem power_eq_cast (k : Nat) : ((10 : Nat) : Rat) ^ (k : Int) = ((10 ^ k : Nat) : Rat) := by
  rw [zpow_natCast, Nat.cast_pow]

theorem rounded_greatest : rounded 10 6 binary64.greatest < binary64.greatest := by
  obtain ⟨lo, hi, above, near⟩ := greatest_digits
  have nat : binary64.greatest = (((2 ^ 53 - 1) * 2 ^ 971 : Nat) : Rat) := by
    rw [greatest_eq, Nat.cast_mul, Nat.cast_pow]
    norm_num
  generalize (2 ^ 53 - 1) * 2 ^ 971 = g at lo hi above near nat
  have lead : Int.log 10 |binary64.greatest| = (308 : Nat) := by
    have pos := abs_pos.mpr greatest_pos.ne'
    have least := (Int.zpow_le_iff_le_log (b := 10) (x := (308 : Nat)) (by decide) pos).mp (by
      rw [power_eq_cast, nat, Nat.abs_cast]
      exact Nat.cast_le.mpr lo)
    have most := (Int.lt_zpow_iff_log_lt (b := 10) (x := (309 : Nat)) (by decide) pos).mp (by
      rw [power_eq_cast, nat, Nat.abs_cast]
      exact Nat.cast_lt.mpr hi)
    omega
  have unit := power_eq_cast 303
  generalize (10 : Nat) ^ 303 = u at above near unit
  have digits : atPlace 10 (303 : Nat) binary64.greatest = ((179769 : Int) : Rat) * u := by
    rw [← unit]
    apply atPlace_of_near (by decide)
    have above' : (179769 : Rat) * u < g := by exact_mod_cast above
    have near' : (2 : Rat) * g < (2 * 179769 + 1) * u := by exact_mod_cast near
    rw [unit, nat, Int.cast_ofNat, abs_of_pos (sub_pos.mpr above')]
    linarith
  have place : ((308 : Nat) : Int) + 1 - (6 : Nat) = (303 : Nat) := by norm_num
  rw [rounded, lead, place, digits, nat]
  exact_mod_cast above

/-- What a number is after it was read and printed. -/
theorem rounded_read_iff {t rest : Text} (text : scanReal t = some (p, rest))
    (size : p = 0 ∨ 2 ^ (-1022 : Int) ≤ p) :
    rounded 10 6 (binary64.read t) = p ↔ HasDigits 10 6 p ∧ p ≤ binary64.greatest := by
  obtain rfl | large := size
  · have zero : binary64.read t = 0 := by
      simp [BinaryFormat.read, text, greatest_pos.le]
    rw [zero, rounded_zero]
    exact ⟨fun _ => ⟨⟨0, 0, by decide, by simp⟩, greatest_pos.le⟩, fun _ => rfl⟩
  · have pos : 0 < p := lt_of_lt_of_le (zpow_pos (by decide) _) large
    by_cases le : p ≤ binary64.greatest
    · rw [read_in_range text pos le]
      constructor
      · intro same
        have few := rounded_hasDigits (b := 10) (n := 6) (by decide) (by decide) (binary64.nearest p)
        rw [same] at few
        exact ⟨few, le⟩
      · rintro ⟨few, -⟩
        have large' : 2 ^ (-1022 : Int) ≤ |p| := by
          rw [abs_of_pos pos]
          exact large
        exact rounded_binary64 large' few
    · rw [read_beyond text (not_le.mp le)]
      constructor
      · intro same
        have less := rounded_greatest
        rw [same] at less
        exact absurd less.le le
      · rintro ⟨-, le'⟩
        exact absurd le' le

theorem read_nonneg {t rest : Text} (text : scanReal t = some (p, rest)) (nonneg : 0 ≤ p) :
    0 ≤ binary64.read t := by
  obtain rfl | pos := nonneg.eq_or_lt
  · simp [BinaryFormat.read, text, greatest_pos.le]
  · by_cases le : p ≤ binary64.greatest
    · rw [read_in_range text pos le]
      have below := le_atPlace (b := 2) (by decide) (e := max (Int.log 2 |p| + 1 - 53) (-1074))
        (m := 0) (q := p) (by simpa using pos.le)
      rwa [Int.cast_zero, zero_mul] at below
    · rw [read_beyond text (not_le.mp le)]
      exact greatest_pos.le

end

end SimpleDsp
