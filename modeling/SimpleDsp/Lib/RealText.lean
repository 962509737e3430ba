import SimpleDsp.Lib.DecimalText
import SimpleDsp.Lib.Rounding
import Mathlib.Data.List.DropRight

/-!
# Numbers with a fraction as text

* `scanReal`: a number in decimal or scientific notation, as a stream collects it;
* `general`: a number printed with so many significant digits, as `%g` does;
* `scanReal_general`: reading what was printed gives the number rounded to these
  digits.
-/

namespace RealText

open DecimalText Rounding

/-! ## Scanning -/

/-- The digits behind a point, if there is one. -/
def scanFraction : Text → Text × Text
  | '.' :: t => (t.takeWhile Char.isDigit, t.dropWhile Char.isDigit)
  | t => ([], t)

/-- The number behind an `e`, zero without one; an `e` without a number is an error. -/
def scanExponent : Text → Option (Int × Text)
  | c :: t =>
    if c = 'e' ∨ c = 'E' then
      let s := scanSign t
      let ds := s.2.takeWhile Char.isDigit
      if ds = [] then none else some (signed (s.1, digitsValue ds), s.2.dropWhile Char.isDigit)
    else some (0, c :: t)
  | [] => some (0, [])

def withSign (neg : Bool) (q : Rat) : Rat := if neg then -q else q

/-- The number that a text begins with, and the rest. -/
def scanReal (t : Text) : Option (Rat × Text) :=
  let s := scanSign (skipSpace t)
  let whole := s.2.takeWhile Char.isDigit
  let f := scanFraction (s.2.dropWhile Char.isDigit)
  if whole ++ f.1 = [] then none
  else (scanExponent f.2).map fun (x, rest) =>
    (withSign s.1 (digitsValue (whole ++ f.1) * (10 : Rat) ^ (x - f.1.length)), rest)

/-- A blank text does not begin with a number. -/
theorem skipSpace_ne_nil {t rest : Text} {q : Rat} (read : scanReal t = some (q, rest)) :
    skipSpace t ≠ [] := by
  intro blank
  simp [scanReal, blank, scanSign, scanFraction] at read

/-! ## Printing -/

/-- Digits with a point after the first `k`, without zeros at the end behind it. -/
def withPoint (k : Nat) (ds : Text) : Text :=
  let frac := (ds.drop k).rdropWhile (· = '0')
  ds.take k ++ if frac = [] then [] else '.' :: frac

/-- At least two digits. -/
def exponentText (x : Int) : Text :=
  let ds := digits x.natAbs
  'e' :: (if x < 0 then '-' else '+') :: if ds.length < 2 then '0' :: ds else ds

/-- The digits of `r`, of which there are `n`, with the leading one for `10 ^ x`. -/
def leadingDigits (n : Nat) (x : Int) (r : Rat) : Text := digits (r / (10 : Rat) ^ (x + 1 - n)).floor.toNat

/-- Digits with the leading one for `10 ^ x`; in scientific notation where `x` is
below -4 or not below `n`. -/
def laidOut (n : Nat) (x : Int) (ds : Text) : Text :=
  if x < -4 ∨ n ≤ x then withPoint 1 ds ++ exponentText x
  else if x < 0 then withPoint 1 (List.replicate (-x).toNat '0' ++ ds)
  else withPoint (x.toNat + 1) ds

/-- `%g` with `n` significant digits. -/
def general (n : Nat) (q : Rat) : Text :=
  let r := rounded 10 n |q|
  let x := Int.log 10 r
  (if q < 0 then ['-'] else []) ++ laidOut n x (leadingDigits n x r)

/-! ## Reading what was printed -/

theorem digitsValue_append (a b : Text) :
    digitsValue (a ++ b) = digitsValue a * 10 ^ b.length + digitsValue b := by
  rw [digitsValue, Nat.ofDigitChars_append, Nat.ofDigitChars_eq_ofDigitChars_zero]
  simp [digitsValue, Nat.mul_comm]

theorem digitsValue_zeros (n : Nat) : digitsValue (List.replicate n '0') = 0 := by
  simp [digitsValue]

/-- Nothing comes first that a number goes on with. -/
def EndsReal (t : Text) : Prop :=
  ∀ c ∈ t.head?, c.isDigit = false ∧ c ≠ '.' ∧ c ≠ 'e' ∧ c ≠ 'E'

theorem EndsReal.endsNumber {t : Text} (h : EndsReal t) : EndsNumber t := fun c hc => (h c hc).1

theorem EndsReal.noExponent {t : Text} (h : EndsReal t) : scanExponent t = some (0, t) := by
  cases t with
  | nil => rfl
  | cons c t =>
    obtain ⟨-, -, small, capital⟩ := h c rfl
    simp [scanExponent, small, capital]

theorem EndsReal.noFraction {t : Text} (h : EndsReal t) : ∀ c ∈ t.head?, c ≠ '.' :=
  fun c hc => (h c hc).2.1

theorem scanFraction_point {frac rest : Text} (hd : ∀ c ∈ frac, c.isDigit = true)
    (hr : EndsNumber rest) (point : ∀ c ∈ rest.head?, c ≠ '.') :
    scanFraction ((if frac = [] then [] else '.' :: frac) ++ rest) = (frac, rest) := by
  split
  · rename_i none
    subst none
    cases rest with
    | nil => rfl
    | cons c t =>
      unfold scanFraction
      split
      · rename_i e
        obtain ⟨rfl, rfl⟩ := List.cons.inj e
        exact absurd rfl (point '.' rfl)
      · rfl
  · simp only [List.cons_append, scanFraction, takeWhile_digits_append hd hr,
      dropWhile_digits_append hd hr]

/-- The zeros that are left out count for nothing. -/
theorem digitsValue_stripped {k : Nat} {ds : Text} (le : k ≤ ds.length) :
    let frac := (ds.drop k).rdropWhile (· = '0')
    (digitsValue ds : Rat) * (10 : Rat) ^ ((k : Int) - ds.length) =
      digitsValue (ds.take k ++ frac) * (10 : Rat) ^ (-(frac.length : Int)) := by
  intro frac
  obtain ⟨z, zeros⟩ : ∃ z, (ds.drop k).rtakeWhile (· = '0') = List.replicate z '0' := by
    refine ⟨_, List.eq_replicate_length.mpr fun c hc => ?_⟩
    simpa using List.mem_rtakeWhile_imp hc
  have split : ds = (ds.take k ++ frac) ++ List.replicate z '0' := by
    rw [← zeros, List.append_assoc, List.rdropWhile_append_rtakeWhile, List.take_append_drop]
  have length : ds.length = k + frac.length + z := by
    have := congrArg List.length split
    simp only [List.length_append, List.length_replicate, List.length_take] at this
    omega
  have value : digitsValue ds = digitsValue (ds.take k ++ frac) * 10 ^ z := by
    conv_lhs => rw [split]
    rw [digitsValue_append, digitsValue_zeros, List.length_replicate, Nat.add_zero]
  have shift : (10 : Rat) ^ (-(frac.length : Int)) =
      (10 : Rat) ^ (z : Int) * (10 : Rat) ^ ((k : Int) - ds.length) := by
    rw [← zpow_add₀ (by decide), length]
    congr 1
    omega
  rw [value, shift, zpow_natCast]
  push_cast
  ring

theorem scanReal_point (neg : Bool) {k : Nat} {ds rest rest' : Text} {x : Int}
    (hd : ∀ c ∈ ds, c.isDigit = true) (hk : 0 < k) (le : k ≤ ds.length) (hr : EndsNumber rest)
    (point : ∀ c ∈ rest.head?, c ≠ '.') (exponent : scanExponent rest = some (x, rest')) :
    scanReal ((if neg then ['-'] else []) ++ (withPoint k ds ++ rest)) =
      some (withSign neg (digitsValue ds * (10 : Rat) ^ (x + k - ds.length)), rest') := by
  let frac := (ds.drop k).rdropWhile (· = '0')
  have whole : ∀ c ∈ ds.take k, c.isDigit = true := fun c hc => hd c (List.mem_of_mem_take hc)
  have behind : ∀ c ∈ frac, c.isDigit = true := fun c hc =>
    hd c (List.mem_of_mem_drop ((List.rdropWhile_prefix _ _).subset hc))
  have ends : EndsNumber ((if frac = [] then [] else '.' :: frac) ++ rest) := by
    split
    · exact hr
    · simp [EndsNumber]
  obtain ⟨c, t, lead⟩ : ∃ c t, ds.take k = c :: t := by
    cases e : ds.take k with
    | nil =>
      have none : (ds.take k).length = 0 := by rw [e]; rfl
      rw [List.length_take] at none
      omega
    | cons c t => exact ⟨c, t, rfl⟩
  have digit : c.isDigit = true := whole c (by rw [lead]; exact List.mem_cons_self)
  have text : withPoint k ds ++ rest =
      ds.take k ++ ((if frac = [] then [] else '.' :: frac) ++ rest) := by
    rw [withPoint, List.append_assoc]
  have sign : scanSign (skipSpace ((if neg then ['-'] else []) ++ (withPoint k ds ++ rest))) =
      (neg, withPoint k ds ++ rest) := by
    rw [text, lead]
    cases neg with
    | true => rfl
    | false =>
      rw [if_neg (by decide), List.nil_append, List.cons_append,
        skipSpace_of_head (isSpace_of_isDigit digit), scanSign_of_digit digit]
  have some_ : ds.take k ++ frac ≠ [] := by simp [lead]
  have value : (digitsValue ds : Rat) * (10 : Rat) ^ (x + k - ds.length) =
      digitsValue (ds.take k ++ frac) * (10 : Rat) ^ (x - frac.length) := by
    rw [add_sub_assoc, sub_eq_add_neg x, zpow_add₀ (by decide), zpow_add₀ (by decide),
      mul_left_comm, digitsValue_stripped le, mul_left_comm]
  simp only [scanReal, sign]
  rw [text, takeWhile_digits_append whole ends, dropWhile_digits_append whole ends,
    scanFraction_point behind hr point, if_neg some_, exponent, value]
  rfl

theorem scanExponent_exponentText (x : Int) {rest : Text} (hr : EndsNumber rest) :
    scanExponent (exponentText x ++ rest) = some (x, rest) := by
  let ds := digits x.natAbs
  let padded := if ds.length < 2 then '0' :: ds else ds
  have hd : ∀ c ∈ padded, c.isDigit = true := by
    have own : ∀ c ∈ ds, c.isDigit = true := fun c hc => isDigit_of_mem_digits hc
    intro c hc
    simp only [padded] at hc
    split at hc
    · obtain rfl | hc := List.mem_cons.mp hc
      · rfl
      · exact own c hc
    · exact own c hc
  have some_ : padded ≠ [] := by
    simp only [padded]
    split
    · simp
    · exact digits_ne_nil _
  have value : digitsValue padded = x.natAbs := by
    simp only [padded]
    split
    · have zero : digitsValue ['0'] = 0 := rfl
      have pad := digitsValue_append ['0'] ds
      rw [List.singleton_append, zero, Nat.zero_mul, Nat.zero_add] at pad
      rw [pad, digitsValue_digits]
    · exact digitsValue_digits _
  have whole := takeWhile_digits_append hd hr
  have behind := dropWhile_digits_append hd hr
  have text : exponentText x ++ rest = 'e' :: (if x < 0 then '-' else '+') :: (padded ++ rest) := rfl
  rw [text]
  by_cases neg : x < 0
  · simp only [scanExponent, neg, scanSign, whole, behind, value, some_, signed, true_or, if_true,
      if_false]
    congr 2
    omega
  · simp only [scanExponent, neg, scanSign, whole, behind, value, some_, signed, true_or, if_true,
      if_false]
    simp
    omega

theorem length_digits {n k : Nat} (lo : 10 ^ k ≤ n) (hi : n < 10 ^ (k + 1)) :
    (digits n).length = k + 1 := by
  have most : (digits n).length ≤ k + 1 :=
    (Nat.length_toDigits_le_iff (by decide) (by omega)).mpr hi
  cases k with
  | zero =>
    have := List.length_pos_of_ne_nil (digits_ne_nil n)
    omega
  | succ k =>
    have least : ¬(digits n).length ≤ k + 1 := by
      intro le
      have := (Nat.length_toDigits_le_iff (by decide) (by omega)).mp le
      omega
    omega

/-- The digits of a positive number, and what they say. -/
theorem leadingDigits_spec {n : Nat} {r : Rat} (pos : 0 < r) (few : HasDigits 10 (n + 1) r) :
    let ds := leadingDigits (n + 1) (Int.log 10 r) r
    ds.length = n + 1 ∧ r = digitsValue ds * (10 : Rat) ^ (Int.log 10 r - n) := by
  intro ds
  generalize lead : Int.log 10 r = x at ds
  have unit : (0 : Rat) < (10 : Rat) ^ (x - n) := zpow_pos (by decide) _
  have place : x + 1 - ((n + 1 : Nat) : Int) = x - n := by omega
  have lo := power_log_le (b := 10) (by decide) pos.ne'
  have hi := lt_power_log (b := 10) (by decide) r
  obtain ⟨m, hm⟩ := few.at_place (by decide) pos.ne' (le_refl _)
  rw [abs_of_pos pos, lead] at lo hi hm
  rw [place] at hm
  push_cast at lo hi hm
  have split (k : Int) : (10 : Rat) ^ (x + k) = (10 : Rat) ^ (k + n) * (10 : Rat) ^ (x - n) := by
    rw [← zpow_add₀ (by decide)]
    congr 1
    omega
  have least : (10 : Int) ^ n ≤ m := by
    have scaled : (10 : Rat) ^ (n : Int) * (10 : Rat) ^ (x - n) ≤ m * (10 : Rat) ^ (x - n) := by
      rw [← hm, ← zpow_add₀ (by decide)]
      rwa [show (n : Int) + (x - n) = x by omega]
    exact_mod_cast le_of_mul_le_mul_right scaled unit
  have most : m < (10 : Int) ^ (n + 1) := by
    have scaled : m * (10 : Rat) ^ (x - n) < (10 : Rat) ^ ((1 : Int) + n) * (10 : Rat) ^ (x - n) := by
      rw [← hm, ← split 1]
      exact hi
    have := lt_of_mul_lt_mul_right scaled unit.le
    rw [add_comm (1 : Int)] at this
    exact_mod_cast this
  obtain ⟨k, rfl⟩ := Int.eq_ofNat_of_zero_le (le_trans (by positivity) least)
  have floor : (r / (10 : Rat) ^ (x + 1 - ((n + 1 : Nat) : Int))).floor.toNat = k := by
    have quotient : r / (10 : Rat) ^ (x - n) = ((k : Int) : Rat) := by
      rw [hm]
      field_simp
    rw [place, quotient, Rat.floor_intCast]
    rfl
  have text : ds = digits k := by
    simp only [ds, leadingDigits, lead, floor]
  rw [text]
  refine ⟨length_digits (by exact_mod_cast least) (by exact_mod_cast most), ?_⟩
  rw [digitsValue_digits, hm]
  norm_cast

theorem endsReal_nil : EndsReal [] := by simp [EndsReal]

theorem scanReal_laidOut (n : Nat) (x : Int) {ds rest : Text} (neg : Bool)
    (hd : ∀ c ∈ ds, c.isDigit = true) (hr : EndsReal rest) (some_ : 0 < ds.length)
    (enough : x < n → x + 1 ≤ ds.length) :
    scanReal ((if neg then ['-'] else []) ++ (laidOut n x ds ++ rest)) =
      some (withSign neg (digitsValue ds * (10 : Rat) ^ (x + 1 - ds.length)), rest) := by
  have plain {k : Nat} {ds : Text} (hd : ∀ c ∈ ds, c.isDigit = true) (hk : 0 < k)
      (le : k ≤ ds.length) : scanReal ((if neg then ['-'] else []) ++ (withPoint k ds ++ rest)) =
        some (withSign neg (digitsValue ds * (10 : Rat) ^ ((k : Int) - ds.length)), rest) := by
    have read := scanReal_point neg hd hk le hr.endsNumber hr.noFraction hr.noExponent
    rwa [zero_add] at read
  unfold laidOut
  by_cases scientific : x < -4 ∨ n ≤ x
  · have ends : EndsNumber (exponentText x ++ rest) := by simp [EndsNumber, exponentText]
    have point : ∀ c ∈ (exponentText x ++ rest).head?, c ≠ '.' := by simp [exponentText]
    rw [if_pos scientific, List.append_assoc, scanReal_point neg hd Nat.one_pos some_ ends point
      (scanExponent_exponentText x hr.endsNumber)]
    rfl
  rw [if_neg scientific]
  by_cases small : x < 0
  · have hd' : ∀ c ∈ List.replicate (-x).toNat '0' ++ ds, c.isDigit = true := by
      intro c hc
      obtain hc | hc := List.mem_append.mp hc
      · rw [List.eq_of_mem_replicate hc]
        rfl
      · exact hd c hc
    have length : (List.replicate (-x).toNat '0' ++ ds).length = (-x).toNat + ds.length := by simp
    have value : digitsValue (List.replicate (-x).toNat '0' ++ ds) = digitsValue ds := by
      rw [digitsValue_append, digitsValue_zeros, Nat.zero_mul, Nat.zero_add]
    rw [if_pos small, plain hd' Nat.one_pos (by omega), value, length]
    congr 5
    omega
  · rw [if_neg small, plain hd (by omega) (by omega)]
    congr 5
    omega

theorem leadingDigits_zero (n : Nat) (x : Int) : leadingDigits n x 0 = ['0'] := by
  rw [leadingDigits, zero_div]
  rfl

/-- Reading what was printed gives the number rounded to the digits printed. -/
theorem scanReal_general (n : Nat) (q : Rat) {rest : Text} (hr : EndsReal rest) :
    scanReal (general (n + 1) q ++ rest) = some (rounded 10 (n + 1) q, rest) := by
  have value : withSign (decide (q < 0)) (rounded 10 (n + 1) |q|) = rounded 10 (n + 1) q := by
    by_cases neg : q < 0
    · rw [withSign, if_pos (decide_eq_true neg), abs_of_neg neg, rounded_neg, neg_neg]
    · rw [withSign, if_neg (by simpa using neg), abs_of_nonneg (not_lt.mp neg)]
  have few := rounded_hasDigits (b := 10) (by decide) (Nat.succ_pos n) |q|
  have nonneg : 0 ≤ rounded 10 (n + 1) |q| := rounded_nonneg (by decide) _ (abs_nonneg q)
  rw [← value]
  simp only [general, List.append_assoc]
  generalize rounded 10 (n + 1) |q| = r at few nonneg
  have digit : ∀ c ∈ leadingDigits (n + 1) (Int.log 10 r) r, c.isDigit = true :=
    fun c => isDigit_of_mem_digits
  have read := scanReal_laidOut (n + 1) (Int.log 10 r) (decide (q < 0)) digit hr
  simp only [decide_eq_true_eq] at read
  obtain zero | pos := nonneg.eq_or_lt
  · subst zero
    have lead : Int.log 10 (0 : Rat) = 0 := Int.log_zero_right 10
    have none : digitsValue ['0'] = 0 := rfl
    rw [leadingDigits_zero, lead] at read ⊢
    rw [read (by decide) (by intro; decide), none]
    simp
  · obtain ⟨length, sum⟩ := leadingDigits_spec pos few
    rw [read (by omega) (by omega), length]
    have place : Int.log 10 r + 1 - ((n + 1 : Nat) : Int) = Int.log 10 r - n := by omega
    rw [place, ← sum]

theorem scanReal_general_self (n : Nat) (q : Rat) :
    scanReal (general (n + 1) q) = some (rounded 10 (n + 1) q, []) := by
  simpa using scanReal_general n q endsReal_nil

theorem mem_withPoint {k : Nat} {ds : Text} {c : Char} (h : c ∈ withPoint k ds) :
    c ∈ ds ∨ c = '.' := by
  unfold withPoint at h
  obtain h | h := List.mem_append.mp h
  · exact Or.inl (List.mem_of_mem_take h)
  · split at h
    · cases h
    · obtain rfl | h := List.mem_cons.mp h
      · exact Or.inr rfl
      · exact Or.inl (List.mem_of_mem_drop ((List.rdropWhile_prefix _ _).subset h))

theorem mem_exponentText {x : Int} {c : Char} (h : c ∈ exponentText x) :
    c.isDigit = true ∨ c = 'e' ∨ c = '-' ∨ c = '+' := by
  have digit {c : Char} (h : c ∈ digits x.natAbs) : c.isDigit = true := isDigit_of_mem_digits h
  unfold exponentText at h
  obtain rfl | h := List.mem_cons.mp h
  · exact Or.inr (Or.inl rfl)
  obtain rfl | h := List.mem_cons.mp h
  · split <;> simp
  · left
    split at h
    · obtain rfl | h := List.mem_cons.mp h
      · rfl
      · exact digit h
    · exact digit h

/-- The characters of a printed number. -/
theorem mem_general {n : Nat} {q : Rat} {c : Char} (h : c ∈ general n q) :
    c.isDigit = true ∨ c = '.' ∨ c = 'e' ∨ c = '-' ∨ c = '+' := by
  have point {k m : Nat} {x : Int} {r : Rat} (zeros : Nat)
      (h : c ∈ withPoint k (List.replicate zeros '0' ++ leadingDigits m x r)) :
      c.isDigit = true ∨ c = '.' := by
    obtain h | h := mem_withPoint h
    · obtain h | h := List.mem_append.mp h
      · rw [List.eq_of_mem_replicate h]
        exact Or.inl rfl
      · exact Or.inl (isDigit_of_mem_digits h)
    · exact Or.inr h
  have body {x : Int} {r : Rat} (h : c ∈ laidOut n x (leadingDigits n x r)) :
      c.isDigit = true ∨ c = '.' ∨ c = 'e' ∨ c = '-' ∨ c = '+' := by
    unfold laidOut at h
    split at h
    · obtain h | h := List.mem_append.mp h
      · have := point 0 h
        tauto
      · have := mem_exponentText h
        tauto
    · split at h
      · have := point _ h
        tauto
      · have := point 0 h
        tauto
  obtain h | h := List.mem_append.mp h
  · split at h
    · have := List.mem_singleton.mp h
      tauto
    · cases h
  · exact body h

end RealText
