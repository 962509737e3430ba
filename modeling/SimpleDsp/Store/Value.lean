import SimpleDsp.Store.Keys

/-!
# Stored values

The C++ types the repository stores, and the two ways a value becomes bytes: a
stream prints it (Redis) or its memory is copied (Tair). Bytes are characters
with a code below 256.

* `extract_print`: a printed integer is read back;
* `getValue_bytes`: a copied integer is read back.
-/

namespace SimpleDsp

open DecimalText

inductive Ty
  | int | ull | time | double | string
  deriving DecidableEq

/-- Doubles are taken as exact rationals. -/
abbrev Ty.Val : Ty → Type
  | .int => Int32
  | .ull => UInt64
  | .time => Int64
  | .double => Rat
  | .string => Text

def Ty.integral : Ty → Bool
  | .int | .ull | .time => true
  | .double | .string => false

def nul : Char := Char.ofNat 0

/-- What `c_str()` and `get_value<std::string>` leave of a text. -/
def cString (t : Text) : Text := t.takeWhile fun c => c ≠ nul

/-- A text that is one word of a command wherever it stands. -/
structure IsWord (w : Text) : Prop where
  ne_nil : w ≠ []
  plain : ∀ c ∈ w, c ≠ ' ' ∧ c ≠ '%' ∧ c ≠ nul

/-- How the streams and the memory of the machine represent a double. -/
structure Doubles where
  print : Rat → Text
  print_word : ∀ q, IsWord (print q)
  read : Text → Rat
  bits : Rat → UInt64
  ofBits : UInt64 → Rat

theorem cString_eq_self {t : Text} (h : ∀ c ∈ t, c ≠ nul) : cString t = t := by
  have e : (t ++ []).takeWhile (fun c => decide (c ≠ nul)) = _ :=
    List.takeWhile_append_of_pos fun c hc => decide_eq_true (h c hc)
  simpa [cString] using e

theorem nul_notMem_cString (t : Text) : nul ∉ cString t := by
  intro h
  have := List.all_eq_true.mp List.all_takeWhile nul h
  simp at this

theorem cString_append_nul {t rest : Text} (h : nul ∉ t) : cString (t ++ nul :: rest) = t := by
  have plain : ∀ c ∈ t, decide (c ≠ nul) = true := by
    intro c hc
    apply decide_eq_true
    rintro rfl
    exact h hc
  rw [cString, List.takeWhile_append_of_pos plain]
  simp

theorem length_cString_le (t : Text) : (cString t).length ≤ t.length :=
  (List.takeWhile_prefix _).length_le

theorem IsWord.cString {w : Text} (h : IsWord w) : cString w = w :=
  cString_eq_self fun c hc => (h.plain c hc).2.2

theorem isWord_decimal (v : Int) : IsWord (decimal v) where
  ne_nil := decimal_ne_nil v
  plain c h := by
    rcases mem_decimal h with h | rfl
    · refine ⟨?_, ?_, ?_⟩ <;> (rintro rfl; revert h; decide)
    · decide

theorem isWord_digits (n : Nat) : IsWord (digits n) := isWord_decimal n

theorem Key.isWord_macText (mac : UInt64) : IsWord (Key.macText mac) := isWord_digits mac.toNat

theorem Key.isWord_text (k : Key) : IsWord k.text where
  ne_nil := k.text_ne_nil
  plain c h := by
    rcases k.mem_text h with h | rfl
    · refine ⟨?_, ?_, ?_⟩ <;> (rintro rfl; revert h; decide)
    · decide

/-! ## Values as text -/

/-- `stream << value` -/
def Ty.print (d : Doubles) : (τ : Ty) → τ.Val → Text
  | .int, v => decimal v.toInt
  | .ull, v => digits v.toNat
  | .time, v => decimal v.toInt
  | .double, v => d.print v
  | .string, v => v

def clampInt32 (v : Int) : Int32 :=
  if v < -2 ^ 31 then Int32.minValue else if 2 ^ 31 ≤ v then Int32.maxValue else Int32.ofInt v

def clampInt64 (v : Int) : Int64 :=
  if v < -2 ^ 63 then Int64.minValue else if 2 ^ 63 ≤ v then Int64.maxValue else Int64.ofInt v

/-- `std::atoi`: what `strtol` reads, cut down to an `int`. -/
def atoi (s : Text) : Int32 := ((scanInt s).map fun p => (clampInt64 p.1).toInt32).getD 0

/-- An unsigned value is read with its sign and then negated. -/
def clampUInt64 (p : Bool × Nat) : UInt64 :=
  if 2 ^ 64 ≤ p.2 then UInt64.ofNat (2 ^ 64 - 1)
  else if p.1 then -UInt64.ofNat p.2 else UInt64.ofNat p.2

/-- What the variable holds that a stream reads into: a string starts empty, a
number is not initialised. -/
def Ty.initial (uninit : (τ : Ty) → τ.Val) : (τ : Ty) → τ.Val
  | .int => uninit .int
  | .ull => uninit .ull
  | .time => uninit .time
  | .double => uninit .double
  | .string => []

/-- A number that cannot be read is stored as zero, one out of range as the
nearest bound. -/
def Ty.parse (d : Doubles) : (τ : Ty) → Text → τ.Val
  | .int, t => ((scanInt t).map fun p => clampInt32 p.1).getD 0
  | .ull, t => ((scanSigned t).map fun p => clampUInt64 p.1).getD 0
  | .time, t => ((scanInt t).map fun p => clampInt64 p.1).getD 0
  | .double, t => d.read t
  | .string, t => word t

/-- `stream >> value`; from a blank text nothing is stored. -/
def Ty.extract (d : Doubles) (uninit : (τ : Ty) → τ.Val) (τ : Ty) (t : Text) : τ.Val :=
  if skipSpace t = [] then τ.initial uninit else τ.parse d t

/-- A text reads as its first word. -/
theorem extract_eq_word {d : Doubles} {uninit : (τ : Ty) → τ.Val} (t : Text) :
    Ty.extract d uninit .string t = word t := by
  unfold Ty.extract
  split
  · rename_i blank
    rw [word, blank]
    rfl
  · rfl

theorem clampInt32_toInt (v : Int32) : clampInt32 v.toInt = v := by
  have lo := v.le_toInt
  have hi := v.toInt_lt
  rw [clampInt32, if_neg (by omega), if_neg (by omega), Int32.ofInt_toInt]

theorem clampInt64_toInt (v : Int64) : clampInt64 v.toInt = v := by
  have lo := v.le_toInt
  have hi := v.toInt_lt
  rw [clampInt64, if_neg (by omega), if_neg (by omega), Int64.ofInt_toInt]

theorem atoi_decimal {n : Nat} (small : n < 2 ^ 31) : (atoi (decimal n)).toInt = n := by
  have inside : clampInt64 (n : Int) = Int64.ofInt n := by
    rw [clampInt64, if_neg (by omega), if_neg (by omega)]
  simp only [atoi, scanInt_decimal_self, Option.map_some, Option.getD_some, inside,
    Int64.toInt32_ofInt]
  exact Int32.toInt_ofInt_of_le (by omega) (by omega)

theorem clampUInt64_toNat (v : UInt64) : clampUInt64 (false, v.toNat) = v := by
  have hi := v.toNat_lt
  rw [clampUInt64, if_neg (by simp only; omega)]
  simp

theorem parse_print {d : Doubles} {τ : Ty} (h : τ.integral = true) (v : τ.Val) :
    τ.parse d (τ.print d v) = v := by
  cases τ with
  | int => simp [Ty.parse, Ty.print, clampInt32_toInt]
  | ull =>
    have e := scanSigned_digits v.toNat endsNumber_nil
    rw [List.append_nil] at e
    simp [Ty.parse, Ty.print, e, clampUInt64_toNat]
  | time => simp [Ty.parse, Ty.print, clampInt64_toInt]
  | double => cases h
  | string => cases h

theorem skipSpace_print_ne_nil {d : Doubles} {τ : Ty} (h : τ.integral = true) (v : τ.Val) :
    skipSpace (τ.print d v) ≠ [] := by
  cases τ with
  | int => simp [Ty.print, decimal_ne_nil]
  | ull =>
    have e : skipSpace (digits v.toNat) = digits v.toNat := skipSpace_decimal v.toNat
    simp [Ty.print, e, digits_ne_nil]
  | time => simp [Ty.print, decimal_ne_nil]
  | double => cases h
  | string => cases h

/-- What a stream prints of an integer it reads back. -/
theorem extract_print {d : Doubles} {uninit : (τ : Ty) → τ.Val} {τ : Ty} (h : τ.integral = true)
    (v : τ.Val) : τ.extract d uninit (τ.print d v) = v := by
  rw [Ty.extract, if_neg (skipSpace_print_ne_nil h v), parse_print h]

theorem isWord_print (d : Doubles) {τ : Ty} (h : τ ≠ .string) (v : τ.Val) :
    IsWord (τ.print d v) := by
  cases τ with
  | int => exact isWord_decimal _
  | ull => exact isWord_digits _
  | time => exact isWord_decimal _
  | double => exact d.print_word v
  | string => exact absurd rfl h

theorem ne_string_of_integral {τ : Ty} (h : τ.integral = true) : τ ≠ .string := by
  rintro rfl
  cases h

/-! ## Values as memory -/

/-- The `size` bytes of a number in memory, the lowest first. -/
def rawBytes : Nat → Nat → Text
  | 0, _ => []
  | size + 1, n => Char.ofNat (n % 256) :: rawBytes size (n / 256)

def ofRaw (t : Text) : Nat := t.foldr (fun c n => c.toNat + 256 * n) 0

/-- The bytes of `get_data_entry_of_value`. -/
def Ty.bytes (d : Doubles) : (τ : Ty) → τ.Val → Text
  | .int, v => rawBytes 4 v.toUInt32.toNat
  | .ull, v => rawBytes 8 v.toNat
  | .time, v => rawBytes 8 v.toUInt64.toNat
  | .double, v => rawBytes 8 (d.bits v).toNat
  | .string, v => v ++ [nul]

/-- `get_value`; `beyond` is the memory after the entry. -/
def Ty.getValue (d : Doubles) (beyond : Text) : (τ : Ty) → Text → τ.Val
  | .int, data => (UInt32.ofNat (ofRaw ((data ++ beyond).take 4))).toInt32
  | .ull, data => UInt64.ofNat (ofRaw ((data ++ beyond).take 8))
  | .time, data => (UInt64.ofNat (ofRaw ((data ++ beyond).take 8))).toInt64
  | .double, data => d.ofBits (UInt64.ofNat (ofRaw ((data ++ beyond).take 8)))
  | .string, data => cString data

@[simp] theorem length_rawBytes (size n : Nat) : (rawBytes size n).length = size := by
  induction size generalizing n with
  | zero => rfl
  | succ size ih => simp [rawBytes, ih]

theorem toNat_byte {n : Nat} (h : n < 256) : (Char.ofNat n).toNat = n := by
  have valid : n.isValidChar := Or.inl (by omega)
  rw [Char.ofNat, dif_pos valid]
  rfl

theorem ofRaw_rawBytes (size n : Nat) : ofRaw (rawBytes size n) = n % 256 ^ size := by
  induction size generalizing n with
  | zero => simp [rawBytes, ofRaw, Nat.mod_one]
  | succ size ih =>
    have step : ofRaw (rawBytes (size + 1) n) = n % 256 + 256 * ofRaw (rawBytes size (n / 256)) := by
      simp [rawBytes, ofRaw, toNat_byte (Nat.mod_lt n (by decide))]
    rw [step, ih, Nat.pow_succ', Nat.mod_mul]

theorem getValue_bytes {d : Doubles} {beyond : Text} {τ : Ty} (h : τ.integral = true)
    (v : τ.Val) : τ.getValue d beyond (τ.bytes d v) = v := by
  cases τ with
  | int => simp [Ty.getValue, Ty.bytes, ofRaw_rawBytes]
  | ull => simp [Ty.getValue, Ty.bytes, ofRaw_rawBytes]
  | time => simp [Ty.getValue, Ty.bytes, ofRaw_rawBytes]
  | double => cases h
  | string => cases h

end SimpleDsp
