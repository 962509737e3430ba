/-!
# Decimal text

Integers as the characters a stream prints for them, and the scan that reads
them back:

* `decimal`, `decimal_injective`: one text for each integer, made of digits and
  at most one sign;
* `scanInt`: leading white space, an optional sign, then as many digits as there are;
* `scanInt_decimal`: the scan undoes the print, whatever non-digit follows;
* `joined`, `joined_injective`: words put together with a separator that none of
  them contains can be told apart again.
-/

namespace DecimalText

abbrev Text := List Char

/-! ## Digits -/

def digits (n : Nat) : Text := Nat.toDigits 10 n

def digitsValue (t : Text) : Nat := Nat.ofDigitChars 10 t 0

theorem digits_ne_nil (n : Nat) : digits n ≠ [] := Nat.toDigits_ne_nil

theorem isDigit_of_mem_digits {n : Nat} {c : Char} (h : c ∈ digits n) : c.isDigit = true :=
  Nat.isDigit_of_mem_toDigits (by decide) (by decide) h

@[simp] theorem digitsValue_digits (n : Nat) : digitsValue (digits n) = n :=
  Nat.ofDigitChars_ten_toDigits

theorem digits_injective : Function.Injective digits := by
  intro a b h
  simpa using congrArg digitsValue h

/-- A number ends where `t` begins: no digit comes first. -/
def EndsNumber (t : Text) : Prop := ∀ c ∈ t.head?, c.isDigit = false

theorem endsNumber_nil : EndsNumber [] := by simp [EndsNumber]

theorem takeWhile_digits_append {ds rest : Text} (hd : ∀ c ∈ ds, c.isDigit = true)
    (hr : EndsNumber rest) : (ds ++ rest).takeWhile Char.isDigit = ds := by
  rw [List.takeWhile_append_of_pos hd]
  cases rest with
  | nil => simp
  | cons c rest => simp [hr c rfl]

theorem dropWhile_digits_append {ds rest : Text} (hd : ∀ c ∈ ds, c.isDigit = true)
    (hr : EndsNumber rest) : (ds ++ rest).dropWhile Char.isDigit = rest := by
  rw [List.dropWhile_append_of_pos hd]
  cases rest with
  | nil => rfl
  | cons c rest => simp [hr c rfl]

/-! ## Integers -/

def decimal : Int → Text
  | .ofNat n => digits n
  | .negSucc n => '-' :: digits (n + 1)

theorem decimal_ofNat (n : Nat) : decimal (n : Int) = digits n := rfl

theorem mem_decimal {v : Int} {c : Char} (h : c ∈ decimal v) : c.isDigit = true ∨ c = '-' := by
  cases v with
  | ofNat n => exact Or.inl (isDigit_of_mem_digits h)
  | negSucc n =>
    rcases List.mem_cons.mp h with rfl | h
    · exact Or.inr rfl
    · exact Or.inl (isDigit_of_mem_digits h)

theorem decimal_ne_nil (v : Int) : decimal v ≠ [] := by
  cases v with
  | ofNat n => exact digits_ne_nil n
  | negSucc n => simp [decimal]

theorem digits_ne_minus_cons (n : Nat) (t : Text) : digits n ≠ '-' :: t := by
  intro h
  have : '-' ∈ digits n := by simp [h]
  exact absurd (isDigit_of_mem_digits this) (by decide)

theorem decimal_injective : Function.Injective decimal := by
  intro a b h
  cases a with
  | ofNat m =>
    cases b with
    | ofNat n => exact congrArg Int.ofNat (digits_injective h)
    | negSucc n => exact absurd h (digits_ne_minus_cons m _)
  | negSucc m =>
    cases b with
    | ofNat n => exact absurd h.symm (digits_ne_minus_cons n _)
    | negSucc n =>
      have e : digits (m + 1) = digits (n + 1) := (List.cons.inj h).2
      have := digits_injective e
      congr; omega

@[simp] theorem decimal_inj {a b : Int} : decimal a = decimal b ↔ a = b :=
  decimal_injective.eq_iff

/-! ## Scanning -/

/-- The white space of the C locale. -/
def isSpace (c : Char) : Bool :=
  c = ' ' || c = '\t' || c = '\n' || c = '\x0b' || c = '\x0c' || c = '\x0d'

def skipSpace (t : Text) : Text := t.dropWhile isSpace

def word (t : Text) : Text := (skipSpace t).takeWhile fun c => !isSpace c

/-- An optional sign; `true` stands for a minus. -/
def scanSign : Text → Bool × Text
  | '-' :: t => (true, t)
  | '+' :: t => (false, t)
  | t => (false, t)

/-- A sign and a magnitude, as `strtol` reads them in base ten; `none` when no
digit is there to read. -/
def scanSigned (t : Text) : Option ((Bool × Nat) × Text) :=
  let s := scanSign (skipSpace t)
  let ds := s.2.takeWhile Char.isDigit
  if ds = [] then none else some ((s.1, digitsValue ds), s.2.dropWhile Char.isDigit)

def signed (p : Bool × Nat) : Int := if p.1 then -(p.2 : Int) else p.2

def scanInt (t : Text) : Option (Int × Text) :=
  (scanSigned t).map fun p => (signed p.1, p.2)

theorem isSpace_of_isDigit {c : Char} (h : c.isDigit = true) : isSpace c = false := by
  simp only [isSpace, Bool.or_eq_false_iff, decide_eq_false_iff_not]
  refine ⟨⟨⟨⟨⟨?_, ?_⟩, ?_⟩, ?_⟩, ?_⟩, ?_⟩ <;> (rintro rfl; revert h; decide)

theorem skipSpace_of_head {c : Char} {t : Text} (h : isSpace c = false) :
    skipSpace (c :: t) = c :: t := by
  simp [skipSpace, h]

theorem digits_cons (n : Nat) : ∃ c t, digits n = c :: t ∧ c.isDigit = true := by
  cases h : digits n with
  | nil => exact absurd h (digits_ne_nil n)
  | cons c t => exact ⟨c, t, rfl, isDigit_of_mem_digits (n := n) (by simp [h])⟩

theorem scanSign_of_digit {c : Char} {t : Text} (h : c.isDigit = true) :
    scanSign (c :: t) = (false, c :: t) := by
  unfold scanSign
  split
  · rename_i e; cases e; simp at h
  · rename_i e; cases e; simp at h
  · rfl

theorem skipSpace_digits (n : Nat) (rest : Text) :
    skipSpace (digits n ++ rest) = digits n ++ rest := by
  obtain ⟨c, t, e, hc⟩ := digits_cons n
  rw [e, List.cons_append]
  exact skipSpace_of_head (isSpace_of_isDigit hc)

theorem scanSign_digits (n : Nat) (rest : Text) :
    scanSign (digits n ++ rest) = (false, digits n ++ rest) := by
  obtain ⟨c, t, e, hc⟩ := digits_cons n
  rw [e, List.cons_append]
  exact scanSign_of_digit hc

theorem scanSigned_digits (n : Nat) {rest : Text} (hr : EndsNumber rest) :
    scanSigned (digits n ++ rest) = some ((false, n), rest) := by
  have hd : ∀ c ∈ digits n, c.isDigit = true := fun _ h => isDigit_of_mem_digits h
  simp only [scanSigned, skipSpace_digits, scanSign_digits, takeWhile_digits_append hd hr,
    dropWhile_digits_append hd hr, digits_ne_nil, ↓reduceIte, digitsValue_digits]

theorem scanSigned_minus_digits (n : Nat) {rest : Text} (hr : EndsNumber rest) :
    scanSigned ('-' :: (digits n ++ rest)) = some ((true, n), rest) := by
  have hd : ∀ c ∈ digits n, c.isDigit = true := fun _ h => isDigit_of_mem_digits h
  have hs : skipSpace ('-' :: (digits n ++ rest)) = '-' :: (digits n ++ rest) :=
    skipSpace_of_head (by decide)
  simp only [scanSigned, hs, scanSign, takeWhile_digits_append hd hr,
    dropWhile_digits_append hd hr, digits_ne_nil, ↓reduceIte, digitsValue_digits]

/-- Reading a printed integer gives it back and stops right after it. -/
theorem scanInt_decimal (v : Int) {rest : Text} (hr : EndsNumber rest) :
    scanInt (decimal v ++ rest) = some (v, rest) := by
  cases v with
  | ofNat n => simp [scanInt, decimal, scanSigned_digits n hr, signed]
  | negSucc n =>
    simp only [scanInt, decimal, List.cons_append, scanSigned_minus_digits (n + 1) hr,
      Option.map_some, signed]
    rfl

@[simp] theorem scanInt_decimal_self (v : Int) : scanInt (decimal v) = some (v, []) := by
  simpa using scanInt_decimal v endsNumber_nil

@[simp] theorem skipSpace_decimal (v : Int) : skipSpace (decimal v) = decimal v := by
  cases v with
  | ofNat n =>
    have h := skipSpace_digits n []
    rwa [List.append_nil] at h
  | negSucc n => exact skipSpace_of_head (by decide)

theorem isSpace_of_mem_decimal {v : Int} {c : Char} (h : c ∈ decimal v) : isSpace c = false := by
  rcases mem_decimal h with h | rfl
  · exact isSpace_of_isDigit h
  · decide

theorem skipSpace_of_no_space {t : Text} (h : ∀ c ∈ t, isSpace c = false) : skipSpace t = t := by
  cases t with
  | nil => rfl
  | cons c t => exact skipSpace_of_head (h c (by simp))

theorem word_of_no_space {t : Text} (h : ∀ c ∈ t, isSpace c = false) : word t = t := by
  rw [word, skipSpace_of_no_space h]
  have e : (t ++ []).takeWhile (fun c => !isSpace c) = _ :=
    List.takeWhile_append_of_pos fun c hc => by simp [h c hc]
  simpa using e

theorem isSpace_of_mem_word {t : Text} {c : Char} (h : c ∈ word t) : isSpace c = false := by
  simpa using List.all_eq_true.mp List.all_takeWhile c h

theorem length_word_le (t : Text) : (word t).length ≤ t.length :=
  Nat.le_trans (List.takeWhile_prefix _).length_le (List.dropWhile_suffix _).length_le

@[simp] theorem word_decimal (v : Int) : word (decimal v) = decimal v :=
  word_of_no_space fun _ => isSpace_of_mem_decimal

/-- The whole text is one integer in its printed form. -/
def strictInt (t : Text) : Option Int :=
  match scanInt t with
  | some (v, _) => if decimal v = t then some v else none
  | none => none

@[simp] theorem strictInt_decimal (v : Int) : strictInt (decimal v) = some v := by
  simp [strictInt]

theorem eq_decimal_of_strictInt {t : Text} {v : Int} (h : strictInt t = some v) :
    t = decimal v := by
  unfold strictInt at h
  split at h
  · split at h
    · rename_i e
      rw [← e, Option.some.inj h]
    · cases h
  · cases h

/-! ## Words and separators -/

/-- Words put together with `sep` between them. -/
def joined (sep : Char) (ws : List Text) : Text := [sep].intercalate ws

theorem joined_singleton (sep : Char) (w : Text) : joined sep [w] = w := by
  simp [joined, List.intercalate]

theorem joined_cons_cons (sep : Char) (w v : Text) (vs : List Text) :
    joined sep (w :: v :: vs) = w ++ sep :: joined sep (v :: vs) := by
  simp [joined, List.intercalate]

theorem joined_cons_ne_nil {sep : Char} {w : Text} {ws : List Text} (h : w ≠ []) :
    joined sep (w :: ws) ≠ [] := by
  cases ws with
  | nil => simpa [joined, List.intercalate] using h
  | cons v vs => simp [joined_cons_cons]

theorem mem_joined {sep c : Char} {ws : List Text} (h : c ∈ joined sep ws) :
    (∃ w ∈ ws, c ∈ w) ∨ c = sep := by
  induction ws with
  | nil => simp [joined, List.intercalate] at h
  | cons w ws ih =>
    cases ws with
    | nil => exact Or.inl ⟨w, by simp, by simpa [joined, List.intercalate] using h⟩
    | cons v vs =>
      rw [joined_cons_cons, List.mem_append, List.mem_cons] at h
      rcases h with h | h | h
      · exact Or.inl ⟨w, by simp, h⟩
      · exact Or.inr h
      · rcases ih h with ⟨u, hu, hc⟩ | h
        · exact Or.inl ⟨u, List.mem_cons_of_mem _ hu, hc⟩
        · exact Or.inr h

/-- Separated words determine the words, as long as none contains the separator. -/
theorem joined_injective {sep : Char} {a b : List Text} (ha : ∀ w ∈ a, sep ∉ w)
    (hb : ∀ w ∈ b, sep ∉ w) (na : a ≠ []) (nb : b ≠ []) (h : joined sep a = joined sep b) :
    a = b := by
  have e := congrArg (List.splitOn sep) h
  rwa [joined, joined, List.splitOn_intercalate sep ha na,
    List.splitOn_intercalate sep hb nb] at e

end DecimalText
