import SimpleDsp.Lib.DecimalText
import Mathlib.Algebra.Group.Nat.Defs
import Mathlib.Data.List.Forall2

/-!
# Formatted scanning

`scanf` reads a text as a format tells, in the way of the C function, as far as
the conversions `%hhx`, `%d` and `%s` go. It stops at the first directive that
does not match and returns the arguments stored until then.

* `scan_hexes`: bytes written as two hexadecimal digits each, with a separator
  between them, are read back, whatever is no hexadecimal digit follows;
* `scanHexByte_iff`: the texts that `%hhx` accepts, `HexNumber`;
* `scan_hexes_cases`: how far a scan for several of them comes.
-/

namespace FormatScan

open DecimalText

/-! ## Formats -/

inductive Directive
  | space | literal (c : Char) | hexByte | int | word
  deriving DecidableEq

def directives : Text → List Directive
  | '%' :: 'h' :: 'h' :: 'x' :: t => .hexByte :: directives t
  | '%' :: 'h' :: 'h' :: 'X' :: t => .hexByte :: directives t
  | '%' :: 'd' :: t => .int :: directives t
  | '%' :: 's' :: t => .word :: directives t
  | c :: t => (if isSpace c then .space else .literal c) :: directives t
  | [] => []

/-! ## Hexadecimal numbers -/

def isHexDigit (c : Char) : Bool :=
  c.isDigit || ('a' ≤ c && c ≤ 'f') || ('A' ≤ c && c ≤ 'F')

def hexDigitValue (c : Char) : Nat :=
  if c.isDigit then c.toNat - 48 else if 'a' ≤ c then c.toNat - 87 else c.toNat - 55

def hexValue (ds : Text) : Nat := ds.foldl (fun n c => 16 * n + hexDigitValue c) 0

def skipHexPrefix : Text → Text
  | '0' :: 'x' :: t => t
  | '0' :: 'X' :: t => t
  | t => t

/-- `%hhx`: as `strtoul` reads it in base sixteen, cut down to a byte. -/
def scanHexByte (t : Text) : Option (UInt8 × Text) :=
  let s := scanSign (skipSpace t)
  let body := skipHexPrefix s.2
  let ds := body.takeWhile isHexDigit
  if ds = [] then none
  else
    let n := min (hexValue ds) (2 ^ 64 - 1)
    some (UInt8.ofNat (if s.1 then 2 ^ 64 - n else n), body.dropWhile isHexDigit)

/-! ## Scanning -/

inductive Arg
  | byte (b : UInt8) | int (v : Int) | word (t : Text)
  deriving DecidableEq

def scan : List Directive → Text → List Arg
  | [], _ => []
  | .space :: ds, t => scan ds (skipSpace t)
  | .literal _ :: _, [] => []
  | .literal c :: ds, c' :: t => if c' = c then scan ds t else []
  | .hexByte :: ds, t =>
    match scanHexByte t with
    | some (b, rest) => .byte b :: scan ds rest
    | none => []
  | .int :: ds, t =>
    match scanInt t with
    | some (v, rest) => .int v :: scan ds rest
    | none => []
  | .word :: ds, t =>
    if word t = [] then []
    else .word (word t) :: scan ds ((skipSpace t).dropWhile fun c => !isSpace c)

def scanf (format t : Text) : List Arg := scan (directives format) t

/-! ## Bytes written in two digits -/

/-- Two hexadecimal digits, of either case, for a byte. -/
def IsHexOf (b : UInt8) (w : Text) : Prop :=
  ∃ h l, w = [h, l] ∧ isHexDigit h = true ∧ isHexDigit l = true ∧
    16 * hexDigitValue h + hexDigitValue l = b.toNat

/-- No hexadecimal digit comes first. -/
def EndsHex (t : Text) : Prop := ∀ c ∈ t.head?, isHexDigit c = false

theorem endsHex_cons {c : Char} (h : isHexDigit c = false) (t : Text) : EndsHex (c :: t) := by
  simpa [EndsHex] using h

theorem isSpace_of_isHexDigit {c : Char} (h : isHexDigit c = true) : isSpace c = false := by
  simp only [isSpace, Bool.or_eq_false_iff, decide_eq_false_iff_not]
  refine ⟨⟨⟨⟨⟨?_, ?_⟩, ?_⟩, ?_⟩, ?_⟩, ?_⟩ <;> (rintro rfl; revert h; decide)

theorem scanSign_of_isHexDigit {c : Char} {t : Text} (h : isHexDigit c = true) :
    scanSign (c :: t) = (false, c :: t) := by
  unfold scanSign
  split
  · rename_i e
    cases e
    exact absurd h (by decide)
  · rename_i e
    cases e
    exact absurd h (by decide)
  · rfl

theorem skipHexPrefix_of_isHexDigit {c : Char} {t : Text} {d : Char} (h : isHexDigit c = true) :
    skipHexPrefix (d :: c :: t) = d :: c :: t := by
  unfold skipHexPrefix
  split
  · rename_i e
    cases e
    exact absurd h (by decide)
  · rename_i e
    cases e
    exact absurd h (by decide)
  · rfl

theorem takeWhile_hex {t : Text} (h : EndsHex t) : t.takeWhile isHexDigit = [] := by
  cases t with
  | nil => rfl
  | cons c t => simp [h c rfl]

theorem dropWhile_hex {t : Text} (h : EndsHex t) : t.dropWhile isHexDigit = t := by
  cases t with
  | nil => rfl
  | cons c t => simp [h c rfl]

theorem scanHexByte_pair {b : UInt8} {w rest : Text} (hw : IsHexOf b w) (hr : EndsHex rest) :
    scanHexByte (w ++ rest) = some (b, rest) := by
  obtain ⟨h, l, rfl, hh, hl, value⟩ := hw
  have skip : skipSpace ([h, l] ++ rest) = h :: l :: rest :=
    skipSpace_of_head (isSpace_of_isHexDigit hh)
  have lt := b.toNat_lt
  have small : min (hexValue [h, l]) (2 ^ 64 - 1) = b.toNat := by
    have e : hexValue [h, l] = b.toNat := by simpa [hexValue] using value
    omega
  simp only [scanHexByte, skip, scanSign_of_isHexDigit hh, skipHexPrefix_of_isHexDigit hl,
    List.takeWhile_cons, List.dropWhile_cons, hh, hl, takeWhile_hex hr, dropWhile_hex hr, ↓reduceIte,
    small, reduceCtorEq, Bool.false_eq_true, UInt8.ofNat_toNat]

/-- The directives for `n` bytes with `sep` between them. -/
def hexes (sep : Char) : Nat → List Directive
  | 0 => []
  | 1 => [.hexByte]
  | n + 2 => .hexByte :: .literal sep :: hexes sep (n + 1)

theorem scan_hexes {sep : Char} (hsep : isHexDigit sep = false) {bs : List UInt8} {ws : List Text}
    (h : List.Forall₂ IsHexOf bs ws) (ds : List Directive) {rest : Text} (hr : EndsHex rest) :
    scan (hexes sep bs.length ++ ds) (joined sep ws ++ rest) = bs.map .byte ++ scan ds rest := by
  induction h with
  | nil => simp [hexes, joined, List.intercalate]
  | @cons b w bs ws hb h ih =>
    cases h with
    | nil => simp [hexes, joined, List.intercalate, scan, scanHexByte_pair hb hr]
    | @cons b' w' bs ws hb' h =>
      have next : EndsHex (sep :: (joined sep (w' :: ws) ++ rest)) := endsHex_cons hsep _
      simp only [List.length_cons] at ih
      simp only [List.length_cons, hexes, List.cons_append, joined_cons_cons, List.append_assoc,
        scan, scanHexByte_pair hb next, ↓reduceIte, ih, List.map_cons]

theorem skipSpace_hexes {sep : Char} {b : UInt8} {bs : List UInt8} {ws : List Text}
    (h : List.Forall₂ IsHexOf (b :: bs) ws) (rest : Text) :
    skipSpace (joined sep ws ++ rest) = joined sep ws ++ rest := by
  cases h with
  | @cons _ w _ ws hb h =>
    obtain ⟨x, y, rfl, hx, -⟩ := hb
    cases ws with
    | nil => exact skipSpace_of_head (isSpace_of_isHexDigit hx)
    | cons w ws =>
      rw [joined_cons_cons]
      exact skipSpace_of_head (isSpace_of_isHexDigit hx)

/-! ## What `%hhx` accepts -/

/-- A number at the front of a text and what follows it: blanks, a sign, a prefix and
all the digits that are there. -/
inductive HexNumber : Text → Text → Prop
  | mk {blanks sign pre digits rest : Text} (space : ∀ c ∈ blanks, isSpace c = true)
      (signs : sign = [] ∨ sign = ['-'] ∨ sign = ['+'])
      (prefixes : pre = [] ∨ pre = ['0', 'x'] ∨ pre = ['0', 'X']) (some_ : digits ≠ [])
      (hex : ∀ c ∈ digits, isHexDigit c = true) (ends : EndsHex rest)
      (whole : pre = [] → skipHexPrefix (digits ++ rest) = digits ++ rest) :
      HexNumber (blanks ++ (sign ++ (pre ++ (digits ++ rest)))) rest

theorem takeWhile_hex_append {digits rest : Text} (hex : ∀ c ∈ digits, isHexDigit c = true)
    (ends : EndsHex rest) : (digits ++ rest).takeWhile isHexDigit = digits := by
  rw [List.takeWhile_append_of_pos hex, takeWhile_hex ends, List.append_nil]

theorem dropWhile_hex_append {digits rest : Text} (hex : ∀ c ∈ digits, isHexDigit c = true)
    (ends : EndsHex rest) : (digits ++ rest).dropWhile isHexDigit = rest := by
  rw [List.dropWhile_append_of_pos hex, dropWhile_hex ends]

/-- Without a sign and a prefix, the number is that of its digits, or the greatest one
that `strtoul` returns. -/
theorem scanHexByte_digits {digits rest : Text} (some_ : digits ≠ [])
    (hex : ∀ c ∈ digits, isHexDigit c = true) (ends : EndsHex rest)
    (whole : skipHexPrefix (digits ++ rest) = digits ++ rest) :
    scanHexByte (digits ++ rest) =
      some (UInt8.ofNat (min (hexValue digits) (2 ^ 64 - 1)), rest) := by
  obtain ⟨c, more, rfl⟩ := List.exists_cons_of_ne_nil some_
  have first : isHexDigit c = true := hex c List.mem_cons_self
  have blank : skipSpace (c :: more ++ rest) = c :: more ++ rest :=
    skipSpace_of_head (isSpace_of_isHexDigit first)
  have sign : scanSign (c :: more ++ rest) = (false, c :: more ++ rest) :=
    scanSign_of_isHexDigit first
  simp only [scanHexByte, blank, sign, whole, takeWhile_hex_append hex ends,
    dropWhile_hex_append hex ends, some_, ↓reduceIte, Bool.false_eq_true]

theorem scanSign_split (t : Text) :
    ∃ sign : Text, (sign = [] ∨ sign = ['-'] ∨ sign = ['+']) ∧ t = sign ++ (scanSign t).2 := by
  unfold scanSign
  split
  · exact ⟨['-'], Or.inr (Or.inl rfl), rfl⟩
  · exact ⟨['+'], Or.inr (Or.inr rfl), rfl⟩
  · exact ⟨[], Or.inl rfl, rfl⟩

theorem skipHexPrefix_split (t : Text) :
    ∃ pre : Text, (pre = [] ∨ pre = ['0', 'x'] ∨ pre = ['0', 'X']) ∧ t = pre ++ skipHexPrefix t := by
  unfold skipHexPrefix
  split
  · exact ⟨['0', 'x'], Or.inr (Or.inl rfl), rfl⟩
  · exact ⟨['0', 'X'], Or.inr (Or.inr rfl), rfl⟩
  · exact ⟨[], Or.inl rfl, rfl⟩

theorem endsHex_dropWhile (t : Text) : EndsHex (t.dropWhile isHexDigit) := by
  induction t with
  | nil => simp [EndsHex]
  | cons c t ih =>
    cases hex : isHexDigit c with
    | true => rwa [List.dropWhile_cons_of_pos hex]
    | false =>
      rw [List.dropWhile_cons_of_neg (by rw [hex]; decide)]
      exact endsHex_cons hex t

theorem hexNumber_of_scanHexByte {t rest : Text} {b : UInt8} (h : scanHexByte t = some (b, rest)) :
    HexNumber t rest := by
  obtain ⟨sign, signs, hsign⟩ := scanSign_split (skipSpace t)
  obtain ⟨pre, prefixes, hpre⟩ := skipHexPrefix_split (scanSign (skipSpace t)).2
  let body := skipHexPrefix (scanSign (skipSpace t)).2
  have some_ : body.takeWhile isHexDigit ≠ [] := by
    intro none
    simp only [scanHexByte, body] at h none
    rw [if_pos none] at h
    cases h
  have rest_eq : body.dropWhile isHexDigit = rest := by
    simp only [scanHexByte] at h
    rw [if_neg some_] at h
    exact congrArg Prod.snd (Option.some.inj h)
  have digits : body.takeWhile isHexDigit ++ rest = body := by
    rw [← rest_eq, List.takeWhile_append_dropWhile]
  have parts : t = t.takeWhile isSpace ++
      (sign ++ (pre ++ (body.takeWhile isHexDigit ++ rest))) := by
    rw [digits, ← hpre, ← hsign]
    exact List.takeWhile_append_dropWhile.symm
  rw [parts]
  apply HexNumber.mk _ signs prefixes some_
  · exact fun c hc => List.all_eq_true.mp List.all_takeWhile c hc
  · rw [← rest_eq]
    exact endsHex_dropWhile body
  · rintro rfl
    rw [digits]
    exact congrArg skipHexPrefix hpre.symm
  · exact fun c hc => List.all_eq_true.mp List.all_takeWhile c hc

theorem skipSpace_append {blanks t : Text} (space : ∀ c ∈ blanks, isSpace c = true)
    (solid : ∀ c ∈ t.head?, isSpace c = false) : skipSpace (blanks ++ t) = t := by
  rw [skipSpace, List.dropWhile_append_of_pos space]
  cases t with
  | nil => rfl
  | cons c t => exact skipSpace_of_head (solid c rfl)

/-- No digit of a number and no prefix is a sign or a blank. -/
theorem scanSign_sign {sign pre digits : Text} (rest : Text)
    (signs : sign = [] ∨ sign = ['-'] ∨ sign = ['+'])
    (prefixes : pre = [] ∨ pre = ['0', 'x'] ∨ pre = ['0', 'X']) (some_ : digits ≠ [])
    (hex : ∀ c ∈ digits, isHexDigit c = true) :
    (scanSign (sign ++ (pre ++ (digits ++ rest)))).2 = pre ++ (digits ++ rest) ∧
      ∀ c ∈ (sign ++ (pre ++ (digits ++ rest))).head?, isSpace c = false := by
  obtain ⟨d, more, rfl⟩ := List.exists_cons_of_ne_nil some_
  have first : isHexDigit d = true := hex d List.mem_cons_self
  obtain rfl | rfl | rfl := signs
  · obtain rfl | rfl | rfl := prefixes
    · refine ⟨congrArg Prod.snd (scanSign_of_isHexDigit first), ?_⟩
      rintro c ⟨rfl⟩
      exact isSpace_of_isHexDigit first
    · refine ⟨rfl, ?_⟩
      rintro c ⟨rfl⟩
      decide
    · refine ⟨rfl, ?_⟩
      rintro c ⟨rfl⟩
      decide
  · refine ⟨rfl, ?_⟩
    rintro c ⟨rfl⟩
    decide
  · refine ⟨rfl, ?_⟩
    rintro c ⟨rfl⟩
    decide

theorem scanHexByte_iff {t rest : Text} :
    (∃ b, scanHexByte t = some (b, rest)) ↔ HexNumber t rest := by
  constructor
  · rintro ⟨b, h⟩
    exact hexNumber_of_scanHexByte h
  · rintro ⟨space, signs, prefixes, some_, hex, ends, whole⟩
    rename_i sign blanks pre digits
    obtain ⟨sign_eq, solid⟩ := scanSign_sign rest signs prefixes some_ hex
    have body : skipHexPrefix (pre ++ (digits ++ rest)) = digits ++ rest := by
      obtain rfl | rfl | rfl := prefixes
      · exact whole rfl
      · rfl
      · rfl
    simp only [scanHexByte, skipSpace_append space solid, sign_eq, body,
      takeWhile_hex_append hex ends, dropWhile_hex_append hex ends, some_, ↓reduceIte]
    exact ⟨_, rfl⟩

theorem HexNumber.unique {t rest rest' : Text} (h : HexNumber t rest) (h' : HexNumber t rest') :
    rest = rest' := by
  obtain ⟨b, e⟩ := scanHexByte_iff.mpr h
  obtain ⟨b', e'⟩ := scanHexByte_iff.mpr h'
  exact congrArg Prod.snd (Option.some.inj (e.symm.trans e'))

/-- `n` numbers at the front of a text, with `sep` between them, and what follows. -/
inductive HexNumbers (sep : Char) : Nat → Text → Text → Prop
  | one {t rest : Text} (number : HexNumber t rest) : HexNumbers sep 1 t rest
  | more {n : Nat} {t u rest : Text} (number : HexNumber t (sep :: u))
      (later : HexNumbers sep (n + 1) u rest) : HexNumbers sep (n + 2) t rest

theorem HexNumbers.unique {sep : Char} {n : Nat} {t rest rest' : Text}
    (h : HexNumbers sep n t rest) (h' : HexNumbers sep n t rest') : rest = rest' := by
  induction h with
  | one number =>
    cases h' with
    | one number' => exact number.unique number'
  | more number later ih =>
    cases h' with
    | more number' later' =>
      obtain rfl := (List.cons.inj (number.unique number')).2
      exact ih later'

/-- A scan for `n + 1` numbers gets past them, or stores no more than `n`. -/
theorem scan_hexes_cases (sep : Char) (n : Nat) (ds : List Directive) (t : Text) :
    (∃ (rest : Text) (bs : List UInt8), HexNumbers sep (n + 1) t rest ∧ bs.length = n + 1 ∧
      scan (hexes sep (n + 1) ++ ds) t = bs.map .byte ++ scan ds rest) ∨
    (∀ rest, ¬HexNumbers sep (n + 1) t rest) ∧ (scan (hexes sep (n + 1) ++ ds) t).length ≤ n := by
  induction n generalizing t with
  | zero =>
    cases h : scanHexByte t with
    | none =>
      right
      constructor
      · rintro rest ⟨number⟩
        obtain ⟨b, e⟩ := scanHexByte_iff.mpr number
        rw [h] at e
        cases e
      · simp [hexes, scan, h]
    | some p =>
      obtain ⟨b, rest⟩ := p
      left
      refine ⟨rest, [b], .one (hexNumber_of_scanHexByte h), rfl, ?_⟩
      simp [hexes, scan, h]
  | succ n ih =>
    cases h : scanHexByte t with
    | none =>
      right
      constructor
      · intro rest numbers
        cases numbers with
        | more number later =>
          obtain ⟨b, e⟩ := scanHexByte_iff.mpr number
          rw [h] at e
          cases e
      · simp [hexes, scan, h]
    | some p =>
      obtain ⟨b, u⟩ := p
      have here : HexNumber t u := hexNumber_of_scanHexByte h
      have step : scan (hexes sep (n + 2) ++ ds) t =
          .byte b :: scan (.literal sep :: (hexes sep (n + 1) ++ ds)) u := by
        simp [hexes, scan, h]
      by_cases separated : ∃ v, u = sep :: v
      · obtain ⟨v, rfl⟩ := separated
        have next : scan (.literal sep :: (hexes sep (n + 1) ++ ds)) (sep :: v) =
            scan (hexes sep (n + 1) ++ ds) v := by
          simp [scan]
        rw [step, next]
        obtain ⟨rest, bs, later, length, scanned⟩ | ⟨none, few⟩ := ih v
        · left
          refine ⟨rest, b :: bs, .more here later, congrArg Nat.succ length, ?_⟩
          rw [scanned]
          rfl
        · right
          constructor
          · intro rest numbers
            cases numbers with
            | more number later =>
              obtain rfl := (List.cons.inj (here.unique number)).2
              exact none rest later
          · exact Nat.succ_le_succ few
      · right
        constructor
        · intro rest numbers
          cases numbers with
          | more number later => exact separated ⟨_, here.unique number⟩
        · have stops : scan (.literal sep :: (hexes sep (n + 1) ++ ds)) u = [] := by
            cases u with
            | nil => rfl
            | cons c v =>
              have ne : c ≠ sep := fun e => separated ⟨v, by rw [e]⟩
              simp [scan, ne]
          rw [step, stops]
          simp

end FormatScan
