import SimpleDsp.Messages.MultiCount

/-!
# Leaf encoders

What the bytes of a number or of a text say to a reader:

* `decode_pack`: a number that fits is read back, with its sign;
* `handleNumber_encodes`, `handleNodeTime_encodes`: the numbers and the times;
* `string_fixed`, `string_counted`: texts with a length and texts behind a counter;
* `leaf_encoders_exact_iff`: when all of them are as a reader expects.
-/

namespace SimpleDsp.Messages

open DecimalText

/-! ## Fields -/

/-- A little-endian number. -/
structure Format where
  size : Nat
  signed : Bool

def Format.Fits (f : Format) (v : Int) : Prop :=
  if f.signed then -256 ^ f.size ≤ 2 * v ∧ 2 * v < 256 ^ f.size else 0 ≤ v ∧ v < 256 ^ f.size

/-- The upper half of the numbers stands for the negative ones. -/
def Format.decode (f : Format) (bytes : Text) : Int :=
  if f.signed = true ∧ 256 ^ f.size ≤ 2 * (ofRaw bytes : Int) then ofRaw bytes - 256 ^ f.size
  else ofRaw bytes

/-- The bytes decode to the value, or are zeros if the field is too small for it. -/
structure Format.Holds (f : Format) (bytes : Text) (v : Int) : Prop where
  width : bytes.length = f.size
  value : f.Fits v → f.decode bytes = v
  beyond : ¬f.Fits v → bytes = List.replicate f.size nul

/-- The handler returns such bytes. -/
def Encodes (f : Format) (h : Handler Returned) (n : Nat) (v : Int) : Prop :=
  ∃ bytes m, Yields h n (.str bytes) m ∧ f.Holds bytes v

theorem length_pack (size : Nat) (v : Int) : (pack size v).length = size :=
  length_rawBytes size _

theorem ofRaw_pack (size : Nat) (v : Int) : (ofRaw (pack size v) : Int) = v % 256 ^ size := by
  have positive : (0 : Int) < 256 ^ size := Int.pow_pos (by decide)
  have nonneg := Int.emod_nonneg v (Int.ne_of_gt positive)
  have below : (v % 256 ^ size).toNat < 256 ^ size := by
    apply Int.ofNat_lt.mp
    rw [Int.toNat_of_nonneg nonneg, Int.natCast_pow]
    exact Int.emod_lt_of_pos v positive
  rw [pack, ofRaw_rawBytes, Nat.mod_eq_of_lt below, Int.toNat_of_nonneg nonneg]

theorem decode_pack {f : Format} {v : Int} (fits : f.Fits v) : f.decode (pack f.size v) = v := by
  have positive : (0 : Int) < 256 ^ f.size := Int.pow_pos (by decide)
  unfold Format.Fits at fits
  rw [Format.decode, ofRaw_pack]
  by_cases negative : v < 0
  · cases sign : f.signed with
    | false =>
      rw [sign, if_neg Bool.false_ne_true] at fits
      omega
    | true =>
      rw [sign, if_pos rfl] at fits
      have wraps : v % 256 ^ f.size = v + 256 ^ f.size := by
        rw [← Int.add_emod_right, Int.emod_eq_of_lt (by omega) (by omega)]
      rw [wraps, if_pos ⟨rfl, by omega⟩]
      omega
  · cases sign : f.signed with
    | false =>
      rw [sign, if_neg Bool.false_ne_true] at fits
      rw [if_neg (by simp), Int.emod_eq_of_lt fits.1 fits.2]
    | true =>
      rw [sign, if_pos rfl] at fits
      rw [Int.emod_eq_of_lt (by omega) (by omega), if_neg (by omega)]

theorem Format.holds_pack {f : Format} {v : Int} (fits : f.Fits v) : f.Holds (pack f.size v) v where
  width := length_pack f.size v
  value := decode_pack
  beyond wide := absurd fits wide

theorem Format.holds_zeros {f : Format} {v : Int} (wide : ¬f.Fits v) :
    f.Holds (List.replicate f.size nul) v where
  width := List.length_replicate
  value fits := absurd fits wide
  beyond _ := rfl

/-! ## Numbers -/

theorem int_nil : int [] = none := rfl

section
variable {node : Node} {n : Nat} {v : Int}

theorem handleNumber_encodes (f : Format) {least most : Int}
    (range : ∀ v, f.Fits v ↔ least ≤ v ∧ v ≤ most) (value : int node.text = some v) :
    Encodes f (handleNumber f.size least most node) n v := by
  have some_ : node.text ≠ [] := by
    intro none
    rw [none, int_nil] at value
    cases value
  have run := (yields_ofOption (n := n) value).bind (f := fun value =>
    pure (if value < least ∨ most < value then zeros f.size else .str (pack f.size value)))
    (yields_pure _ n)
  rw [Encodes, handleNumber, if_neg some_]
  by_cases fits : f.Fits v
  · have inside := (range v).mp fits
    rw [if_neg (by omega)] at run
    exact ⟨_, n, run, f.holds_pack fits⟩
  · have outside := mt (range v).mpr fits
    rw [if_pos (by omega)] at run
    exact ⟨_, n, run, f.holds_zeros fits⟩

/-! ## Times -/

/-- The seconds that the text of a time node stands for. -/
def timeValue (E : Surroundings) (node : Node) (n : Nat) : Option Int :=
  if node.text = [] ∨ node.text = "0".toList then some 0
  else if node.text = "now".toList then some (E.now n)
  else E.mktime node.text

def timeFormat : Format := ⟨4, false⟩

theorem fits_time (v : Int) : timeFormat.Fits v ↔ 0 ≤ v ∧ v < 2 ^ 32 := by
  simp [timeFormat, Format.Fits]

variable {E : Surroundings}

/-- What is made of `mk_time`. -/
def packTime (mk_time : Int) : Handler Returned :=
  if mk_time < 0 ∨ 2 ^ 32 < mk_time then pure (zeros 4)
  else if mk_time = 2 ^ 32 then raise
  else pure (.str (pack 4 mk_time))

theorem packTime_encodes (ne : v ≠ 2 ^ 32) : Encodes timeFormat (packTime v) n v := by
  unfold Encodes packTime
  by_cases fits : timeFormat.Fits v
  · have inside := (fits_time v).mp fits
    rw [if_neg (by omega), if_neg ne]
    exact ⟨_, n, yields_pure _ n, timeFormat.holds_pack fits⟩
  · have outside := mt (fits_time v).mpr fits
    rw [if_pos (by omega)]
    exact ⟨_, n, yields_pure _ n, timeFormat.holds_zeros fits⟩

/-- The clock is read where the text says so. -/
theorem outcome_time (some_ : ¬(node.text = [] ∨ node.text = "0".toList))
    (value : timeValue E node n = some v) :
    ∃ m, outcome (handleNodeTime E node) n = outcome (packTime v) m := by
  rw [timeValue, if_neg some_] at value
  rw [handleNodeTime, if_neg some_]
  by_cases now : node.text = "now".toList
  · rw [if_pos now] at value
    obtain rfl := Option.some.inj value
    rw [if_pos now]
    exact ⟨n + 1, rfl⟩
  · rw [if_neg now] at value
    rw [if_neg now, value]
    exact ⟨n, rfl⟩

theorem handleNodeTime_encodes (value : timeValue E node n = some v) (ne : v ≠ 2 ^ 32) :
    Encodes timeFormat (handleNodeTime E node) n v := by
  by_cases zero : node.text = [] ∨ node.text = "0".toList
  · rw [timeValue, if_pos zero] at value
    obtain rfl := Option.some.inj value
    unfold Encodes handleNodeTime
    rw [if_pos zero, zeros, ← rawBytes_zero]
    exact ⟨_, n, yields_pure _ n, timeFormat.holds_pack ((fits_time 0).mpr (by decide))⟩
  · obtain ⟨m, run⟩ := outcome_time zero value
    obtain ⟨bytes, m', yields, holds⟩ := packTime_encodes (n := m) ne
    exact ⟨bytes, m', run.trans yields, holds⟩

/-- The first number of seconds that does not fit is let through to `pack_into`. -/
theorem handleNodeTime_raises (value : timeValue E node n = some (2 ^ 32)) :
    (outcome (handleNodeTime E node) n).1 = none := by
  have some_ : ¬(node.text = [] ∨ node.text = "0".toList) := by
    intro zero
    rw [timeValue, if_pos zero] at value
    cases value
  obtain ⟨m, run⟩ := outcome_time some_ value
  rw [run]
  rfl

/-! ## Texts -/

/-- The text cut off or filled up with zeros. -/
def fixed (text : Text) (length : Nat) : Text :=
  (text ++ List.replicate length nul).take length

theorem length_fixed (text : Text) (length : Nat) : (fixed text length).length = length := by
  simp [fixed]

theorem fixed_of_lt {text : Text} {length : Nat} (h : length < text.length) :
    fixed text length = text.take length := List.take_append_of_le_length (Nat.le_of_lt h)

theorem fixed_of_ge {text : Text} {length : Nat} (h : text.length ≤ length) :
    fixed text length = text ++ List.replicate (length - text.length) nul := by
  rw [fixed, List.take_append, List.take_of_length_le h, List.take_replicate]
  congr 2
  omega

theorem ofText_ascii {t : Text} (ascii : t.all isAscii = true) : ofText t = .str t := if_pos ascii

theorem string_fixed {t : Text} {length : Nat} (ascii : node.text.all isAscii = true)
    (given : node.get "length" = some t) (number : int t = some (length : Int)) :
    Yields (handleNodeString node) n (.str (fixed node.text length)) n := by
  cases t with
  | nil => cases number
  | cons c t =>
    unfold handleNodeString
    rw [given]
    apply (yields_ofOption number).bind
    rw [ofText_ascii ascii]
    by_cases cut : length < node.text.length
    · rw [if_pos (by omega), fixed_of_lt cut, slice, if_pos (by omega), Int.toNat_natCast]
      exact yields_pure _ n
    · have fill : ((length : Int) - node.text.length).toNat = length - node.text.length := by omega
      rw [if_neg (by omega), fixed_of_ge (by omega), fill]
      exact yields_ofOption (add_str _ _)

theorem string_most (node : Node) :
    (stringCounter node).most + 1 = 256 ^ (stringCounter node).width := by
  unfold stringCounter
  split <;> rfl

/-- What a reader takes for a counter and what is behind it agree. -/
structure Counted (width : Nat) (bytes body : Text) : Prop where
  field : width ≤ bytes.length
  count : ofRaw (bytes.take width) = (bytes.drop width).length
  body : bytes.drop width = body

theorem counted_rawBytes {width : Nat} {body : Text} (fits : body.length < 256 ^ width) :
    Counted width (rawBytes width body.length ++ body) body := by
  have field : (rawBytes width body.length ++ body).take width = rawBytes width body.length :=
    List.take_left' (length_rawBytes width body.length)
  have rest : (rawBytes width body.length ++ body).drop width = body :=
    List.drop_left' (length_rawBytes width body.length)
  refine ⟨?_, ?_, rest⟩
  · rw [List.length_append, length_rawBytes]
    omega
  · rw [field, rest, ofRaw_rawBytes, Nat.mod_eq_of_lt fits]

theorem string_counted (ascii : node.text.all isAscii = true)
    (free : (node.get "length").getD [] = []) :
    ∃ bytes, Yields (handleNodeString node) n (.str bytes) n ∧
      Counted (stringCounter node).width bytes
        (if node.text.length < 256 ^ (stringCounter node).width then node.text else []) := by
  have most := string_most node
  have empty : Counted (stringCounter node).width
      (List.replicate (stringCounter node).width nul) [] := by
    have zero : Counted (stringCounter node).width
        (rawBytes (stringCounter node).width ([] : Text).length ++ []) [] :=
      counted_rawBytes (Nat.pow_pos (by decide))
    rwa [List.length_nil, rawBytes_zero, List.append_nil] at zero
  rw [handleNodeString_counts free]
  by_cases none : node.text.length = 0
  · rw [if_pos (Or.inl none), List.length_eq_zero_iff.mp none, ite_self]
    exact ⟨_, yields_pure _ n, empty⟩
  · by_cases fits : node.text.length < 256 ^ (stringCounter node).width
    · rw [if_neg (by omega), if_pos fits, ofText_ascii ascii, add_str, pack_natCast fits]
      exact ⟨_, yields_pure _ n, counted_rawBytes fits⟩
    · rw [if_pos (Or.inr (by omega)), if_neg fits]
      exact ⟨_, yields_pure _ n, empty⟩

end

/-! ## All leaves -/

/-- A reader finds the number or the text of the node in its bytes, whichever of these
handlers it has. The texts are those that the parser keeps as bytes. -/
structure LeafEncodersExact (E : Surroundings) (node : Node) (n : Nat) : Prop where
  byteField : ∀ v, int node.text = some v → Encodes ⟨1, false⟩ (handleNodeByte node) n v
  shortField : ∀ v, int node.text = some v → Encodes ⟨2, true⟩ (handleNodeShort node) n v
  intField : ∀ v, int node.text = some v → Encodes ⟨4, true⟩ (handleNodeInt node) n v
  uintField : ∀ v, int node.text = some v → Encodes ⟨4, false⟩ (handleNodeUint node) n v
  timeField : ∀ v, timeValue E node n = some v →
    Encodes ⟨4, false⟩ (handleNodeTime E node) n v
  fixedText : node.text.all isAscii = true →
    ∀ length, (node.get "length").bind int = some length →
      ∃ bytes, Yields (handleNodeString node) n (.str bytes) n ∧
        (bytes.length : Int) = length ∧ bytes = fixed node.text length.toNat
  countedText : node.text.all isAscii = true → (node.get "length").getD [] = [] →
    ∃ bytes, Yields (handleNodeString node) n (.str bytes) n ∧
      Counted (stringCounter node).width bytes
        (if node.text.length < 256 ^ (stringCounter node).width then node.text else [])

/-- Unless the seconds are `2 ** 32`, or the length of a text is given as less than nothing. -/
theorem leaf_encoders_exact_iff (E : Surroundings) (node : Node) (n : Nat) :
    LeafEncodersExact E node n ↔
      timeValue E node n ≠ some (2 ^ 32) ∧
        (node.text.all isAscii = true →
          ∀ length, (node.get "length").bind int = some length → 0 ≤ length) := by
  constructor
  · intro exact_
    constructor
    · intro value
      obtain ⟨bytes, m, yields, -⟩ := exact_.timeField _ value
      have raised := handleNodeTime_raises value
      rw [yields] at raised
      cases raised
    · intro ascii length given
      obtain ⟨bytes, -, width, -⟩ := exact_.fixedText ascii length given
      omega
  · rintro ⟨seconds, nonneg⟩
    refine ⟨?_, ?_, ?_, ?_, ?_, ?_, ?_⟩
    · intro v value
      exact handleNumber_encodes ⟨1, false⟩ (by simp [Format.Fits]; omega) value
    · intro v value
      exact handleNumber_encodes ⟨2, true⟩ (by simp [Format.Fits]; omega) value
    · intro v value
      exact handleNumber_encodes ⟨4, true⟩ (by simp [Format.Fits]; omega) value
    · intro v value
      exact handleNumber_encodes ⟨4, false⟩ (by simp [Format.Fits]; omega) value
    · intro v value
      apply handleNodeTime_encodes value
      rintro rfl
      exact seconds value
    · intro ascii length given
      obtain ⟨t, here, number⟩ := Option.bind_eq_some_iff.mp given
      obtain ⟨length, rfl⟩ := Int.eq_ofNat_of_zero_le (nonneg ascii length given)
      refine ⟨_, string_fixed ascii here number, ?_, rfl⟩
      rw [length_fixed]
    · exact fun ascii free => string_counted ascii free

/-- A machine in Greenwich. -/
def greenwich : Surroundings where
  document := fun _ => none
  packed := fun _ => none
  now := fun _ => 0
  mktime := fun t => if t = "2106/02/07 06:28:16".toList then some (2 ^ 32) else none
  writable := true

/-- The second after the last one that fits. -/
def lastSecond : Node := .element "time".toList [] "2106/02/07 06:28:16".toList []

/-- `pack_into` raises for it. -/
theorem leaf_encoders_last_second :
    timeValue greenwich lastSecond 0 = some (2 ^ 32) ∧ ¬LeafEncodersExact greenwich lastSecond 0 := by
  refine ⟨rfl, fun exact_ => ?_⟩
  obtain ⟨bytes, m, yields, -⟩ := exact_.timeField (2 ^ 32) rfl
  cases yields

end SimpleDsp.Messages
