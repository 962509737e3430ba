import SimpleDsp.Receivers.ShopVisits

/-!
# Messages with lists of addresses

The loops of `parse_apmac_msg` and `parse_apmac_closer_msg` take the number of
entries and their places from the length of the message alone.

* `offsetsFrom_eq`: the `int` that runs along the message;
* `reads_inside_iff`: when it stays inside;
* `decoded_iff`: when a list is read in full.
-/

namespace SimpleDsp

open DecimalText FormatScan

namespace UserMap

/-- The two messages. -/
inductive ListForm
  | apMac | apMacCloser

namespace ListForm

def front : ListForm → Text
  | apMac => "ApMac:".toList
  | apMacCloser => "ApMac-Closer:".toList

/-- Where the list starts. -/
def start : ListForm → Nat
  | apMac => 30
  | apMacCloser => closerOffset

end ListForm

/-- `offset`, round by round. -/
def offsetsFrom (offset : Int32) : Nat → List Int32
  | 0 => []
  | rounds + 1 => offset :: offsetsFrom (offset + 19) rounds

/-- The rounds of the loop. -/
def ListForm.rounds (form : ListForm) (msg : Text) : Nat := (numMacs form.start msg).toInt.toNat

def ListForm.offsets (form : ListForm) (msg : Text) : List Int32 :=
  offsetsFrom (Int32.ofInt form.start) (form.rounds msg)

/-- The memory before the message, backwards, and that behind its end. -/
structure Surroundings where
  before : Nat → Char
  after : Text

/-- The string at `msg + offset`. -/
def stringAt (mem : Surroundings) (msg : Text) (offset : Int32) : Text :=
  match offset.toInt with
  | .ofNat n => cString ((msg ++ nul :: mem.after).drop n)
  | .negSucc n => cString (((List.range (n + 1)).map mem.before).reverse ++ msg)

/-- The numbers read in the loop; `uninit` is what the union holds before. -/
def ListForm.numbers (form : ListForm) (mem : Surroundings) (uninit : Nat → Mac) (msg : Text) :
    List UInt64 :=
  (form.offsets msg).zipIdx.map fun p => strToUint64 (uninit p.2) (stringAt mem msg p.1)

section
variable {form : ListForm} {msg : Text}

theorem offsetsFrom_eq (start : Int) (rounds : Nat) : offsetsFrom (Int32.ofInt start) rounds =
    (List.range rounds).map fun i : Nat => Int32.ofInt (start + 19 * i) := by
  induction rounds generalizing start with
  | zero => rfl
  | succ rounds ih =>
    have next : Int32.ofInt start + 19 = Int32.ofInt (start + 19) := by
      rw [Int32.ofInt_add]
      rfl
    rw [offsetsFrom, next, ih, List.range_succ_eq_map, List.map_cons, List.map_map]
    congr 1
    · simp
    · apply List.map_congr_left
      intro i _
      simp only [Function.comp_apply]
      congr 1
      push_cast
      omega

/-! ## The number of rounds -/

/-- The whole entries behind the header. -/
def ListForm.fullEntries (form : ListForm) (msg : Text) : Nat := (msg.length + 1 - form.start) / 19

theorem rounds_of_short (short : msg.length + 1 < form.start) : 0 < form.rounds msg := by
  have positive30 : ∀ n : Fin 29,
      0 < (Int32.ofInt ((UInt64.ofNat n - UInt64.ofNat 30 + 1) / 19).toNat).toInt.toNat := by decide
  have positive37 : ∀ n : Fin 36,
      0 < (Int32.ofInt ((UInt64.ofNat n - UInt64.ofNat 37 + 1) / 19).toNat).toInt.toNat := by decide
  cases form with
  | apMac =>
    have few : msg.length < 29 := Nat.lt_of_succ_lt_succ short
    exact positive30 ⟨msg.length, few⟩
  | apMacCloser =>
    have few : msg.length < 36 := Nat.lt_of_succ_lt_succ short
    exact positive37 ⟨msg.length, few⟩

theorem rounds_of_long (long : form.start ≤ msg.length + 1) (fits : msg.length < 2 ^ 64) :
    form.rounds msg = (Int.bmod (form.fullEntries msg) (2 ^ 32)).toNat := by
  have header : 0 < form.start ∧ form.start < 2 ^ 64 := by
    cases form with
    | apMac => decide
    | apMacCloser => decide
  have length : (UInt64.ofNat msg.length).toNat = msg.length := UInt64.toNat_ofNat_of_lt' fits
  have start : (UInt64.ofNat form.start).toNat = form.start :=
    UInt64.toNat_ofNat_of_lt' header.2
  have count : ((UInt64.ofNat msg.length - UInt64.ofNat form.start + 1) / 19).toNat =
      form.fullEntries msg := by
    rw [UInt64.toNat_div, UInt64.toNat_add, UInt64.toNat_sub, length, start]
    have one : (1 : UInt64).toNat = 1 := rfl
    have stride : (19 : UInt64).toNat = 19 := rfl
    rw [one, stride, ListForm.fullEntries]
    congr 1
    omega
  rw [ListForm.rounds, numMacs, count, Int32.toInt_ofInt]
  rfl

/-- The entries whose place an `int` can hold. -/
def reachable : Nat := 113025454

theorem rounds_le (long : form.start ≤ msg.length + 1) (fits : msg.length < 2 ^ 64) :
    form.rounds msg ≤ form.fullEntries msg := by
  rw [rounds_of_long long fits]
  simp only [Int.bmod]
  split <;> omega

theorem rounds_reachable_iff (long : form.start ≤ msg.length + 1) (fits : msg.length < 2 ^ 64) :
    form.rounds msg ≤ reachable ↔
      form.fullEntries msg % 2 ^ 32 ≤ reachable ∨ 2 ^ 31 ≤ form.fullEntries msg % 2 ^ 32 := by
  rw [rounds_of_long long fits, reachable]
  simp only [Int.bmod]
  split <;> omega

theorem mem_offsets {o : Int32} (h : o ∈ form.offsets msg) :
    ∃ i < form.rounds msg, o = Int32.ofInt (form.start + 19 * (i : Nat)) := by
  rw [ListForm.offsets, offsetsFrom_eq] at h
  obtain ⟨i, hi, rfl⟩ := List.mem_map.mp h
  exact ⟨i, List.mem_range.mp hi, rfl⟩

theorem offset_mem {i : Nat} (h : i < form.rounds msg) :
    Int32.ofInt (form.start + 19 * i) ∈ form.offsets msg := by
  rw [ListForm.offsets, offsetsFrom_eq]
  exact List.mem_map.mpr ⟨i, List.mem_range.mpr h, rfl⟩

theorem start_lt (form : ListForm) : form.start ≤ 37 := by
  cases form with
  | apMac => decide
  | apMacCloser => decide

theorem toInt_offset_le (i : Nat) :
    (Int32.ofInt (form.start + 19 * i)).toInt ≤ form.start + 19 * i := by
  rw [Int32.toInt_ofInt]
  simp only [Int.bmod, Int32.size]
  split <;> omega

theorem toInt_offset {i : Nat} (h : i < reachable) :
    (Int32.ofInt (form.start + 19 * i)).toInt = form.start + 19 * i := by
  have start := start_lt form
  rw [reachable] at h
  exact Int32.toInt_ofInt_of_le (by omega) (by omega)

theorem toInt_offset_neg : (Int32.ofInt (form.start + 19 * reachable)).toInt < 0 := by
  cases form with
  | apMac => decide
  | apMacCloser => decide

/-- All entries end inside the message. -/
def EndsInside (form : ListForm) (msg : Text) : Prop :=
  (∀ o ∈ form.offsets msg, o.toInt + 17 ≤ msg.length) ∧ form.rounds msg ≤ msg.length

/-- And none starts before it. -/
def ReadsInside (form : ListForm) (msg : Text) : Prop :=
  (∀ o ∈ form.offsets msg, 0 ≤ o.toInt ∧ o.toInt + 17 ≤ msg.length) ∧
    form.rounds msg ≤ msg.length

theorem endsInside_iff (fits : msg.length < 2 ^ 64) :
    EndsInside form msg ↔ form.start ≤ msg.length + 1 := by
  constructor
  · rintro ⟨inside, -⟩
    by_contra short
    have first := inside _ (offset_mem (i := 0) (rounds_of_short (not_le.mp short)))
    rw [toInt_offset (by decide)] at first
    omega
  · intro long
    have rounds := rounds_le long fits
    have whole : 19 * form.fullEntries msg ≤ msg.length + 1 - form.start := Nat.mul_div_le ..
    constructor
    · intro o ho
      obtain ⟨i, hi, rfl⟩ := mem_offsets ho
      have here : (Int32.ofInt (form.start + 19 * i)).toInt ≤ form.start + 19 * i :=
        toInt_offset_le i
      omega
    · omega

theorem readsInside_iff (fits : msg.length < 2 ^ 64) :
    ReadsInside form msg ↔ form.start ≤ msg.length + 1 ∧ form.rounds msg ≤ reachable := by
  constructor
  · rintro ⟨inside, few⟩
    refine ⟨(endsInside_iff fits).mp ⟨fun o ho => (inside o ho).2, few⟩, ?_⟩
    by_contra many
    have negative := (inside _ (offset_mem (not_le.mp many))).1
    exact absurd toInt_offset_neg (not_lt.mpr negative)
  · rintro ⟨long, few⟩
    obtain ⟨inside, bounded⟩ := (endsInside_iff fits).mpr long
    refine ⟨fun o ho => ⟨?_, inside o ho⟩, bounded⟩
    obtain ⟨i, hi, rfl⟩ := mem_offsets ho
    rw [toInt_offset (by omega)]
    omega

/-- The entries end inside the message exactly if it is at most one character shorter than the
header; none starts before it exactly if the `int` does not overflow besides. -/
theorem reads_inside_iff (form : ListForm) (msg : Text) (fits : msg.length < 2 ^ 64) :
    (EndsInside form msg ↔ form.start ≤ msg.length + 1) ∧
    (ReadsInside form msg ↔ form.start ≤ msg.length + 1 ∧
      (form.fullEntries msg % 2 ^ 32 ≤ reachable ∨ 2 ^ 31 ≤ form.fullEntries msg % 2 ^ 32)) := by
  refine ⟨endsInside_iff fits, (readsInside_iff fits).trans ?_⟩
  constructor
  · rintro ⟨long, few⟩
    exact ⟨long, (rounds_reachable_iff long fits).mp few⟩
  · rintro ⟨long, few⟩
    exact ⟨long, (rounds_reachable_iff long fits).mpr few⟩

theorem reads_inside_iff_one :
    ReadsInside .apMac "ApMac:60:cd:a9:00:9a:3a Macs:[a0:b1:c2:d3:e4:f5]".toList :=
  (reads_inside_iff .apMac "ApMac:60:cd:a9:00:9a:3a Macs:[a0:b1:c2:d3:e4:f5]".toList
    (by decide)).2.mpr (by decide)

/-- A message of nothing but its prefix is taken for one with over a thousand million entries. -/
theorem prefix_read_beyond_end : ListForm.apMac.rounds "ApMac:".toList = 1356305460 ∧
    ListForm.apMacCloser.rounds "ApMac-Closer:".toList = 1356305460 ∧
    ¬EndsInside .apMac "ApMac:".toList ∧ ¬EndsInside .apMacCloser "ApMac-Closer:".toList := by
  refine ⟨by decide, by decide, fun inside => ?_, fun inside => ?_⟩
  · exact absurd ((endsInside_iff (by decide)).mp inside) (by decide)
  · exact absurd ((endsInside_iff (by decide)).mp inside) (by decide)

/-! ## The strings at the offsets -/

theorem stringAt_inside (mem : Surroundings) (plain : nul ∉ msg) {offset : Int32} {n : Nat}
    (value : offset.toInt = n) (inside : n ≤ msg.length) :
    stringAt mem msg offset = msg.drop n := by
  have rest : ∀ c ∈ msg.drop n, c ≠ nul := by
    rintro c hc rfl
    exact plain (List.mem_of_mem_drop hc)
  have cut : cString (msg.drop n ++ nul :: mem.after) = msg.drop n := by
    rw [cString, List.takeWhile_append_of_pos (by simpa using rest)]
    simp
  have drop : (msg ++ nul :: mem.after).drop n = msg.drop n ++ nul :: mem.after := by
    rw [List.drop_append_of_le_length inside]
  rw [stringAt, value]
  change cString ((msg ++ nul :: mem.after).drop n) = msg.drop n
  rw [drop, cut]

theorem numbers_eq (form : ListForm) (mem : Surroundings) (uninit : Nat → Mac) (msg : Text) :
    form.numbers mem uninit msg = (List.range (form.rounds msg)).map fun i : Nat =>
      strToUint64 (uninit i) (stringAt mem msg (Int32.ofInt (form.start + 19 * i))) := by
  apply List.ext_getElem
  · simp only [ListForm.numbers, ListForm.offsets, offsetsFrom_eq, List.length_map,
      List.length_zipIdx, List.length_range]
  · intro i _ _
    simp only [ListForm.numbers, ListForm.offsets, offsetsFrom_eq, List.getElem_map,
      List.getElem_zipIdx, List.getElem_range, Nat.zero_add]

/-- Inside the message, the loop is the one that ends where the message does. -/
theorem numbers_inside (mem : Surroundings) (uninit : Nat → Mac) (plain : nul ∉ msg)
    (fits : msg.length < 2 ^ 64) (inside : ReadsInside form msg) :
    form.numbers mem uninit msg = (List.range (form.rounds msg)).map fun i =>
      entryMac (uninit i) form.start msg i := by
  have few := ((readsInside_iff fits).mp inside).2
  rw [numbers_eq]
  apply List.map_congr_left
  intro i hi
  have hi := List.mem_range.mp hi
  have value : (Int32.ofInt (form.start + 19 * i)).toInt = form.start + 19 * i :=
    toInt_offset (lt_of_lt_of_le hi few)
  have ends := (inside.1 _ (offset_mem hi)).2
  have place : (Int32.ofInt (form.start + 19 * i)).toInt = ((form.start + 19 * i : Nat) : Int) := by
    rw [value]
    push_cast
    rfl
  rw [stringAt_inside mem plain place (by omega)]
  rfl

theorem apmacMacs_eq (mem : Surroundings) (uninit : Nat → Mac) (plain : nul ∉ msg)
    (fits : msg.length < 2 ^ 64) (inside : ReadsInside .apMac msg) :
    apmacMacs uninit msg = ListForm.apMac.numbers mem uninit msg :=
  (numbers_inside mem uninit plain fits inside).symm

theorem apmacCloserEntries_eq (mem : Surroundings) (uninit : Nat → Mac) (plain : nul ∉ msg)
    (fits : msg.length < 2 ^ 64) (inside : ReadsInside .apMacCloser msg) :
    (apmacCloserEntries uninit msg).map (·.2) = ListForm.apMacCloser.numbers mem uninit msg := by
  rw [numbers_inside mem uninit plain fits inside, apmacCloserEntries, List.map_map]
  rfl

end

end UserMap

end SimpleDsp
