import SimpleDsp.AdMap.Labels
import Mathlib.Data.List.GetD

/-!
# Schedules stored byte for byte

`check_cron_time_set` gets to see a member up to its first NUL (on Redis: the first
word of that) and takes what lies behind it in memory for the rest of the structure.

* `fits_iff`: `check_cron_timing`, byte by byte;
* `fits_always_iff`, `fits_never_iff`: what the visible bytes settle;
* `cron_time_set_exact_iff`: when the stored schedules decide.
-/

namespace SimpleDsp

open DecimalText

namespace AdMap

/-! ## The structure, byte by byte -/

def byteAt (mem : Text) (i : Nat) : Nat := (mem.getD i nul).toNat

def bitAt (mem : Text) (offset bit : Nat) : Bool := (byteAt mem (offset + bit / 8)).testBit (bit % 8)

theorem byteAt_append_left {v : Text} (b : Text) {i : Nat} (h : i < v.length) :
    byteAt (v ++ b) i = byteAt v i := by
  rw [byteAt, byteAt, List.getD_append _ _ _ _ h]

theorem byteAt_append_right {v : Text} (b : Text) {i : Nat} (h : v.length ≤ i) :
    byteAt (v ++ b) i = byteAt b (i - v.length) := by
  rw [byteAt, byteAt, List.getD_append_right _ _ _ _ h]

theorem byteAt_replicate {n : Nat} (c : Char) {i : Nat} (h : i < n) :
    byteAt (List.replicate n c) i = c.toNat := by
  rw [byteAt, List.getD_eq_getElem _ _ (by simpa using h), List.getElem_replicate]

theorem bitTest_field {mem : Text} {offset size bit : Nat} (h : bit / 8 < size) :
    bitTest ((mem.drop offset).take size) bit = bitAt mem offset bit := by
  have byte : ((mem.drop offset).take size).getD (bit / 8) nul =
      mem.getD (offset + bit / 8) nul := by
    simp [List.getD_eq_getElem?_getD, List.getElem?_take_of_lt h]
  rw [bitTest, byte]
  rfl

theorem ofRaw_take_succ (t : Text) (n : Nat) :
    ofRaw (t.take (n + 1)) = byteAt t 0 + 256 * ofRaw ((t.drop 1).take n) := by
  cases t with
  | nil => simp [ofRaw, byteAt, nul]
  | cons c t => rfl

theorem byteAt_drop (mem : Text) (n i : Nat) : byteAt (mem.drop n) i = byteAt mem (n + i) := by
  simp [byteAt, List.getD_eq_getElem?_getD]

theorem ofRaw_int (mem : Text) (offset : Nat) : ofRaw ((mem.drop offset).take 4) =
    byteAt mem offset + 256 * (byteAt mem (offset + 1) + 256 * (byteAt mem (offset + 2) +
      256 * byteAt mem (offset + 3))) := by
  simp only [ofRaw_take_succ, List.drop_drop, byteAt_drop, List.take_zero]
  simp [ofRaw]

theorem intAt_congr {mem mem' : Text} {offset : Nat}
    (h : ∀ i, i < 4 → byteAt mem (offset + i) = byteAt mem' (offset + i)) :
    intAt mem offset = intAt mem' offset := by
  have h0 : byteAt mem offset = byteAt mem' offset := h 0 (by decide)
  rw [intAt, intAt, ofRaw_int, ofRaw_int, h0, h 1 (by decide), h 2 (by decide), h 3 (by decide)]

theorem testBit_low_byte (b r : Nat) {bit : Nat} (h : bit < 8) :
    (b + 256 * r).testBit bit = b.testBit bit := by
  have low : (b + 256 * r) % 2 ^ 8 = b % 2 ^ 8 := Nat.add_mul_mod_self_left b 256 r
  have e := congrArg (fun n => n.testBit bit) low
  simpa only [Nat.testBit_mod_two_pow, h, decide_true, Bool.true_and] using e

/-- The macros of `flags` name bits of its lowest byte. -/
theorem flags_iff {mem : Text} {flag : Int32} {bit : Nat} (h : bit < 8)
    (named : flag.toBitVec = BitVec.twoPow 32 bit) :
    intAt mem 24 &&& flag ≠ 0 ↔ bitAt mem 24 bit = true := by
  have value : (intAt mem 24).toBitVec = BitVec.ofNat 32 (ofRaw ((mem.drop 24).take 4)) := rfl
  have known : (BitVec.ofNat 32 (ofRaw ((mem.drop 24).take 4))).getLsbD bit = bitAt mem 24 bit := by
    rw [BitVec.getLsbD_ofNat, ofRaw_int, testBit_low_byte _ _ h, bitAt, Nat.div_eq_of_lt h,
      Nat.mod_eq_of_lt h]
    simp [show bit < 32 by omega]
  rw [ne_eq, ← Int32.toBitVec_inj, Int32.toBitVec_and, named, value, BitVec.and_twoPow, known]
  cases bitAt mem 24 bit
  · simp
  · have one : BitVec.twoPow 32 bit ≠ 0#32 := by
      intro zero
      have e := congrArg (fun b => b.getLsbD bit) zero
      simp [show bit < 32 by omega] at e
    simpa using one

/-! ## check_cron_timing -/

section
variable (localtime : Localtime) (time : Int64)

/-- A schedule whose structure starts at `mem`. -/
def Fits (mem : Text) : Prop := checkCronTiming localtime time (.ofMemory mem) = true

instance (mem : Text) : Decidable (Fits localtime time mem) :=
  inferInstanceAs (Decidable (_ = true))

/-- Minute, hour and month. -/
def InTime (mem : Text) : Prop :=
  bitAt mem 0 (localtime time.toInt).tm_min = true ∧
    bitAt mem 8 (localtime time.toInt).tm_hour = true ∧
    bitAt mem 15 (localtime time.toInt).tm_mon = true

def InYear (mem : Text) : Prop := (intAt mem 20).toInt = (localtime time.toInt).tm_year

def OnWeekday (mem : Text) : Prop := bitAt mem 17 (localtime time.toInt).tm_wday = true

def OnDay (mem : Text) : Prop := bitAt mem 11 (localtime time.toInt).tm_mday = true

end

def Starred (mem : Text) : Prop := bitAt mem 24 0 = true ∨ bitAt mem 24 1 = true

section
variable {localtime : Localtime} {time : Int64}

theorem checkCronTiming_iff (time_range : CronTiming) :
    checkCronTiming localtime time time_range = true ↔
      (bitTest time_range.minute (localtime time.toInt).tm_min = true ∧
        bitTest time_range.hour (localtime time.toInt).tm_hour = true ∧
        bitTest time_range.month (localtime time.toInt).tm_mon = true) ∧
      (time_range.flags &&& YEAR_STAR ≠ 0 ∨
        time_range.year.toInt = (localtime time.toInt).tm_year) ∧
      ((time_range.flags &&& DOM_STAR ≠ 0 ∨ time_range.flags &&& DOW_STAR ≠ 0) ∧
          bitTest time_range.dow (localtime time.toInt).tm_wday = true ∧
          bitTest time_range.dom (localtime time.toInt).tm_mday = true ∨
        ¬(time_range.flags &&& DOM_STAR ≠ 0 ∨ time_range.flags &&& DOW_STAR ≠ 0) ∧
          (bitTest time_range.dow (localtime time.toInt).tm_wday = true ∨
            bitTest time_range.dom (localtime time.toInt).tm_mday = true)) := by
  have year : (if time_range.flags &&& YEAR_STAR ≠ 0 then true
      else decide (time_range.year.toInt = (localtime time.toInt).tm_year)) = true ↔
      time_range.flags &&& YEAR_STAR ≠ 0 ∨
        time_range.year.toInt = (localtime time.toInt).tm_year := by
    by_cases star : time_range.flags &&& YEAR_STAR ≠ 0
    · rw [if_pos star]
      exact ⟨fun _ => Or.inl star, fun _ => rfl⟩
    · rw [if_neg star, decide_eq_true_eq]
      exact ⟨Or.inr, fun h => h.resolve_left star⟩
  simp only [checkCronTiming, Bool.and_eq_true, year, and_assoc]
  by_cases star : time_range.flags &&& DOM_STAR ≠ 0 ∨ time_range.flags &&& DOW_STAR ≠ 0
  · simp only [star, if_true, Bool.and_eq_true, true_and, not_true, false_and, or_false]
  · simp only [star, if_false, Bool.or_eq_true, false_and, false_or, not_false_eq_true, true_and]

/-- `check_cron_timing`, by the bytes of the structure. -/
theorem fits_iff (mem : Text) : Fits localtime time mem ↔
    InTime localtime time mem ∧ (bitAt mem 24 5 = true ∨ InYear localtime time mem) ∧
      (Starred mem ∧ OnWeekday localtime time mem ∧ OnDay localtime time mem ∨
        ¬Starred mem ∧ (OnWeekday localtime time mem ∨ OnDay localtime time mem)) := by
  have minute : bitTest (CronTiming.ofMemory mem).minute (localtime time.toInt).tm_min =
      bitAt mem 0 (localtime time.toInt).tm_min := by
    have field : bitTest ((mem.drop 0).take 8) (localtime time.toInt).tm_min =
        bitAt mem 0 (localtime time.toInt).tm_min := bitTest_field (by omega)
    exact field
  have hour : bitTest (CronTiming.ofMemory mem).hour (localtime time.toInt).tm_hour =
      bitAt mem 8 (localtime time.toInt).tm_hour := bitTest_field (by omega)
  have month : bitTest (CronTiming.ofMemory mem).month (localtime time.toInt).tm_mon =
      bitAt mem 15 (localtime time.toInt).tm_mon := bitTest_field (by omega)
  have dow : bitTest (CronTiming.ofMemory mem).dow (localtime time.toInt).tm_wday =
      bitAt mem 17 (localtime time.toInt).tm_wday := bitTest_field (by omega)
  have dom : bitTest (CronTiming.ofMemory mem).dom (localtime time.toInt).tm_mday =
      bitAt mem 11 (localtime time.toInt).tm_mday := by
    have := (localtime time.toInt).mday_le
    exact bitTest_field (by omega)
  have yearStar : (CronTiming.ofMemory mem).flags &&& YEAR_STAR ≠ 0 ↔ bitAt mem 24 5 = true :=
    flags_iff (by decide) (by decide)
  have domStar : (CronTiming.ofMemory mem).flags &&& DOM_STAR ≠ 0 ↔ bitAt mem 24 0 = true :=
    flags_iff (by decide) (by decide)
  have dowStar : (CronTiming.ofMemory mem).flags &&& DOW_STAR ≠ 0 ↔ bitAt mem 24 1 = true :=
    flags_iff (by decide) (by decide)
  rw [Fits, checkCronTiming_iff, minute, hour, month, dow, dom, yearStar, domStar, dowStar]
  exact Iff.rfl

/-! ## What the visible bytes settle -/

theorem bitAt_congr {mem mem' : Text} {n offset bit : Nat}
    (agree : ∀ i, i < n → byteAt mem i = byteAt mem' i) (h : offset + bit / 8 < n) :
    bitAt mem offset bit = bitAt mem' offset bit := by
  rw [bitAt, bitAt, agree _ h]

theorem inTime_congr {mem mem' : Text} (agree : ∀ i, i < 24 → byteAt mem i = byteAt mem' i) :
    InTime localtime time mem ↔ InTime localtime time mem' := by
  rw [InTime, InTime, bitAt_congr agree (by omega), bitAt_congr agree (by omega),
    bitAt_congr agree (by omega)]

theorem inYear_congr {mem mem' : Text} (agree : ∀ i, i < 24 → byteAt mem i = byteAt mem' i) :
    InYear localtime time mem ↔ InYear localtime time mem' := by
  rw [InYear, InYear, intAt_congr fun i hi => agree (20 + i) (by omega)]

theorem onWeekday_congr {mem mem' : Text} (agree : ∀ i, i < 24 → byteAt mem i = byteAt mem' i) :
    OnWeekday localtime time mem ↔ OnWeekday localtime time mem' := by
  rw [OnWeekday, OnWeekday, bitAt_congr agree (by omega)]

theorem onDay_congr {mem mem' : Text} (agree : ∀ i, i < 24 → byteAt mem i = byteAt mem' i) :
    OnDay localtime time mem ↔ OnDay localtime time mem' := by
  have := (localtime time.toInt).mday_le
  rw [OnDay, OnDay, bitAt_congr agree (by omega)]

/-- Of the flags only the lowest byte is looked at. -/
theorem fits_congr {mem mem' : Text} (agree : ∀ i, i < 25 → byteAt mem i = byteAt mem' i) :
    Fits localtime time mem ↔ Fits localtime time mem' := by
  have before : ∀ i, i < 24 → byteAt mem i = byteAt mem' i := fun i hi => agree i (by omega)
  rw [fits_iff, fits_iff, inTime_congr before, inYear_congr before, onWeekday_congr before,
    onDay_congr before, Starred, Starred, bitAt_congr agree (by decide),
    bitAt_congr agree (by decide), bitAt_congr agree (by decide)]

theorem fits_append_congr {v : Text} (long : 25 ≤ v.length) (b b' : Text) :
    Fits localtime time (v ++ b) ↔ Fits localtime time (v ++ b') := by
  apply fits_congr
  intro i hi
  rw [byteAt_append_left b (by omega), byteAt_append_left b' (by omega)]

/-- The structure at its best: what is not visible of the bit strings is full,
and the flags are `YEAR_STAR` alone. -/
def atBest (v : Text) : Text :=
  v ++ List.replicate (24 - v.length) (Char.ofNat 0xff) ++ [Char.ofNat 0x20]

/-- A structure whose flags are all that is not visible, at its worst: `DOM_STAR` alone. -/
def atWorst (v : Text) : Text := v ++ [Char.ofNat 0x01]

theorem testBit_full {bit : Nat} (h : bit < 8) : (0xff : Nat).testBit bit = true := by
  have full := Nat.testBit_two_pow_sub_one 8 bit
  simpa [h] using full

theorem bitAt_atBest {v b : Text} {offset bit : Nat} (h : offset + bit / 8 < 24)
    (set : bitAt (v ++ b) offset bit = true) : bitAt (atBest v) offset bit = true := by
  rw [bitAt, atBest, List.append_assoc]
  by_cases seen : offset + bit / 8 < v.length
  · rw [byteAt_append_left _ seen]
    rwa [bitAt, byteAt_append_left _ seen] at set
  · rw [byteAt_append_right _ (by omega),
      byteAt_append_left _ (by rw [List.length_replicate]; omega), byteAt_replicate _ (by omega),
      toNat_byte (by decide), testBit_full (Nat.mod_lt _ (by decide))]

theorem fits_atBest {v b : Text} (fits : Fits localtime time (v ++ b)) :
    Fits localtime time (atBest v) := by
  by_cases long : 25 ≤ v.length
  · rw [atBest, List.append_assoc]
    exact (fits_append_congr long _ _).mp fits
  · have flags : byteAt (atBest v) 24 = 0x20 := by
      have length : (v ++ List.replicate (24 - v.length) (Char.ofNat 0xff)).length = 24 := by
        rw [List.length_append, List.length_replicate]
        omega
      rw [atBest, byteAt_append_right _ length.le, length]
      rfl
    have yearStar : bitAt (atBest v) 24 5 = true := by
      rw [bitAt, flags]
      decide
    have unstarred : ¬Starred (atBest v) := by
      rw [Starred, bitAt, bitAt, flags]
      decide
    have mday_le := (localtime time.toInt).mday_le
    obtain ⟨⟨minute, hour, month⟩, -, day⟩ := (fits_iff _).mp fits
    have best : InTime localtime time (atBest v) :=
      ⟨bitAt_atBest (by omega) minute, bitAt_atBest (by omega) hour, bitAt_atBest (by omega) month⟩
    refine (fits_iff _).mpr ⟨best, Or.inl yearStar, Or.inr ⟨unstarred, ?_⟩⟩
    rcases day with ⟨-, weekday, -⟩ | ⟨-, weekday | mday⟩
    · exact Or.inl (bitAt_atBest (by omega) weekday)
    · exact Or.inl (bitAt_atBest (by omega) weekday)
    · exact Or.inr (bitAt_atBest (by omega) mday)

theorem fits_of_atWorst {v : Text} (long : 24 ≤ v.length) (fits : Fits localtime time (atWorst v))
    (b : Text) : Fits localtime time (v ++ b) := by
  by_cases flagged : 25 ≤ v.length
  · exact (fits_append_congr flagged _ _).mp fits
  · have length : v.length = 24 := by omega
    have flags : byteAt (atWorst v) 24 = 0x01 := by
      rw [atWorst, byteAt_append_right _ length.le, length]
      rfl
    have agree : ∀ i, i < 24 → byteAt (atWorst v) i = byteAt (v ++ b) i := by
      intro i hi
      rw [atWorst, byteAt_append_left _ (by omega), byteAt_append_left _ (by omega)]
    obtain ⟨inTime, year, day⟩ := (fits_iff _).mp fits
    have inYear : InYear localtime time (atWorst v) := by
      refine year.resolve_left ?_
      rw [bitAt, flags]
      decide
    have both : OnWeekday localtime time (atWorst v) ∧ OnDay localtime time (atWorst v) := by
      rcases day with ⟨-, both⟩ | ⟨unstarred, -⟩
      · exact both
      · refine absurd (Or.inl ?_) unstarred
        rw [bitAt, flags]
        decide
    rw [onWeekday_congr agree, onDay_congr agree] at both
    refine (fits_iff _).mpr ⟨(inTime_congr agree).mp inTime,
      Or.inr ((inYear_congr agree).mp inYear), ?_⟩
    by_cases star : Starred (v ++ b)
    · exact Or.inl ⟨star, both⟩
    · exact Or.inr ⟨star, Or.inl both.1⟩

theorem toInt32_ne {m n : Nat} (h : m % 2 ^ 32 ≠ n % 2 ^ 32) :
    (UInt32.ofNat m).toInt32.toInt ≠ (UInt32.ofNat n).toInt32.toInt := by
  intro same
  have e : (UInt32.ofNat m).toInt32.toBitVec = (UInt32.ofNat n).toInt32.toBitVec :=
    congrArg Int32.toBitVec (Int32.toInt_inj.mp same)
  have values := congrArg BitVec.toNat e
  exact h (by simpa using values)

/-- The highest byte of the year decides whether it is the year. -/
theorem exists_not_fits {v : Text} (short : v.length < 24) :
    ∃ b, ¬Fits localtime time (v ++ b) := by
  by_contra every
  push Not at every
  have length : (v ++ List.replicate (23 - v.length) nul).length = 23 := by
    rw [List.length_append, List.length_replicate]
    omega
  have year (c : Char) : (UInt32.ofNat
      (byteAt (v ++ List.replicate (23 - v.length) nul) 20 +
        256 * (byteAt (v ++ List.replicate (23 - v.length) nul) 21 +
          256 * (byteAt (v ++ List.replicate (23 - v.length) nul) 22 +
            256 * c.toNat)))).toInt32.toInt = (localtime time.toInt).tm_year := by
    have fits := every (List.replicate (23 - v.length) nul ++ [c, nul])
    rw [← List.append_assoc] at fits
    have flags : byteAt (v ++ List.replicate (23 - v.length) nul ++ [c, nul]) 24 = 0 := by
      rw [byteAt_append_right _ (by omega), length]
      rfl
    obtain ⟨-, star | inYear, -⟩ := (fits_iff _).mp fits
    · rw [bitAt, flags] at star
      exact absurd star (by decide)
    · rw [InYear, intAt, ofRaw_int, byteAt_append_left (i := 20) _ (by omega),
        byteAt_append_left (i := 20 + 1) _ (by omega),
        byteAt_append_left (i := 20 + 2) _ (by omega),
        byteAt_append_right (i := 20 + 3) _ (by omega), length] at inYear
      exact inYear
  refine toInt32_ne ?_ ((year nul).trans (year (Char.ofNat 1)).symm)
  have zero : nul.toNat = 0 := rfl
  have one : (Char.ofNat 1).toNat = 1 := rfl
  rw [zero, one]
  omega

end

section
variable (localtime : Localtime) (time : Int64)

/-- All bytes up to the flags are visible, and the schedule fits whatever is not. -/
def FitsAlways (v : Text) : Prop := 24 ≤ v.length ∧ Fits localtime time (atWorst v)

def FitsNever (v : Text) : Prop := ¬Fits localtime time (atBest v)

end

section
variable {localtime : Localtime} {time : Int64}

theorem fits_always_iff (v : Text) :
    (∀ b, Fits localtime time (v ++ b)) ↔ FitsAlways localtime time v := by
  constructor
  · intro every
    refine ⟨?_, every _⟩
    by_contra short
    obtain ⟨b, hb⟩ : ∃ b, ¬Fits localtime time (v ++ b) := exists_not_fits (not_le.mp short)
    exact hb (every b)
  · rintro ⟨long, fits⟩
    exact fits_of_atWorst long fits

theorem fits_never_iff (v : Text) :
    (∀ b, ¬Fits localtime time (v ++ b)) ↔ FitsNever localtime time v := by
  constructor
  · intro none
    have best := none (List.replicate (24 - v.length) (Char.ofNat 0xff) ++ [Char.ofNat 0x20])
    rwa [← List.append_assoc] at best
  · intro never b fits
    exact never (fits_atBest fits)

end

/-! ## The stored schedules -/

/-- The string that `smembers` makes of a member. -/
def memberString (type : TypeDb) (s : Text) : Text :=
  match type with
  | .redis => word (cString s)
  | .tair => cString s

/-- What of a member is sure to be where `check_cron_time_set` looks for the structure. -/
def visible (type : TypeDb) (s : Text) : Text := memberString type s ++ [nul]

def Globals.withBeyond (G : Globals) (beyond : Text → Text) : Globals :=
  { G with m := { G.m with beyond := beyond } }

section
variable {G : Globals} {db : Db} {mall_id ad_group_id : Int32} {S : Finset Text}

theorem mem_cronTimeSet
    (set : setAt (db (Key.adGroup mall_id.toInt ad_group_id.toInt .cronTimeSet).text) = some S)
    (v : Text) :
    v ∈ smembers G db .string (.adGroup mall_id.toInt ad_group_id.toInt .cronTimeSet) ↔
      ∃ s ∈ S, memberString G.type s = v := by
  cases type : G.type with
  | redis =>
    simp only [smembers, CBaseMdb.smembers, type, RedisDb.smembers, serve,
      (Key.isWord_text _).cString, set, RedisDb.members, Option.getD_some, List.mem_map,
      G.m.mem_listing, extract_eq_word, memberString]
  | tair =>
    simp only [smembers, CBaseMdb.smembers, type, TairDb.smembers, set, List.mem_map,
      G.m.mem_listing, Ty.getValue, memberString]

theorem checkCronTimeSet_iff {time : Int64}
    (set : setAt (db (Key.adGroup mall_id.toInt ad_group_id.toInt .cronTimeSet).text) = some S) :
    checkCronTimeSet G db mall_id time ad_group_id = true ↔ S = ∅ ∨
      ∃ s ∈ S, Fits G.localtime time (visible G.type s ++ G.m.beyond (memberString G.type s)) := by
  have blank : (smembers G db .string
      (.adGroup mall_id.toInt ad_group_id.toInt .cronTimeSet)).isEmpty = true ↔ S = ∅ := by
    rw [List.isEmpty_iff, List.eq_nil_iff_forall_not_mem, Finset.eq_empty_iff_forall_notMem]
    constructor
    · intro none s hs
      exact none _ ((mem_cronTimeSet set _).mpr ⟨s, hs, rfl⟩)
    · intro none v hv
      obtain ⟨s, hs, -⟩ := (mem_cronTimeSet set _).mp hv
      exact none s hs
  rw [checkCronTimeSet, Bool.or_eq_true, blank, List.any_eq_true]
  refine or_congr_right ?_
  constructor
  · rintro ⟨v, hv, fits⟩
    obtain ⟨s, hs, rfl⟩ := (mem_cronTimeSet set v).mp hv
    refine ⟨s, hs, ?_⟩
    rw [visible, List.append_assoc]
    exact fits
  · rintro ⟨s, hs, fits⟩
    refine ⟨_, (mem_cronTimeSet set _).mpr ⟨s, hs, rfl⟩, ?_⟩
    rw [visible, List.append_assoc] at fits
    exact fits

variable (G S) in
/-- The visible bytes settle the question: they make one of the schedules fit if one
does, and keep every one of them from it if none does. -/
def Settled (time : Int64) : Prop :=
  ((∃ s ∈ S, Fits G.localtime time s) → ∃ s ∈ S, FitsAlways G.localtime time (visible G.type s)) ∧
    ((∀ s ∈ S, ¬Fits G.localtime time s) →
      ∀ s ∈ S, FitsNever G.localtime time (visible G.type s))

/-- Whatever the memory holds, a group is let through exactly on its schedules, as long
as the visible bytes settle it and only then. -/
theorem cron_time_set_exact_iff (time : Int64)
    (set : setAt (db (Key.adGroup mall_id.toInt ad_group_id.toInt .cronTimeSet).text) = some S) :
    (∀ beyond : Text → Text,
      checkCronTimeSet (G.withBeyond beyond) db mall_id time ad_group_id = true ↔
        S = ∅ ∨ ∃ s ∈ S, checkCronTiming G.localtime time (.ofMemory s) = true) ↔
      Settled G S time := by
  have check (beyond : Text → Text) :
      checkCronTimeSet (G.withBeyond beyond) db mall_id time ad_group_id = true ↔ S = ∅ ∨
        ∃ s ∈ S, Fits G.localtime time (visible G.type s ++ beyond (memberString G.type s)) :=
    checkCronTimeSet_iff (G := G.withBeyond beyond) set
  simp only [check]
  constructor
  · intro exactly
    constructor
    · rintro ⟨s, hs, fits⟩
      -- A memory in which no schedule fits that may fail to.
      have hard : ∀ t, ∃ b, Fits G.localtime time (t ++ [nul] ++ b) →
          FitsAlways G.localtime time (t ++ [nul]) := by
        intro t
        by_cases always : FitsAlways G.localtime time (t ++ [nul])
        · exact ⟨[], fun _ => always⟩
        · rw [← fits_always_iff, not_forall] at always
          obtain ⟨b, hb⟩ := always
          exact ⟨b, fun fits => absurd fits hb⟩
      obtain ⟨beyond, hard⟩ := Classical.skolem.mp hard
      have nonempty : S ≠ ∅ := Finset.ne_empty_of_mem hs
      obtain ⟨s, hs, fits⟩ := ((exactly beyond).mpr (Or.inr ⟨s, hs, fits⟩)).resolve_left nonempty
      exact ⟨s, hs, hard _ fits⟩
    · intro none s hs
      rw [← fits_never_iff]
      intro b fits
      obtain empty | ⟨s, hs, fits⟩ := (exactly fun _ => b).mp (Or.inr ⟨s, hs, fits⟩)
      · exact Finset.ne_empty_of_mem hs empty
      · exact none s hs fits
  · rintro ⟨some, none⟩ beyond
    refine or_congr_right ?_
    constructor
    · rintro ⟨s, hs, fits⟩
      by_contra nowhere
      have never := none (fun s hs fits => nowhere ⟨s, hs, fits⟩) s hs
      exact (fits_never_iff _).mpr never _ fits
    · intro fits
      obtain ⟨s, hs, always⟩ := some fits
      exact ⟨s, hs, (fits_always_iff _).mpr always _⟩

end

/-! ## Schedules to compute with -/

/-- The structure of a schedule with the given bits for the minutes: at any hour of any day. -/
def everyDayAt (minute : Text) : Text :=
  minute ++ List.replicate 10 (Char.ofNat 0xff) ++ [nul, nul] ++ rawBytes 4 0 ++ rawBytes 4 0x20

/-- Group 2 of mall 0 has one schedule. -/
def scheduled (s : Text) : Db :=
  Db.empty.put (Key.adGroup (0 : Int32).toInt (2 : Int32).toInt .cronTimeSet).text (.set {s})

theorem setAt_scheduled (s : Text) : setAt (scheduled s
    (Key.adGroup (0 : Int32).toInt (2 : Int32).toInt .cronTimeSet).text) = some {s} := by
  rw [scheduled, Db.put_self]
  rfl

def halfPast : Text := rawBytes 8 (2 ^ 30)

def everyMinute : Text := List.replicate 8 (Char.ofNat 0xff)

/-- At midnight the lowest minutes are visible, and they keep the group away. -/
theorem cron_time_set_exact_iff_half_past :
    checkCronTimeSet plainRedis (scheduled (everyDayAt halfPast)) 0 0 2 = false := by
  have misses : ¬Fits utcFirstDay 0 (everyDayAt halfPast) := by decide +kernel
  have never : FitsNever utcFirstDay 0 (visible .redis (everyDayAt halfPast)) := by
    unfold FitsNever
    decide +kernel
  have settled : Settled plainRedis {everyDayAt halfPast} 0 := by
    constructor
    · rintro ⟨s, hs, fits⟩
      rw [Finset.mem_singleton.mp hs] at fits
      exact absurd fits misses
    · intro _ s hs
      rw [Finset.mem_singleton.mp hs]
      exact never
  have exactly := (cron_time_set_exact_iff (G := plainRedis) 0 (setAt_scheduled _)).mpr settled
    plainRedis.m.beyond
  cases let_in : checkCronTimeSet plainRedis (scheduled (everyDayAt halfPast)) 0 0 2 with
  | false => rfl
  | true =>
    obtain empty | ⟨s, hs, fits⟩ := exactly.mp let_in
    · exact absurd empty (Finset.singleton_ne_empty _)
    · rw [Finset.mem_singleton.mp hs] at fits
      exact absurd fits misses

/-- A schedule for every minute: its year starts with a NUL, and so does what the
string holds from the padding on. -/
theorem cron_time_set_misses_every_minute :
    (everyDayAt everyMinute).length = 28 ∧
      setAt (scheduled (everyDayAt everyMinute)
        (Key.adGroup (0 : Int32).toInt (2 : Int32).toInt .cronTimeSet).text) =
          some {everyDayAt everyMinute} ∧
      checkCronTiming utcFirstDay 0 (.ofMemory (everyDayAt everyMinute)) = true ∧
      checkCronTimeSet plainRedis (scheduled (everyDayAt everyMinute)) 0 0 2 = false :=
  ⟨rfl, setAt_scheduled _, by decide +kernel, by decide +kernel⟩

end AdMap

end SimpleDsp
