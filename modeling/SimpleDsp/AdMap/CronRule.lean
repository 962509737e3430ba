import SimpleDsp.AdMap.Schedules

/-!
# The cron rule

`check_cron_timing` beside the rule that `cron_timing.h` declares: bit `v - FIRST`
of a string stands for the value `v`.

* `CronRule`, `testedBits`: the rule, and the bits that are tested;
* `cron_rule_iff`: when the check follows the rule.
-/

namespace SimpleDsp

open DecimalText

namespace AdMap

/-! ## The declared layout -/

def FIRST_MINUTE : Nat := 0
def LAST_MINUTE : Nat := 59
def MINUTE_COUNT : Nat := LAST_MINUTE - FIRST_MINUTE + 1

def FIRST_HOUR : Nat := 0
def LAST_HOUR : Nat := 23
def HOUR_COUNT : Nat := LAST_HOUR - FIRST_HOUR + 1

def FIRST_DOM : Nat := 1
def LAST_DOM : Nat := 31
def DOM_COUNT : Nat := LAST_DOM - FIRST_DOM + 1

def FIRST_MONTH : Nat := 1
def LAST_MONTH : Nat := 12
def MONTH_COUNT : Nat := LAST_MONTH - FIRST_MONTH + 1

def FIRST_DOW : Nat := 0
def LAST_DOW : Nat := 7
def DOW_COUNT : Nat := LAST_DOW - FIRST_DOW + 1

/-- The value `v` is in a string whose first value is `first`. -/
def Names (name : Text) (first v : Nat) : Prop := bitTest name (v - first) = true

instance (name : Text) (first v : Nat) : Decidable (Names name first v) :=
  inferInstanceAs (Decidable (_ = true))

section
variable (tm : Tm) (s : CronTiming)

def Unrestricted : Prop := s.flags &&& DOM_STAR ≠ 0 ∨ s.flags &&& DOW_STAR ≠ 0

instance : Decidable (Unrestricted s) := inferInstanceAs (Decidable (_ ∨ _))

def YearFits : Prop := s.flags &&& YEAR_STAR ≠ 0 ∨ s.year.toInt = tm.tm_year

instance : Decidable (YearFits tm s) := inferInstanceAs (Decidable (_ ∨ _))

/-- The months of `struct tm` count from zero, the others as the strings do. -/
structure CronRule : Prop where
  minute : Names s.minute FIRST_MINUTE tm.tm_min
  hour : Names s.hour FIRST_HOUR tm.tm_hour
  month : Names s.month FIRST_MONTH (tm.tm_mon + 1)
  year : YearFits tm s
  day :
    if Unrestricted s then Names s.dom FIRST_DOM tm.tm_mday ∧ Names s.dow FIRST_DOW tm.tm_wday
    else Names s.dom FIRST_DOM tm.tm_mday ∨ Names s.dow FIRST_DOW tm.tm_wday

/-! ## The bits that are tested -/

/-- A test of a bit, in a string declared with `count` bits. -/
structure BitTest where
  count : Nat
  bit : Nat

/-- The tests `check_cron_timing` makes; what decides earlier cuts them off. -/
def testedBits : List BitTest :=
  ⟨MINUTE_COUNT, tm.tm_min⟩ ::
    if bitTest s.minute tm.tm_min then
      ⟨HOUR_COUNT, tm.tm_hour⟩ ::
        if bitTest s.hour tm.tm_hour then
          ⟨MONTH_COUNT, tm.tm_mon⟩ ::
            if bitTest s.month tm.tm_mon ∧ YearFits tm s then
              ⟨DOW_COUNT, tm.tm_wday⟩ ::
                if Unrestricted s ↔ bitTest s.dow tm.tm_wday = true then
                  [⟨DOM_COUNT, tm.tm_mday⟩]
                else []
            else []
        else []
    else []

/-- All but the day of the month is in the schedule, as far as it has to be, and the
weekday leaves the verdict open. -/
structure DayDecides : Prop where
  minute : bitTest s.minute tm.tm_min = true
  hour : bitTest s.hour tm.tm_hour = true
  month : bitTest s.month tm.tm_mon = true
  year : YearFits tm s
  weekday : Unrestricted s ↔ bitTest s.dow tm.tm_wday = true

/-- The check gives the verdict of the rule and stays within the declared bits. -/
structure FollowsRule (localtime : Localtime) (time : Int64) (s : CronTiming) : Prop where
  verdict : checkCronTiming localtime time s = true ↔ CronRule (localtime time.toInt) s
  inside : ∀ b ∈ testedBits (localtime time.toInt) s, b.bit < b.count

end

section
variable {tm : Tm} {s : CronTiming}

/-- Only the day of the month is looked up on a condition that matters. -/
theorem tested_cases {b : BitTest} (h : b ∈ testedBits tm s) :
    b = ⟨MINUTE_COUNT, tm.tm_min⟩ ∨ b = ⟨HOUR_COUNT, tm.tm_hour⟩ ∨
      b = ⟨MONTH_COUNT, tm.tm_mon⟩ ∨ b = ⟨DOW_COUNT, tm.tm_wday⟩ ∨
      DayDecides tm s ∧ b = ⟨DOM_COUNT, tm.tm_mday⟩ := by
  simp only [testedBits, List.mem_cons] at h
  rcases h with h | h
  · exact Or.inl h
  split at h
  case isFalse => simp at h
  rename_i minute
  rcases List.mem_cons.mp h with h | h
  · exact Or.inr (Or.inl h)
  split at h
  case isFalse => simp at h
  rename_i hour
  rcases List.mem_cons.mp h with h | h
  · exact Or.inr (Or.inr (Or.inl h))
  split at h
  case isFalse => simp at h
  rename_i month
  rcases List.mem_cons.mp h with h | h
  · exact Or.inr (Or.inr (Or.inr (Or.inl h)))
  split at h
  case isFalse => simp at h
  rename_i weekday
  refine Or.inr (Or.inr (Or.inr (Or.inr ⟨⟨minute, hour, month.1, month.2, weekday⟩, ?_⟩)))
  simpa using h

theorem inside_iff : (∀ b ∈ testedBits tm s, b.bit < b.count) ↔
    (DayDecides tm s → tm.tm_mday ≠ 31) := by
  have minute : tm.tm_min.val < MINUTE_COUNT := tm.tm_min.isLt
  have hour : tm.tm_hour.val < HOUR_COUNT := tm.tm_hour.isLt
  have month : tm.tm_mon.val < MONTH_COUNT := tm.tm_mon.isLt
  have weekday : tm.tm_wday.val < DOW_COUNT := Nat.lt_succ_of_lt tm.tm_wday.isLt
  have day : tm.tm_mday < DOM_COUNT ↔ tm.tm_mday ≠ 31 := by
    have le := tm.mday_le
    have count : DOM_COUNT = 31 := rfl
    omega
  constructor
  · rintro inside ⟨hminute, hhour, hmonth, hyear, hweekday⟩
    apply day.mp
    apply inside ⟨DOM_COUNT, tm.tm_mday⟩
    simp [testedBits, hminute, hhour, hmonth, hyear, hweekday]
  · intro short b hb
    rcases tested_cases hb with rfl | rfl | rfl | rfl | ⟨decides, rfl⟩
    · exact minute
    · exact hour
    · exact month
    · exact weekday
    · exact day.mpr (short decides)

/-- The weekday leaves the verdict to the day of the month. -/
theorem open_iff {U W D D' : Prop} :
    ((U ∧ W ∧ D ∨ ¬U ∧ (W ∨ D)) ↔ (U ∧ W ∧ D' ∨ ¬U ∧ (W ∨ D'))) ↔ ((U ↔ W) → (D ↔ D')) := by
  by_cases star : U
  · by_cases weekday : W
    · simp [star, weekday]
    · simp [star, weekday]
  · by_cases weekday : W
    · simp [star, weekday]
    · simp [star, weekday]

/-- The day of the month is looked up one bit too far, the rest where the rule has it. -/
theorem cronRule_iff : CronRule tm s ↔
    (bitTest s.minute tm.tm_min = true ∧ bitTest s.hour tm.tm_hour = true ∧
      bitTest s.month tm.tm_mon = true) ∧ YearFits tm s ∧
    (Unrestricted s ∧ bitTest s.dow tm.tm_wday = true ∧ bitTest s.dom (tm.tm_mday - 1) = true ∨
      ¬Unrestricted s ∧
        (bitTest s.dow tm.tm_wday = true ∨ bitTest s.dom (tm.tm_mday - 1) = true)) := by
  have day : (if Unrestricted s then
        Names s.dom FIRST_DOM tm.tm_mday ∧ Names s.dow FIRST_DOW tm.tm_wday
      else Names s.dom FIRST_DOM tm.tm_mday ∨ Names s.dow FIRST_DOW tm.tm_wday) ↔
      Unrestricted s ∧ bitTest s.dow tm.tm_wday = true ∧ bitTest s.dom (tm.tm_mday - 1) = true ∨
        ¬Unrestricted s ∧
          (bitTest s.dow tm.tm_wday = true ∨ bitTest s.dom (tm.tm_mday - 1) = true) := by
    by_cases star : Unrestricted s
    · rw [if_pos star]
      simp [star, Names, FIRST_DOM, FIRST_DOW, and_comm]
    · rw [if_neg star]
      simp [star, Names, FIRST_DOM, FIRST_DOW, or_comm]
  constructor
  · intro rule
    exact ⟨⟨rule.minute, rule.hour, rule.month⟩, rule.year, day.mp rule.day⟩
  · rintro ⟨⟨minute, hour, month⟩, year, h⟩
    exact ⟨minute, hour, month, year, day.mpr h⟩

variable {localtime : Localtime} {time : Int64}

theorem check_iff : checkCronTiming localtime time s = true ↔
    (bitTest s.minute (localtime time.toInt).tm_min = true ∧
      bitTest s.hour (localtime time.toInt).tm_hour = true ∧
      bitTest s.month (localtime time.toInt).tm_mon = true) ∧ YearFits (localtime time.toInt) s ∧
    (Unrestricted s ∧ bitTest s.dow (localtime time.toInt).tm_wday = true ∧
        bitTest s.dom (localtime time.toInt).tm_mday = true ∨
      ¬Unrestricted s ∧ (bitTest s.dow (localtime time.toInt).tm_wday = true ∨
        bitTest s.dom (localtime time.toInt).tm_mday = true)) :=
  checkCronTiming_iff s

theorem verdict_iff :
    (checkCronTiming localtime time s = true ↔ CronRule (localtime time.toInt) s) ↔
      (DayDecides (localtime time.toInt) s →
        bitTest s.dom (localtime time.toInt).tm_mday =
          bitTest s.dom ((localtime time.toInt).tm_mday - 1)) := by
  rw [check_iff, cronRule_iff, and_congr_right_iff, and_congr_right_iff, open_iff]
  constructor
  · rintro same ⟨minute, hour, month, year, weekday⟩
    exact Bool.eq_iff_iff.mpr (same ⟨minute, hour, month⟩ year weekday)
  · rintro same ⟨minute, hour, month⟩ year weekday
    exact Bool.eq_iff_iff.mp (same ⟨minute, hour, month, year, weekday⟩)

/-- The day of the month is looked up in the bit of the day after. -/
theorem cron_rule_iff (localtime : Localtime) (time : Int64) (s : CronTiming) :
    FollowsRule localtime time s ↔
      (DayDecides (localtime time.toInt) s → (localtime time.toInt).tm_mday ≠ 31 ∧
        bitTest s.dom (localtime time.toInt).tm_mday =
          bitTest s.dom ((localtime time.toInt).tm_mday - 1)) := by
  constructor
  · rintro ⟨verdict, inside⟩ decides
    exact ⟨inside_iff.mp inside decides, verdict_iff.mp verdict decides⟩
  · intro h
    exact ⟨verdict_iff.mpr fun decides => (h decides).2, inside_iff.mpr fun decides => (h decides).1⟩

/-- Every minute of the first of a month. -/
def everyFirst : CronTiming where
  minute := List.replicate 8 (Char.ofNat 255)
  hour := List.replicate 3 (Char.ofNat 255)
  dom := [Char.ofNat 1, nul, nul, nul]
  month := List.replicate 2 (Char.ofNat 255)
  dow := [nul]
  year := 0
  flags := YEAR_STAR

/-- On the first of January the schedule of the first of the month is off. -/
theorem first_of_month_missed :
    checkCronTiming utcFirstDay 0 everyFirst = false ∧ CronRule (utcFirstDay 0) everyFirst := by
  have dom : Names everyFirst.dom FIRST_DOM (utcFirstDay 0).tm_mday := by decide
  constructor
  · decide
  · constructor
    · decide
    · decide
    · decide
    · decide
    · rw [if_neg (by decide)]
      exact Or.inl dom

end

end AdMap

end SimpleDsp
