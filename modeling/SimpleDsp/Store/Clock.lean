import SimpleDsp.Lib.DecimalText

/-!
# Clock readings and the strings made of them

`localtime` is the time zone: it is given, and what it returns is in range by
construction. Dates and time slices are `Stamp`s, texts of digits (and a minus
before the year 0), so they can stand between the separators of a store key.
-/

namespace SimpleDsp

open DecimalText

/-- The fields of `struct tm` the repository reads. -/
structure Tm where
  tm_year : Int
  tm_mon : Fin 12
  tm_mday : Nat
  tm_hour : Fin 24
  tm_min : Fin 60
  tm_wday : Fin 7
  mday_pos : 1 ≤ tm_mday
  mday_le : tm_mday ≤ 31

abbrev Localtime := Int → Tm

structure Stamp where
  text : Text
  plain : ∀ c ∈ text, c.isDigit = true ∨ c = '-'
  deriving DecidableEq

theorem Stamp.ext_iff {a b : Stamp} : a = b ↔ a.text = b.text := by
  cases a; cases b; simp

/-- `setfill('0') << setw(2)` -/
def pad2 (n : Nat) : Text := if n < 10 then '0' :: digits n else digits n

theorem isDigit_of_mem_pad2 {n : Nat} {c : Char} (h : c ∈ pad2 n) : c.isDigit = true := by
  unfold pad2 at h
  split at h
  · rcases List.mem_cons.mp h with rfl | h
    · decide
    · exact isDigit_of_mem_digits h
  · exact isDigit_of_mem_digits h

theorem length_pad2 {n : Nat} (h : n < 100) : (pad2 n).length = 2 := by
  unfold pad2
  split
  · rename_i lt
    simp [digits, Nat.toDigits_of_lt_base lt]
  · rename_i ge
    have le : (digits n).length ≤ 2 := (Nat.length_toDigits_le_iff (by decide) (by decide)).mpr h
    have gt : ¬ (digits n).length ≤ 1 := fun hl =>
      ge ((Nat.length_toDigits_le_iff (by decide) (by decide)).mp hl)
    omega

def dateText (tm : Tm) : Text :=
  decimal (tm.tm_year + 1900) ++ pad2 (tm.tm_mon + 1) ++ pad2 tm.tm_mday

theorem mem_dateText {tm : Tm} {c : Char} (h : c ∈ dateText tm) : c.isDigit = true ∨ c = '-' := by
  simp only [dateText, List.mem_append] at h
  rcases h with (h | h) | h
  · exact mem_decimal h
  · exact Or.inl (isDigit_of_mem_pad2 h)
  · exact Or.inl (isDigit_of_mem_pad2 h)

/-- `get_date_str`, and `datetime_str`, which is the same text. -/
def getDateStr (localtime : Localtime) (t : Int) : Stamp :=
  ⟨dateText (localtime t), fun _ => mem_dateText⟩

def hourMinute (tm : Tm) (time_slice : Nat) : Text :=
  pad2 tm.tm_hour ++ pad2 (tm.tm_min - tm.tm_min % time_slice)

theorem mem_hourMinute {tm : Tm} {time_slice : Nat} {c : Char} (h : c ∈ hourMinute tm time_slice) :
    c.isDigit = true := by
  cases List.mem_append.mp h with
  | inl h => exact isDigit_of_mem_pad2 h
  | inr h => exact isDigit_of_mem_pad2 h

theorem length_hourMinute (tm : Tm) (time_slice : Nat) : (hourMinute tm time_slice).length = 4 := by
  have hh : tm.tm_hour.val < 100 := by omega
  have hm : tm.tm_min.val - tm.tm_min.val % time_slice < 100 := by omega
  simp only [hourMinute, List.length_append, length_pad2 hh, length_pad2 hm]

def getDateTimeStr (localtime : Localtime) (t : Int) (time_slice : Nat) : Stamp where
  text := dateText (localtime t) ++ hourMinute (localtime t) time_slice
  plain := by
    intro c h
    cases List.mem_append.mp h with
    | inl h => exact mem_dateText h
    | inr h => exact Or.inl (mem_hourMinute h)

/-- UTC on the first day of the epoch. -/
def utcFirstDay : Localtime := fun t =>
  { tm_year := 70, tm_mon := 0, tm_mday := 1, tm_wday := 4
    tm_hour := ⟨(t / 3600).toNat % 24, Nat.mod_lt _ (by decide)⟩
    tm_min := ⟨(t / 60).toNat % 60, Nat.mod_lt _ (by decide)⟩
    mday_pos := by decide, mday_le := by decide }

end SimpleDsp
