import SimpleDsp.Lib.FormatScan
import SimpleDsp.Store.Keys
import Mathlib.Data.Fintype.Basic
import Mathlib.Tactic.FinCases

/-!
# MAC addresses as numbers

The union `Mac` by its bytes, the lowest first, and the two functions that go
from a number to a text and back.

* `number_store`: six stored bytes and what the union held before;
* `uint64ToStr_eq`, `isMacText_macWords`: the text of a number.
-/

namespace SimpleDsp

open DecimalText FormatScan

namespace UserMap

abbrev Mac := Fin 8 → UInt8

namespace Mac

/-- `mac.number`, on a little-endian machine. -/
def number (m : Mac) : UInt64 :=
  UInt64.ofNat ((List.ofFn m).foldr (fun b n => b.toNat + 256 * n) 0)

def ofNumber (n : UInt64) : Mac := fun i => UInt8.ofNat (byteAt n.toNat i)

/-- The union after a scan into `mac.bytes + 5` down to `mac.bytes`. -/
def store (m : Mac) (args : List Arg) : Mac :=
  (args.zip [5, 4, 3, 2, 1, 0]).foldl
    (fun m p =>
      match p.1 with
      | .byte b => Function.update m p.2 b
      | _ => m)
    m

/-- The two bytes that a scan does not store are zero. -/
def HighZero (m : Mac) : Prop := m 6 = 0 ∧ m 7 = 0

end Mac

/-- `uint64_to_str` -/
def uint64ToStr (num : UInt64) : Text :=
  let bytes := Mac.ofNumber num
  joined ':' (([5, 4, 3, 2, 1, 0] : List (Fin 8)).map fun i => hexByte (bytes i).toNat)

/-- `str_to_uint64`; `uninit` is what the union holds before. -/
def strToUint64 (uninit : Mac) (str : Text) : UInt64 :=
  (uninit.store (scanf "%hhx:%hhx:%hhx:%hhx:%hhx:%hhx".toList str)).number

/-! ## Addresses as text -/

/-- The bytes of an address, the highest first. -/
def macBytes (mac : BitVec 48) : List UInt8 :=
  [5, 4, 3, 2, 1, 0].map fun i => UInt8.ofNat (byteAt mac.toNat i)

/-- `t` is the address in hexadecimal digits, with `sep` between the bytes. -/
def IsMacText (sep : Char) (mac : BitVec 48) (t : Text) : Prop :=
  ∃ ws, List.Forall₂ IsHexOf (macBytes mac) ws ∧ t = joined sep ws

theorem isHexOf_hexByte {n : Nat} (h : n < 256) : IsHexOf (UInt8.ofNat n) (hexByte n) := by
  have digit : ∀ d : Fin 16, isHexDigit (Nat.digitChar d) = true ∧
      hexDigitValue (Nat.digitChar d) = d := by decide
  have high := digit ⟨n / 16, by omega⟩
  have low := digit ⟨n % 16, by omega⟩
  refine ⟨_, _, rfl, high.1, low.1, ?_⟩
  rw [high.2, low.2, UInt8.toNat_ofNat_of_lt' (by simpa [UInt8.size] using h)]
  simp only
  omega

theorem isMacText_macWords (mac : BitVec 48) : IsMacText ':' mac (joined ':' (macWords mac.toNat)) := by
  refine ⟨_, ?_, rfl⟩
  have lt (i : Nat) : byteAt mac.toNat i < 256 := Nat.mod_lt _ (by decide)
  simp only [macBytes, macWords, List.map_cons, List.map_nil, List.forall₂_cons, List.Forall₂.nil,
    and_true]
  exact ⟨isHexOf_hexByte (lt _), isHexOf_hexByte (lt _), isHexOf_hexByte (lt _),
    isHexOf_hexByte (lt _), isHexOf_hexByte (lt _), isHexOf_hexByte (lt _)⟩

theorem uint64ToStr_eq (num : UInt64) : uint64ToStr num = joined ':' (macWords num.toNat) := by
  have byte (i : Fin 8) : (Mac.ofNumber num i).toNat = byteAt num.toNat i := by
    rw [Mac.ofNumber, UInt8.toNat_ofNat_of_lt']
    exact Nat.mod_lt _ (by decide)
  simp only [uint64ToStr, byte, macWords, List.map_cons, List.map_nil]
  rfl

/-! ## Numbers from text -/

/-- The scan stores the address in the low six bytes; the high two stay. -/
theorem number_store (uninit : Mac) (mac : BitVec 48) (more : List Arg) :
    (uninit.store ((macBytes mac).map .byte ++ more)).number.toNat =
      mac.toNat + 2 ^ 48 * ((uninit 6).toNat + 256 * (uninit 7).toNat) := by
  have stored : uninit.store ((macBytes mac).map .byte ++ more) = fun i : Fin 8 =>
      if i.val < 6 then UInt8.ofNat (byteAt mac.toNat i) else uninit i := by
    funext i
    simp only [Mac.store, macBytes, List.map_cons, List.map_nil, List.cons_append, List.nil_append,
      List.zip_cons_cons, List.zip_nil_right, List.foldl_cons, List.foldl_nil]
    fin_cases i <;> rfl
  have byte (i : Nat) : (UInt8.ofNat (byteAt mac.toNat i)).toNat = byteAt mac.toNat i :=
    UInt8.toNat_ofNat_of_lt' (Nat.mod_lt _ (by decide))
  have lt := mac.isLt
  have high := (uninit 6).toNat_lt
  have highest := (uninit 7).toNat_lt
  have total : (List.ofFn (uninit.store ((macBytes mac).map .byte ++ more))).foldr
      (fun b n => b.toNat + 256 * n) 0 =
      mac.toNat + 2 ^ 48 * ((uninit 6).toNat + 256 * (uninit 7).toNat) := by
    rw [stored]
    change (UInt8.ofNat (byteAt mac.toNat 0)).toNat + 256 * ((UInt8.ofNat (byteAt mac.toNat 1)).toNat +
      256 * ((UInt8.ofNat (byteAt mac.toNat 2)).toNat + 256 * ((UInt8.ofNat (byteAt mac.toNat 3)).toNat +
      256 * ((UInt8.ofNat (byteAt mac.toNat 4)).toNat + 256 * ((UInt8.ofNat (byteAt mac.toNat 5)).toNat +
      256 * ((uninit 6).toNat + 256 * ((uninit 7).toNat + 256 * 0))))))) = _
    simp only [byte]
    simp only [byteAt]
    omega
  rw [Mac.number, total, UInt64.toNat_ofNat_of_lt' (by simp only [UInt64.size]; omega)]

theorem number_store_eq_iff (uninit : Mac) (mac : BitVec 48) (more : List Arg) :
    (uninit.store ((macBytes mac).map .byte ++ more)).number = UInt64.ofNat mac.toNat ↔
      uninit.HighZero := by
  have lt := mac.isLt
  rw [← UInt64.toNat_inj, number_store,
    UInt64.toNat_ofNat_of_lt' (by simp only [UInt64.size]; omega), Mac.HighZero, ← UInt8.toNat_inj,
    ← UInt8.toNat_inj]
  simp only [UInt8.toNat_zero]
  omega

/-! ## Whatever is scanned -/

theorem foldr_bytes_inj {l l' : List UInt8} (same : l.length = l'.length)
    (h : l.foldr (fun b n => b.toNat + 256 * n) 0 = l'.foldr (fun b n => b.toNat + 256 * n) 0) :
    l = l' := by
  induction l generalizing l' with
  | nil => exact (List.length_eq_zero_iff.mp same.symm).symm
  | cons b l ih =>
    cases l' with
    | nil => cases same
    | cons b' l' =>
      have lt := b.toNat_lt
      have lt' := b'.toNat_lt
      simp only [List.foldr_cons] at h
      have first : b = b' := UInt8.toNat_inj.mp (by omega)
      rw [first, ih (Nat.succ.inj same) (by omega)]

theorem foldr_bytes_lt (l : List UInt8) :
    l.foldr (fun b n => b.toNat + 256 * n) 0 < 256 ^ l.length := by
  induction l with
  | nil => exact Nat.one_pos
  | cons b l ih =>
    have lt := b.toNat_lt
    simp only [List.foldr_cons, List.length_cons, Nat.pow_succ]
    omega

theorem Mac.number_injective : Function.Injective Mac.number := by
  intro m m' h
  have lt (m : Mac) : (List.ofFn m).foldr (fun b n => b.toNat + 256 * n) 0 < 2 ^ 64 := by
    simpa using foldr_bytes_lt (List.ofFn m)
  have same := congrArg UInt64.toNat h
  rw [Mac.number, Mac.number, UInt64.toNat_ofNat_of_lt' (lt m), UInt64.toNat_ofNat_of_lt' (lt m')]
    at same
  apply List.ofFn_injective
  exact foldr_bytes_inj (by simp) same

/-- The bytes of the union that a scan is given, in order. -/
def Mac.targets : List (Fin 8) := [5, 4, 3, 2, 1, 0]

/-- What one argument of a scan does to the union. -/
def Mac.put (m : Mac) (p : Arg × Fin 8) : Mac :=
  match p.1 with
  | .byte b => Function.update m p.2 b
  | _ => m

theorem Mac.store_eq (m : Mac) (args : List Arg) :
    m.store args = (args.zip Mac.targets).foldl Mac.put m := rfl

theorem Mac.put_of_ne (m : Mac) {p : Arg × Fin 8} {i : Fin 8} (h : i ≠ p.2) : m.put p i = m i := by
  obtain ⟨a, j⟩ := p
  cases a with
  | byte b => exact Function.update_of_ne h _ _
  | int v => rfl
  | word t => rfl

/-- A byte that is not among the targets stays. -/
theorem Mac.foldl_put_of_notMem {l : List (Arg × Fin 8)} {i : Fin 8} (h : i ∉ l.map Prod.snd)
    (m : Mac) : l.foldl Mac.put m i = m i := by
  induction l generalizing m with
  | nil => rfl
  | cons p l ih =>
    simp only [List.map_cons, List.mem_cons, not_or] at h
    rw [List.foldl_cons, ih h.2, m.put_of_ne h.1]

theorem Mac.foldl_put_of_mem {l : List (Arg × Fin 8)} (distinct : (l.map Prod.snd).Nodup)
    {b : UInt8} {i : Fin 8} (h : (.byte b, i) ∈ l) (m : Mac) : l.foldl Mac.put m i = b := by
  induction l generalizing m with
  | nil => cases h
  | cons p l ih =>
    rw [List.map_cons, List.nodup_cons] at distinct
    rw [List.foldl_cons]
    cases h with
    | head =>
      rw [Mac.foldl_put_of_notMem distinct.1]
      exact Function.update_self i b m
    | tail _ h => exact ih distinct.2 h (m.put p)

theorem map_fst_zip_take {α β : Type} (l : List α) (l' : List β) :
    (l.zip l').map Prod.fst = l.take l'.length := by
  induction l generalizing l' with
  | nil => simp
  | cons a l ih =>
    cases l' with
    | nil => rfl
    | cons b l' => rw [List.zip_cons_cons, List.map_cons, ih, List.length_cons, List.take_succ_cons]

theorem map_snd_zip_take {α β : Type} (l : List α) (l' : List β) :
    (l.zip l').map Prod.snd = l'.take l.length := by
  induction l generalizing l' with
  | nil => rfl
  | cons a l ih =>
    cases l' with
    | nil => rfl
    | cons b l' => rw [List.zip_cons_cons, List.map_cons, ih, List.length_cons, List.take_succ_cons]

theorem Mac.targets_sublist (args : List Arg) :
    ((args.zip Mac.targets).map Prod.snd).Sublist Mac.targets := by
  rw [map_snd_zip_take]
  exact List.take_sublist _ _

theorem Mac.store_high (m : Mac) (args : List Arg) {i : Fin 8} (high : 6 ≤ i) :
    m.store args i = m i := by
  rw [Mac.store_eq]
  apply Mac.foldl_put_of_notMem
  intro h
  have low : ∀ j ∈ Mac.targets, j < 6 := by decide
  exact absurd (low i ((Mac.targets_sublist args).subset h)) (not_lt.mpr high)

theorem Mac.mem_take_iff {args : List Arg} {a : Arg} :
    a ∈ args.take 6 ↔ ∃ i, (a, i) ∈ args.zip Mac.targets := by
  have fst : args.take 6 = (args.zip Mac.targets).map Prod.fst :=
    (map_fst_zip_take args Mac.targets).symm
  simp [fst]

theorem Mac.foldl_put_zero {l : List (Arg × Fin 8)} (h : ∀ b i, (.byte b, i) ∈ l → b = 0) :
    l.foldl Mac.put (fun _ => 0) = fun _ => 0 := by
  induction l with
  | nil => rfl
  | cons p l ih =>
    have first : Mac.put (fun _ => 0) p = fun _ => 0 := by
      obtain ⟨a, i⟩ := p
      cases a with
      | byte b =>
        rw [h b i List.mem_cons_self]
        exact Function.update_eq_self i _
      | int v => rfl
      | word t => rfl
    rw [List.foldl_cons, first]
    exact ih fun b i hb => h b i (List.mem_cons_of_mem p hb)

/-- A union of zeros stays zero exactly if the bytes stored are zeros. -/
theorem Mac.number_store_zero_iff (args : List Arg) :
    ((Mac.ofNumber 0).store args).number = 0 ↔ ∀ b, Arg.byte b ∈ args.take 6 → b = 0 := by
  have blank : Mac.ofNumber 0 = fun _ => 0 := by decide
  have zero : Mac.number (fun _ => 0) = 0 := by decide
  rw [blank]
  constructor
  · intro h b hb
    obtain ⟨i, hi⟩ := Mac.mem_take_iff.mp hb
    have value := Mac.foldl_put_of_mem ((Mac.targets_sublist args).nodup (by decide)) hi fun _ => 0
    have all := Mac.number_injective (h.trans zero.symm)
    rw [← value, ← Mac.store_eq, all]
  · intro h
    rw [Mac.store_eq, Mac.foldl_put_zero, zero]
    intro b i hb
    exact h b (Mac.mem_take_iff.mpr ⟨i, hb⟩)

end UserMap

end SimpleDsp
