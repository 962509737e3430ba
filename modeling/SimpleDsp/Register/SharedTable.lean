import Mathlib.Algebra.Group.Int.Defs
import Mathlib.Algebra.Group.Nat.Defs

/-!
# Tables in a shared file

`load_shared_data` maps a file with a list of items into a process, and gives
the list its size when the file is new. The list ends the mapped type, which
holds its first item.

* `itemEnd_le_extent`: which items are inside a list of some size;
* `bufferSize_eq`: the length asked for where the list gets its size;
* `Loading`, `loading_load`: what a call can do.
-/

namespace SimpleDsp.Register

/-! ## Sizes -/

/-- `sizeof(T)` and `sizeof(T_item)`. What is before the list is inside one page. -/
structure Layout where
  whole : Nat
  item : Nat
  item_le : item ≤ whole
  head_le : whole - item ≤ 4096
  small : whole + 2 ^ 31 * item < 2 ^ 63

/-- `sizeof(T)-sizeof(T_item)` -/
def Layout.head (L : Layout) : Nat := L.whole - L.item

/-- The offset behind `list[i]`. -/
def Layout.itemEnd (L : Layout) (i : Nat) : Nat := L.head + (i + 1) * L.item

/-- `sizeof(T)+(size-1)*sizeof(T_item)`, without overflow -/
def Layout.extent (L : Layout) (size : Int) : Int := L.whole + (size - 1) * L.item

/-- `buffer_size` -/
def Layout.bufferSize (L : Layout) (list_size : Int32) : UInt64 :=
  UInt64.ofNat L.whole + (list_size - 1).toInt64.toUInt64 * UInt64.ofNat L.item

/-- `list_size` -/
def listSize (number : Int32) : Int32 := (if number < 1000 then 1000 else number) * 2

variable {L : Layout}

theorem itemEnd_eq (i : Nat) : L.itemEnd i = L.whole + i * L.item := by
  have le := L.item_le
  rw [Layout.itemEnd, Layout.head, Nat.succ_mul]
  omega

theorem itemEnd_le_extent {i : Nat} {size : Int} (inside : (i : Int) < size) :
    (L.itemEnd i : Int) ≤ L.extent size := by
  have items : (i : Int) * L.item ≤ (size - 1) * L.item :=
    Int.mul_le_mul_of_nonneg_right (by omega) (Int.natCast_nonneg _)
  rw [itemEnd_eq, Layout.extent]
  push_cast
  omega

/-- Where an `int` has room, the arithmetic is that of integers. -/
theorem bmod_eq_self {v : Int} (lo : -2 ^ 31 ≤ v) (hi : v < 2 ^ 31) : v.bmod (2 ^ 32) = v :=
  Int.bmod_eq_of_le (by change -2 ^ 31 ≤ v; exact lo) (by change v < 2 ^ 31; exact hi)

theorem listSize_toInt {number : Int32} (small : number.toInt < 2 ^ 29) :
    0 < (listSize number).toInt ∧ number.toInt ≤ (listSize number).toInt := by
  have twice (n : Int32) (lo : 0 ≤ n.toInt) (hi : n.toInt < 2 ^ 29) :
      (n * 2).toInt = n.toInt * 2 := by
    rw [Int32.toInt_mul]
    exact bmod_eq_self (v := n.toInt * 2) (by omega) (by omega)
  have thousand : (1000 : Int32).toInt = 1000 := rfl
  unfold listSize
  by_cases few : number < 1000
  · have below := Int32.lt_iff_toInt_lt.mp few
    rw [if_pos few, twice 1000 (by decide) (by decide)]
    omega
  · have above := mt Int32.lt_iff_toInt_lt.mpr few
    rw [if_neg few, twice number (by omega) small]
    omega

theorem bufferSize_eq {list_size : Int32} (positive : 0 < list_size.toInt) :
    ((L.bufferSize list_size).toNat : Int) = L.extent list_size.toInt := by
  have small := L.small
  have most := list_size.toInt_lt
  have others : (list_size - 1).toInt = list_size.toInt - 1 := by
    rw [Int32.toInt_sub]
    exact bmod_eq_self (v := list_size.toInt - 1) (by omega) (by omega)
  have nonneg : 0 ≤ (list_size - 1).toInt64 :=
    Int64.le_iff_toInt_le.mpr (by rw [Int32.toInt_toInt64, others]; change 0 ≤ _; omega)
  have count : (list_size - 1).toInt64.toUInt64.toNat = (list_size.toInt - 1).toNat := by
    rw [Int64.toNat_toUInt64_of_le nonneg, Int64.toNatClampNeg, Int32.toInt_toInt64, others]
  have items : (list_size.toInt - 1).toNat * L.item ≤ 2 ^ 31 * L.item :=
    Nat.mul_le_mul_right _ (by omega)
  have whole : L.whole < 2 ^ 64 := by omega
  have item : L.item < 2 ^ 64 := by omega
  rw [Layout.bufferSize, UInt64.toNat_add, UInt64.toNat_mul, count, UInt64.toNat_ofNat_of_lt' item,
    UInt64.toNat_ofNat_of_lt' whole, Nat.mod_eq_of_lt (by omega),
    Nat.mod_eq_of_lt (by omega), Layout.extent]
  push_cast
  rw [Int.toNat_of_nonneg (by omega)]

/-! ## The file and the mappings -/

structure Kernel where
  page : Nat
  page_le : 4096 ≤ page

/-- A file or a mapping takes whole pages. -/
def Kernel.roundUp (K : Kernel) (length : Nat) : Nat := (length + K.page - 1) / K.page * K.page

theorem le_roundUp (K : Kernel) (length : Nat) : length ≤ K.roundUp length := by
  have page := K.page_le
  have covers := Nat.lt_div_mul_add (a := length + K.page - 1) (show 0 < K.page by omega)
  unfold Kernel.roundUp
  omega

/-- The length of the mapping; `none` for `MAP_FAILED`. -/
def Kernel.mmap (K : Kernel) (room : Bool) (length : UInt64) : Option Nat :=
  if length = 0 ∨ room = false then none else some (K.roundUp length.toNat)

theorem le_of_mmap {K : Kernel} {room : Bool} {length : UInt64} {got : Nat}
    (h : K.mmap room length = some got) : length.toNat ≤ got := by
  unfold Kernel.mmap at h
  split at h
  · cases h
  · rw [← Option.some.inj h]
    exact le_roundUp K length.toNat

/-- A file of `length` bytes; what is behind them is not there yet. -/
structure Stored (α : Type) where
  length : Nat
  size : Int32
  number : Int32
  list : Nat → α

/-- What the system does in a call of `load_shared_data`, and `buffer_size` as it is
before it is given a value. -/
structure Opening where
  created : Bool
  opened : Bool
  room : Bool
  buffer_size : Int64

/-- A process dies of the first access through `MAP_FAILED`. -/
inductive Loaded
  | null
  | mapped (length : Nat)
  | dies
  deriving DecidableEq

section
variable {α : Type} (K : Kernel) (L : Layout) (blank : α) (o : Opening)

/-- `init_shared_data`. A new file is zeros and ends after the first byte of the list. -/
def initSharedData (file : Option (Stored α)) : Option (Stored α) :=
  match file with
  | some f => some f
  | none => if o.created then some ⟨L.head + 1, 0, 0, fun _ => blank⟩ else none

/-- The list gets its size, and the file one byte more than it needs. The number is
written back as it was read. -/
def giveSize (f : Stored α) : Option (Stored α) × Loaded :=
  let list_size := listSize f.number
  let buffer_size := L.bufferSize list_size
  let f := { f with length := max f.length (buffer_size.toNat + 1) }
  match K.mmap o.room buffer_size with
  | none => (some f, .dies)
  | some length => (some { f with size := list_size, number := f.number }, .mapped length)

def loadSharedData (file : Option (Stored α)) : Option (Stored α) × Loaded :=
  match initSharedData L blank o file with
  | none => (none, .null)
  | some f =>
    if o.opened = false ∨ min f.length L.whole < L.head then (some f, .null)
    else if f.size ≤ 0 then giveSize K L o f
    else
      -- No length has been computed here.
      match K.mmap o.room o.buffer_size.toUInt64 with
      | none => (some f, .dies)
      | some length => (some { f with number := f.number }, .mapped length)

/-- What a call does with a file that `init_shared_data` has left. -/
inductive Loading : Option (Stored α) → Option (Stored α) × Loaded → Prop
  | null (file : Option (Stored α)) : Loading file (file, .null)
  | noRoom (f : Stored α) (length : Nat) : Loading (some f) (some { f with length }, .dies)
  | grown (f : Stored α) (length : Nat) {got : Nat} (unsized : f.size ≤ 0)
      (covers : (L.bufferSize (listSize f.number)).toNat ≤ got) :
      Loading (some f) (some { f with length, size := listSize f.number }, .mapped got)
  | reopened (f : Stored α) {got : Nat} (sized : ¬f.size ≤ 0)
      (opened : ¬(o.opened = false ∨ min f.length L.whole < L.head))
      (maps : K.mmap o.room o.buffer_size.toUInt64 = some got) :
      Loading (some f) (some f, .mapped got)

theorem loading_load (file : Option (Stored α)) :
    Loading K L o (initSharedData L blank o file) (loadSharedData K L blank o file) := by
  unfold loadSharedData
  cases initSharedData L blank o file with
  | none => exact .null none
  | some f =>
    dsimp only
    by_cases closed : o.opened = false ∨ min f.length L.whole < L.head
    · rw [if_pos closed]
      exact .null (some f)
    · rw [if_neg closed]
      by_cases unsized : f.size ≤ 0
      · rw [if_pos unsized]
        unfold giveSize
        dsimp only
        cases maps : K.mmap o.room (L.bufferSize (listSize f.number)) with
        | none => exact .noRoom f _
        | some got => exact .grown f _ unsized (le_of_mmap maps)
      · rw [if_neg unsized]
        cases maps : K.mmap o.room o.buffer_size.toUInt64 with
        | none => exact .noRoom f f.length
        | some got => exact .reopened f unsized closed maps

variable {K L blank o}

/-- A file made by the call has no size yet. -/
theorem file_of_sized {file : Option (Stored α)} {f : Stored α}
    (made : initSharedData L blank o file = some f) (sized : ¬f.size ≤ 0) : file = some f := by
  cases file with
  | some f' => exact made
  | none =>
    simp only [initSharedData] at made
    split at made
    · rw [← Option.some.inj made] at sized
      exact absurd (Int32.le_refl 0) sized
    · cases made

theorem load_reopened {f : Stored α} {got : Nat} (sized : ¬f.size ≤ 0)
    (opened : ¬(o.opened = false ∨ min f.length L.whole < L.head))
    (maps : K.mmap o.room o.buffer_size.toUInt64 = some got) :
    loadSharedData K L blank o (some f) = (some f, .mapped got) := by
  simp only [loadSharedData, initSharedData]
  rw [if_neg opened, if_neg sized, maps]

end

end SimpleDsp.Register
