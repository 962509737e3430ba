import SimpleDsp.Register.SharedTable
import SimpleDsp.Receivers.UserOp

/-!
# The shared table of ads

Any number of processes open the table with `load_shared_data`, add ads and
print the list.

* `addAd_eq`: what `add_ad` does while there is room;
* `Inv`, `step_kept`: what holds once a process has the table mapped;
* `table_covered_iff`: when a step leaves the table inside its mappings, and what
  follows for runs.
-/

namespace SimpleDsp.Register

open DecimalText
open UserMap (QueryItem streamInto streamFloat)

/-! ## Ads -/

/-- The fields that are written or printed. -/
structure AdInfo where
  ad_id : Int32
  ad_owner : Int32
  ad_content : Text
  jump_url : Text
  ad_type : Int32
  ad_point_x : Rat
  ad_point_y : Rat
  show_price : Rat
  click_price : Rat
  show_counter : Int32
  click_counter : Int32
  valid : Int32

/-- Memory that is all zeros. -/
def AdInfo.zeros : AdInfo where
  ad_id := 0
  ad_owner := 0
  ad_content := List.replicate 2048 nul
  jump_url := List.replicate 2048 nul
  ad_type := 0
  ad_point_x := 0
  ad_point_y := 0
  show_price := 0
  click_price := 0
  show_counter := 0
  click_counter := 0
  valid := 0

/-- `AdData` and `AdInfo` -/
def adData : Layout := ⟨4300, 4188, by decide, by decide, by decide⟩

/-! ## Parameters -/

inductive AdParam
  | ad_owner | jump_url | ad_content | ad_type | show_price | click_price | ad_point_x | ad_point_y

/-- The comparisons of the loop. -/
def adParam (key : Text) : Option AdParam :=
  if key = "ad_owner".toList then some .ad_owner
  else if key = "jump_url".toList then some .jump_url
  else if key = "ad_content".toList then some .ad_content
  else if key = "ad_type".toList then some .ad_type
  else if key = "show_price".toList then some .show_price
  else if key = "click_price".toList then some .click_price
  else if key = "ad_point_x".toList then some .ad_point_x
  else if key = "ad_point_y".toList then some .ad_point_y
  else none

/-- `strncpy` into an array of `size` characters -/
def strncpy (size : Nat) (value : Text) : Text :=
  (cString value ++ List.replicate size nul).take size

/-- `newAd`, and `i_ad_type`, which is not initialised. -/
structure Filling where
  newAd : AdInfo
  i_ad_type : Int32

section
variable (d : Doubles) (F : Floats)

def Filling.set (s : Filling) (value : Text) : AdParam → Filling
  | .ad_owner => { s with newAd.ad_owner := streamInto d .int value s.newAd.ad_owner }
  | .jump_url => { s with newAd.jump_url := strncpy 2048 value }
  | .ad_content => { s with newAd.ad_content := strncpy 2048 value }
  | .ad_type =>
    let i_ad_type := streamInto d .int value s.i_ad_type
    { s with i_ad_type, newAd.ad_type := i_ad_type }
  | .show_price => { s with newAd.show_price := streamFloat F value s.newAd.show_price }
  | .click_price => { s with newAd.click_price := streamFloat F value s.newAd.click_price }
  | .ad_point_x => { s with newAd.ad_point_x := streamFloat F value s.newAd.ad_point_x }
  | .ad_point_y => { s with newAd.ad_point_y := streamFloat F value s.newAd.ad_point_y }

/-- The loop over the list, and whether it comes to the end: the process dies of a
value that is not there. -/
def Filling.read (s : Filling) : List QueryItem → Filling × Bool
  | [] => (s, true)
  | item :: rest =>
    match adParam item.key with
    | none => s.read rest
    | some k =>
      match item.value with
      | none => (s, false)
      | some value => (s.set d F value k).read rest

/-! ## Calls -/

/-- A call of `add_ad`. Where the file ends before the ad, the process dies while it
writes and leaves some of it. -/
structure Adding where
  query : List QueryItem
  i_ad_type : Int32
  torn : AdInfo

inductive Result
  | null
  | loaded
  | dies
  | returns (code : Int32)
  deriving DecidableEq

end

/-- The table after `ad_list[index]` is written and the number is raised. -/
def Stored.put (f : Stored AdInfo) (index : Int32) (ad : AdInfo) : Stored AdInfo :=
  { f with number := index + 1, list := Function.update f.list index.toInt.toNat ad }

section
variable (K : Kernel) (d : Doubles) (F : Floats)

/-- `length` is that of the mapping; `none` where `ad_list[index]` is outside it. -/
def addAd (length : Nat) (a : Adding) (f : Stored AdInfo) : Option (Stored AdInfo × Result) :=
  let index := f.number
  let i := index.toInt.toNat
  if f.size ≤ index then some ({ f with number := index + 1 }, .returns (-1))
  else if index < 0 ∨ length < adData.itemEnd i then none
  else if K.roundUp f.length < adData.itemEnd i then some (f.put index a.torn, .dies)
  else
    match Filling.read d F ⟨{ f.list i with ad_id := index }, a.i_ad_type⟩ a.query with
    | (s, false) => some (f.put index s.newAd, .dies)
    | (s, true) =>
      some (f.put index { s.newAd with show_counter := 0, click_counter := 0, valid := 1 },
        .returns 0)

/-- The indices below `number`. -/
def adsPrinted (f : Stored AdInfo) : List Nat := List.range f.number.toInt.toNat

/-- The ads that `print_ad_list` prints; `none` where one is outside the mapping. -/
def printAdList (length : Nat) (f : Stored AdInfo) : Option (List AdInfo) :=
  if ∀ i ∈ adsPrinted f, adData.itemEnd i ≤ length then some ((adsPrinted f).map f.list) else none

/-- The file, and how much of it each process has mapped at `g_p_ad_data`. -/
structure Shared where
  file : Option (Stored AdInfo)
  mappings : Nat → Option Nat

inductive Call
  | load (o : Opening)
  | addAd (a : Adding)

def Loaded.result : Loaded → Result
  | .null => .null
  | .mapped _ => .loaded
  | .dies => .dies

def Loaded.mapping : Loaded → Option Nat
  | .mapped length => some length
  | _ => none

theorem Loaded.result_ne (loaded : Loaded) (code : Int32) : loaded.result ≠ .returns code := by
  cases loaded <;> simp [result]

/-- A call of process `p`; `none` where its behaviour is undefined. -/
def step (s : Shared) (p : Nat) : Call → Option (Result × Shared)
  | .load o =>
    let (file, loaded) := loadSharedData K adData .zeros o s.file
    some (loaded.result, ⟨file, Function.update s.mappings p loaded.mapping⟩)
  | .addAd a =>
    match s.mappings p, s.file with
    | some length, some f =>
      (addAd K d F length a f).map fun (f, r) =>
        (r, ⟨some f, if r = .dies then Function.update s.mappings p none else s.mappings⟩)
    -- `g_p_ad_data` is null.
    | _, _ => some (.dies, ⟨s.file, Function.update s.mappings p none⟩)

/-- Whatever may follow, where the behaviour is undefined. -/
def Steps (s : Shared) (p : Nat) (c : Call) (r : Result) (s' : Shared) : Prop :=
  (step K d F s p c).elim True (· = (r, s'))

/-- Calls that `P` holds of, from `s0`. -/
inductive Run (P : Shared → Nat → Call → Prop) (s0 : Shared) : Shared → Prop
  | start : Run P s0 s0
  | next {s s' : Shared} {p : Nat} {c : Call} {r : Result} (before : Run P s0 s)
      (holds : P s p c) (steps : Steps K d F s p c r s') : Run P s0 s'

end

/-- No process has opened the table; its file may be there. -/
structure Start (s : Shared) : Prop where
  unmapped : ∀ p, s.mappings p = none
  number : ∀ f, s.file = some f → f.number.toInt < 2 ^ 29

/-! ## Tables inside their mappings -/

structure Covers (f : Stored AdInfo) (length : Nat) : Prop where
  extent : adData.extent f.size.toInt ≤ length
  number : f.number ≤ f.size
  printed : ∀ i ∈ adsPrinted f, adData.itemEnd i ≤ length

def Covered (s : Shared) : Prop :=
  ∀ p length, s.mappings p = some length → ∃ f, s.file = some f ∧ Covers f length

/-- The number is at most the size, or both are what they were. -/
def Bounded (file file' : Option (Stored AdInfo)) : Prop :=
  ∀ f', file' = some f' → f'.number ≤ f'.size ∨
    ∃ f, file = some f ∧ f'.size = f.size ∧ f'.number = f.number

/-- The step leaves the table covered, and unchanged if an ad is rejected. -/
structure Kept (s : Shared) (r : Result) (s' : Shared) : Prop where
  covered : Covered s'
  bounded : Bounded s.file s'.file
  rejected : r = .returns (-1) → s'.file = s.file

/-- A list that has its size is mapped whole, or not at all, and ads are added while
there is room. -/
def Safe (K : Kernel) (s : Shared) (p : Nat) : Call → Prop
  | .load o => ∀ f got, s.file = some f → ¬f.size ≤ 0 →
      ¬(o.opened = false ∨ min f.length adData.whole < adData.head) →
      K.mmap o.room o.buffer_size.toUInt64 = some got →
      f.number ≤ f.size ∧ adData.extent f.size.toInt ≤ got
  | .addAd _ => ∀ f length, s.file = some f → s.mappings p = some length →
      0 ≤ f.number ∧ f.number < f.size

/-! ## The invariant -/

/-- Before the list has its size, nothing is mapped and the number is the stored one. -/
structure Inv (s : Shared) : Prop where
  covered : Covered s
  unsized : ∀ f, s.file = some f → f.size ≤ 0 →
    (∀ p, s.mappings p = none) ∧ f.number.toInt < 2 ^ 29

section
variable {K : Kernel} {d : Doubles} {F : Floats} {s s' : Shared} {p : Nat}

theorem Start.inv (start : Start s) : Inv s where
  covered p length mapped := by
    rw [start.unmapped p] at mapped
    cases mapped
  unsized f here _ := ⟨start.unmapped, start.number f here⟩

/-- The printed ads are inside because their number is at most the size. -/
theorem covers_of_extent {f : Stored AdInfo} {length : Nat}
    (extent : adData.extent f.size.toInt ≤ length) (number : f.number ≤ f.size) :
    Covers f length where
  extent := extent
  number := number
  printed i hi := by
    have below := List.mem_range.mp hi
    have le := Int32.le_iff_toInt_le.mp number
    have inside := itemEnd_le_extent (L := adData) (show (i : Int) < f.size.toInt by omega)
    omega

theorem printAdList_isSome {f : Stored AdInfo} {length : Nat} (covers : Covers f length) :
    printAdList length f = some ((adsPrinted f).map f.list) :=
  if_pos covers.printed

/-- What is left to prove of a step that changes the table and the mapping of `p`. -/
theorem inv_update {f : Stored AdInfo} {mapping : Option Nat}
    (others : ∀ q length, s.mappings q = some length → Covers f length)
    (own : ∀ length, mapping = some length → Covers f length)
    (unsized : f.size ≤ 0 →
      mapping = none ∧ (∀ q, s.mappings q = none) ∧ f.number.toInt < 2 ^ 29) :
    Inv ⟨some f, Function.update s.mappings p mapping⟩ where
  covered q length mapped := by
    refine ⟨f, rfl, ?_⟩
    by_cases same : q = p
    · subst same
      exact own length (by simpa using mapped)
    · exact others q length (by simpa [same] using mapped)
  unsized f' here small := by
    obtain rfl := Option.some.inj here
    obtain ⟨none, unmapped, number⟩ := unsized small
    refine ⟨fun q => ?_, number⟩
    by_cases same : q = p <;> simp [same, none, unmapped]

theorem Inv.covers {f : Stored AdInfo} (inv : Inv s) (here : s.file = some f) {q length : Nat}
    (mapped : s.mappings q = some length) : Covers f length := by
  obtain ⟨f', here', covers⟩ := inv.covered q length mapped
  obtain rfl := Option.some.inj (here.symm.trans here')
  exact covers

theorem Inv.sized {f : Stored AdInfo} (inv : Inv s) (here : s.file = some f) {q length : Nat}
    (mapped : s.mappings q = some length) : ¬f.size ≤ 0 := by
  intro unsized
  rw [(inv.unsized f here unsized).1 q] at mapped
  cases mapped

/-- `init_shared_data` makes a file only when nothing is mapped. -/
theorem Inv.init (inv : Inv s) (o : Opening) :
    Inv ⟨initSharedData adData .zeros o s.file, s.mappings⟩ := by
  cases here : s.file with
  | some f =>
    have same : s = ⟨some f, s.mappings⟩ := by rw [← here]
    rw [same] at inv
    exact inv
  | none =>
    have unmapped : ∀ p, s.mappings p = none := by
      intro p
      by_contra mapped
      obtain ⟨length, mapped⟩ := Option.ne_none_iff_exists'.mp mapped
      obtain ⟨f, here', -⟩ := inv.covered p length mapped
      rw [here] at here'
      cases here'
    constructor
    · intro p length mapped
      rw [show s.mappings p = none from unmapped p] at mapped
      cases mapped
    · intro f fresh _
      refine ⟨unmapped, ?_⟩
      simp only [initSharedData] at fresh
      split at fresh
      · rw [← Option.some.inj fresh]
        decide
      · cases fresh

theorem bounded_refl (file : Option (Stored AdInfo)) : Bounded file file :=
  fun f here => Or.inr ⟨f, here, rfl, rfl⟩

theorem Bounded.trans {a b c : Option (Stored AdInfo)} (ab : Bounded a b) (bc : Bounded b c) :
    Bounded a c := by
  intro f there
  rcases bc f there with le | ⟨f', here, size, number⟩
  · exact Or.inl le
  · rw [size, number]
    exact ab f' here

theorem bounded_init (o : Opening) (file : Option (Stored AdInfo)) :
    Bounded file (initSharedData adData .zeros o file) := by
  cases file with
  | some f => exact bounded_refl (some f)
  | none =>
    intro f fresh
    simp only [initSharedData] at fresh
    split at fresh
    · rw [← Option.some.inj fresh]
      exact Or.inl (Int32.le_refl 0)
    · cases fresh

/-! ## One step -/

theorem load_inv (inv : Inv s) {o : Opening} (safe : Safe K s p (.load o))
    {out : Option (Stored AdInfo) × Loaded}
    (loading : Loading K adData o (initSharedData adData .zeros o s.file) out) :
    Inv ⟨out.1, Function.update s.mappings p out.2.mapping⟩ := by
  have before := inv.init o
  generalize made : initSharedData adData .zeros o s.file = file at loading before
  cases loading with
  | null =>
    cases file with
    | none =>
      constructor
      · intro q length mapped
        by_cases same : q = p
        · simp [same, Loaded.mapping] at mapped
        · obtain ⟨f, here, -⟩ := before.covered q length (by simpa [same] using mapped)
          cases here
      · intro f here
        cases here
    | some f =>
      apply inv_update
      · exact fun q length mapped => before.covers rfl mapped
      · intro length none
        cases none
      · exact fun small => ⟨rfl, before.unsized f rfl small⟩
  | noRoom f length =>
    apply inv_update
    · intro q _ mapped
      have covers := before.covers rfl mapped
      exact covers_of_extent covers.extent covers.number
    · intro _ none
      cases none
    · exact fun small => ⟨rfl, before.unsized f rfl small⟩
  | @grown f length got unsized covers =>
    obtain ⟨unmapped, small⟩ := before.unsized f rfl unsized
    obtain ⟨positive, room⟩ := listSize_toInt small
    apply inv_update
    · intro q _ mapped
      rw [show s.mappings q = none from unmapped q] at mapped
      cases mapped
    · intro length here
      obtain rfl := Option.some.inj here
      have extent := bufferSize_eq (L := adData) positive
      exact covers_of_extent (by dsimp only; omega) (Int32.le_iff_toInt_le.mpr room)
    · intro none
      have le := Int32.le_iff_toInt_le.mp none
      change (listSize f.number).toInt ≤ 0 at le
      omega
  | @reopened f got sized opened maps =>
    obtain ⟨number, extent⟩ := safe f got (file_of_sized made sized) sized opened maps
    apply inv_update
    · exact fun q length mapped => before.covers rfl mapped
    · intro length mapped
      obtain rfl := Option.some.inj mapped
      exact covers_of_extent extent number
    · exact fun small => absurd small sized

theorem load_bounded (inv : Inv s) {o : Opening} {out : Option (Stored AdInfo) × Loaded}
    (loading : Loading K adData o (initSharedData adData .zeros o s.file) out) :
    Bounded s.file out.1 := by
  have before := inv.init o
  have made := bounded_init o s.file
  generalize initSharedData adData .zeros o s.file = file at loading before made
  cases loading with
  | null => exact made
  | noRoom f length =>
    intro f' there
    obtain rfl := Option.some.inj there
    exact made f rfl
  | grown f length unsized covers =>
    intro f' there
    obtain rfl := Option.some.inj there
    have room := (listSize_toInt (before.unsized f rfl unsized).2).2
    exact Or.inl (Int32.le_iff_toInt_le.mpr room)
  | reopened f sized opened maps => exact made

/-- While there is room, an ad takes the next place or the process dies over it. -/
theorem addAd_eq {f : Stored AdInfo} {length : Nat} (a : Adding) (covers : Covers f length)
    (nonneg : 0 ≤ f.number) (room : f.number < f.size) :
    ∃ ad r, addAd K d F length a f = some (f.put f.number ad, r) ∧ r ≠ .returns (-1) := by
  have lo := Int32.le_iff_toInt_le.mp nonneg
  have hi := Int32.lt_iff_toInt_lt.mp room
  have zero : (0 : Int32).toInt = 0 := rfl
  have free : ¬f.size ≤ f.number := by
    intro full
    have le := Int32.le_iff_toInt_le.mp full
    omega
  have inside : ¬(f.number < 0 ∨ length < adData.itemEnd f.number.toInt.toNat) := by
    rintro (negative | outside)
    · have lt := Int32.lt_iff_toInt_lt.mp negative
      omega
    · have le := itemEnd_le_extent (L := adData)
        (show (f.number.toInt.toNat : Int) < f.size.toInt by omega)
      have extent := covers.extent
      omega
  unfold addAd
  dsimp only
  rw [if_neg free, if_neg inside]
  split
  · exact ⟨_, _, rfl, by simp⟩
  · split
    · exact ⟨_, _, rfl, by simp⟩
    · exact ⟨_, _, rfl, by decide⟩

theorem covers_put {f : Stored AdInfo} {length : Nat} {ad : AdInfo} (covers : Covers f length)
    (room : f.number < f.size) : Covers (f.put f.number ad) length := by
  have hi := Int32.lt_iff_toInt_lt.mp room
  have lo := f.number.le_toInt
  have most := f.size.toInt_lt
  have next : (f.number + 1).toInt = f.number.toInt + 1 := by
    rw [Int32.toInt_add]
    exact bmod_eq_self (v := f.number.toInt + 1) (by omega) (by omega)
  apply covers_of_extent (f := f.put f.number ad) covers.extent
  apply Int32.le_iff_toInt_le.mpr
  change (f.number + 1).toInt ≤ f.size.toInt
  omega

theorem put_inv (inv : Inv s) {f : Stored AdInfo} {length : Nat} (here : s.file = some f)
    (mapped : s.mappings p = some length) (room : f.number < f.size) (ad : AdInfo) (r : Result) :
    Inv ⟨some (f.put f.number ad),
      if r = .dies then Function.update s.mappings p none else s.mappings⟩ := by
  have sized := inv.sized here mapped
  have others (q length) (mapped : s.mappings q = some length) :
      Covers (f.put f.number ad) length := covers_put (inv.covers here mapped) room
  split
  · apply inv_update others
    · intro length none
      cases none
    · exact fun small => absurd small sized
  · rw [← Function.update_eq_self p s.mappings]
    apply inv_update others
    · exact others p
    · exact fun small => absurd small sized

theorem step_kept (inv : Inv s) {c : Call} (safe : Safe K s p c) {r : Result}
    (steps : Steps K d F s p c r s') : Inv s' ∧ Kept s r s' := by
  cases c with
  | load o =>
    obtain ⟨rfl, rfl⟩ := Prod.mk.inj steps
    have after := load_inv inv safe (loading_load K adData .zeros o s.file)
    exact ⟨after, after.covered, load_bounded inv (loading_load K adData .zeros o s.file),
      fun rejected => absurd rejected (Loaded.result_ne _ _)⟩
  | addAd a =>
    cases mapped : s.mappings p with
    | none =>
      simp only [Steps, step, mapped, Option.elim_some] at steps
      obtain ⟨rfl, rfl⟩ := Prod.mk.inj steps
      rw [← mapped, Function.update_eq_self]
      exact ⟨inv, inv.covered, bounded_refl s.file, fun rejected => by cases rejected⟩
    | some length =>
      obtain ⟨f, here, covers⟩ := inv.covered p length mapped
      obtain ⟨nonneg, room⟩ := safe f length here mapped
      obtain ⟨ad, r', added, taken⟩ := addAd_eq (K := K) (d := d) (F := F) a covers nonneg room
      simp only [Steps, step, mapped, here, added, Option.map_some, Option.elim_some] at steps
      obtain ⟨rfl, rfl⟩ := Prod.mk.inj steps
      have after := put_inv inv here mapped room ad r'
      refine ⟨after, after.covered, ?_, fun rejected => absurd rejected taken⟩
      intro f' there
      obtain rfl := Option.some.inj there
      exact Or.inl (covers_put covers room).number

/-- Any other step maps too little, counts an ad that it rejects, or is undefined. -/
theorem safe_of_kept {c : Call}
    (kept : ∀ r s', Steps K d F s p c r s' → Kept s r s') : Safe K s p c := by
  cases c with
  | load o =>
    intro f got here sized opened maps
    have out : loadSharedData K adData .zeros o s.file = (some f, .mapped got) := by
      rw [here]
      exact load_reopened sized opened maps
    have steps : Steps K d F s p (.load o) .loaded
        ⟨some f, Function.update s.mappings p (some got)⟩ := by
      simp only [Steps, step, out, Option.elim_some]
      rfl
    obtain ⟨f', here', covers⟩ := (kept _ _ steps).covered p got (by simp)
    obtain rfl := Option.some.inj here'
    exact ⟨covers.number, covers.extent⟩
  | addAd a =>
    intro f length here mapped
    by_cases full : f.size ≤ f.number
    · have rejects : addAd K d F length a f = some ({ f with number := f.number + 1 }, .returns (-1)) :=
        if_pos full
      have steps : Steps K d F s p (.addAd a) (.returns (-1))
          ⟨some { f with number := f.number + 1 }, s.mappings⟩ := by
        simp [Steps, step, mapped, here, rejects]
      have same := (kept _ _ steps).rejected rfl
      rw [here] at same
      have counted : f.number + 1 = f.number := congrArg Stored.number (Option.some.inj same)
      grind
    · have room : f.number < f.size := Int32.not_le.mp full
      by_cases negative : f.number < 0
      · have undefined : addAd K d F length a f = none := by
          unfold addAd
          dsimp only
          rw [if_neg full, if_pos (Or.inl negative)]
        have steps : Steps K d F s p (.addAd a) (.returns (-1)) ⟨none, s.mappings⟩ := by
          simp [Steps, step, mapped, here, undefined]
        have same := (kept _ _ steps).rejected rfl
        rw [here] at same
        cases same
      · exact ⟨Int32.not_lt.mp negative, room⟩

theorem run_kept {s0 : Shared} (start : Start s0) (run : Run K d F (Safe K) s0 s) :
    Inv s ∧ Bounded s0.file s.file := by
  induction run with
  | start => exact ⟨start.inv, bounded_refl s0.file⟩
  | next _ safe steps ih =>
    obtain ⟨inv, kept⟩ := step_kept ih.1 safe steps
    exact ⟨inv, ih.2.trans kept.bounded⟩

end

/-- In every run of safe steps the table is inside its mappings and the number passes the
size only where it did at first; the next step keeps that exactly when it is safe too. -/
theorem table_covered_iff (K : Kernel) (d : Doubles) (F : Floats) {s0 s : Shared} (start : Start s0)
    (run : Run K d F (Safe K) s0 s) :
    Covered s ∧ Bounded s0.file s.file ∧
      ∀ p c, (∀ r s', Steps K d F s p c r s' → Kept s r s') ↔ Safe K s p c := by
  obtain ⟨inv, bounded⟩ := run_kept start run
  refine ⟨inv.covered, bounded, fun p c => ⟨safe_of_kept, ?_⟩⟩
  intro safe r s' steps
  exact (step_kept inv safe steps).2

/-! ## Two processes -/

def smallPages : Kernel := ⟨4096, Nat.le_refl 4096⟩

def nothingShared : Shared := ⟨none, fun _ => none⟩

theorem start_nothingShared : Start nothingShared where
  unmapped _ := rfl
  number f none := by cases none

/-- A call on a machine that has room for everything. -/
def opening (buffer_size : Int64) : Call := .load ⟨true, true, true, buffer_size⟩

def firstAd : Call := .addAd ⟨[⟨"ad_owner".toList, some "5".toList⟩], 0, .zeros⟩

def plainStep (s : Shared) (p : Nat) (c : Call) : Option (Result × Shared) :=
  step smallPages Machine.plain.doubles .plain s p c

def plainRun (P : Shared → Nat → Call → Prop) (s : Shared) : Prop :=
  Run smallPages Machine.plain.doubles .plain P nothingShared s

theorem plainRun.next {P : Shared → Nat → Call → Prop} {s : Shared} (run : plainRun P s) {p : Nat}
    {c : Call} (holds : P s p c) {out : Result × Shared} (h : plainStep s p c = some out) :
    plainRun P out.2 := by
  apply Run.next (r := out.1) run holds
  unfold plainStep at h
  rw [Steps, h]
  rfl

def sizes (s : Shared) : Option (Int32 × Int32) := s.file.map fun f => (f.size, f.number)

/-- The first process opens the table, which gives it its size, and adds an ad. -/
theorem table_covered_iff_first_ad :
    ∃ s, plainRun (Safe smallPages) s ∧ sizes s = some (2000, 1) ∧
      s.mappings 0 = some 8376320 ∧ Covered s := by
  have computed : ((plainStep nothingShared 0 (opening 0)).bind fun opened =>
      (plainStep opened.2 0 firstAd).map fun added =>
        (sizes opened.2, sizes added.2, added.2.mappings 0)) =
      some (some (2000, 0), some (2000, 1), some 8376320) := by decide +kernel
  obtain ⟨opened, first, rest⟩ := Option.bind_eq_some_iff.mp computed
  obtain ⟨added, second, values⟩ := Option.map_eq_some_iff.mp rest
  obtain ⟨before, after⟩ := Prod.mk.inj values
  obtain ⟨after, mapping⟩ := Prod.mk.inj after
  have safe : Safe smallPages nothingShared 0 (opening 0) := by
    intro f got none
    cases none
  have room : Safe smallPages opened.2 0 firstAd := by
    intro f length here _
    rw [sizes, here] at before
    obtain ⟨size, number⟩ := Prod.mk.inj (Option.some.inj before)
    rw [size, number]
    decide
  have run := (plainRun.next .start safe first).next room second
  exact ⟨added.2, run, after, mapping,
    (table_covered_iff smallPages Machine.plain.doubles .plain start_nothingShared run).1⟩

/-- The second process maps the first page of the table that the first one has opened. -/
theorem reopened_table_not_covered :
    Start nothingShared ∧ ∃ s, plainRun (fun _ _ _ => True) s ∧ sizes s = some (2000, 0) ∧
      s.mappings 1 = some 4096 ∧ ¬Covered s := by
  have computed : ((plainStep nothingShared 0 (opening 0)).bind fun opened =>
      (plainStep opened.2 1 (opening 1)).map fun again =>
        (sizes again.2, again.2.mappings 1)) = some (some (2000, 0), some 4096) := by decide +kernel
  obtain ⟨opened, first, rest⟩ := Option.bind_eq_some_iff.mp computed
  obtain ⟨again, second, values⟩ := Option.map_eq_some_iff.mp rest
  obtain ⟨after, mapping⟩ := Prod.mk.inj values
  have run : plainRun (fun _ _ _ => True) again.2 :=
    plainRun.next (plainRun.next .start trivial first) trivial second
  refine ⟨start_nothingShared, again.2, run, after, mapping, fun covered => ?_⟩
  obtain ⟨f, here, covers⟩ := covered 1 4096 mapping
  rw [sizes, here] at after
  obtain ⟨size, -⟩ := Prod.mk.inj (Option.some.inj after)
  have extent := covers.extent
  rw [size] at extent
  revert extent
  decide

end SimpleDsp.Register
