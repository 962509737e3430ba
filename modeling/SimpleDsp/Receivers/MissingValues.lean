import SimpleDsp.Receivers.UserOp

/-!
# Parameters without a value

`user_op` and `ad_op` walk over the list that uriparser makes of a query string
and compare the keys. A key that they know has its value read, whether there is
one or not; without one the process ends there.

* `scan`: the loop of both, with the values that it reads;
* `values_read_iff`: when it reads only values that are there.
-/

namespace SimpleDsp

open DecimalText

namespace UserMap

/-! ## The loop -/

/-- The values read on the way, and the variables where the loop comes to its end. -/
structure Scan (P : Type) where
  reads : List (Option Text)
  final : Option P

section
variable {P K : Type} (key : Text → Option K) (set : P → Text → K → P)

def scan : P → List QueryItem → Scan P
  | p, [] => ⟨[], some p⟩
  | p, item :: rest =>
    match key item.key, item.value with
    | none, _ => scan p rest
    | some _, none => ⟨[none], none⟩
    | some k, some value =>
      let later := scan (set p value k) rest
      ⟨some value :: later.reads, later.final⟩

/-- Every value that is read is there, and the loop comes to its end. -/
structure Scan.Sound (s : Scan P) : Prop where
  reads : ∀ value ∈ s.reads, value.isSome
  ends : s.final.isSome

variable {key set}

theorem scan_sound_iff (p : P) (q : List QueryItem) :
    (scan key set p q).Sound ↔ ∀ item ∈ q, item.value = none → key item.key = none := by
  induction q generalizing p with
  | nil => exact ⟨by simp, fun _ => ⟨by simp [scan], rfl⟩⟩
  | cons item rest ih =>
    rw [List.forall_mem_cons, scan]
    cases known : key item.key with
    | none => simp [ih]
    | some k =>
      cases given : item.value with
      | none =>
        have stops : ¬(⟨[none], none⟩ : Scan P).Sound := by
          rintro ⟨-, ends⟩
          cases ends
        simp [stops]
      | some value =>
        rw [← ih (set p value k)]
        constructor
        · rintro ⟨reads, ends⟩
          exact ⟨by simp, fun v hv => reads v (List.mem_cons_of_mem _ hv), ends⟩
        · rintro ⟨-, reads, ends⟩
          exact ⟨List.forall_mem_cons.mpr ⟨rfl, reads⟩, ends⟩

end

/-! ## user_op and ad_op -/

section
variable (d : Doubles) (F : Floats)

/-- The loop of `user_op` is the one its variables are read by. -/
theorem scan_userOp (p : Params) (q : List QueryItem) :
    (scan paramKey (Params.set d F) p q).final = p.read d F q := by
  induction q generalizing p with
  | nil => rfl
  | cons item rest ih =>
    rw [scan, Params.read]
    cases paramKey item.key with
    | none => exact ih p
    | some k =>
      cases item.value with
      | none => rfl
      | some value => exact ih _

inductive AdParamKey
  | mac | user_id | ad_id | space | action | n

def adParamKey (key : Text) : Option AdParamKey :=
  if key = "mac".toList then some .mac
  else if key = "user_id".toList then some .user_id
  else if key = "ad_id".toList then some .ad_id
  else if key = "space".toList then some .space
  else if key = "action".toList then some .action
  else if key = "n".toList then some .n
  else none

/-- The local variables of `ad_op`; `mall_id` keeps its 2. -/
structure AdParams where
  action : Text
  user_id : Int32
  mac : UInt64
  ad_space : Int32
  n : Int32
  mall_id : Int32
  ad_id : Int32

def AdParams.initial : AdParams where
  action := []
  user_id := INT_MIN
  mac := 0
  ad_space := INT_MIN
  n := 1
  mall_id := 2
  ad_id := INT_MIN

def AdParams.set (p : AdParams) (value : Text) : AdParamKey → AdParams
  | .mac => { p with mac := streamInto d .ull value p.mac }
  | .user_id => { p with user_id := streamInto d .int value p.user_id }
  | .ad_id => { p with ad_id := streamInto d .int value p.ad_id }
  | .space => { p with ad_space := streamInto d .int value p.ad_space }
  | .action => { p with action := value }
  | .n =>
    let n : Int32 := streamInto d .int value p.n
    { p with n := if n < 1 then 1 else n }

/-- The two programs behind the web server. -/
inductive Handler
  | userOp | adOp
  deriving DecidableEq

/-- The loop over the parameters is sound. -/
def Handler.Sound (q : List QueryItem) : Handler → Prop
  | userOp => (scan paramKey (Params.set d F) Params.initial q).Sound
  | adOp => (scan adParamKey (AdParams.set d) AdParams.initial q).Sound

/-- The program compares the key with success. -/
def Handler.knows (key : Text) : Handler → Bool
  | userOp => (paramKey key).isSome
  | adOp => (adParamKey key).isSome

/-- A program reads only values that are there, and comes to the end of the list,
if and only if every key without a value is unknown to it. -/
theorem values_read_iff (h : Handler) (q : List QueryItem) :
    h.Sound d F q ↔ ∀ item ∈ q, item.value = none → h.knows item.key = false := by
  cases h with
  | userOp => simp [Handler.Sound, Handler.knows, scan_sound_iff]
  | adOp => simp [Handler.Sound, Handler.knows, scan_sound_iff]

end

/-- Both programs read the value of `action` in `?action`, where there is none. -/
theorem value_not_there :
    none ∈ (scan paramKey (Params.set Machine.plain.doubles .plain) Params.initial
      [⟨"action".toList, none⟩]).reads ∧
    none ∈ (scan adParamKey (AdParams.set Machine.plain.doubles) AdParams.initial
      [⟨"action".toList, none⟩]).reads ∧
    ¬Handler.userOp.Sound Machine.plain.doubles .plain [⟨"action".toList, none⟩] ∧
    ¬Handler.adOp.Sound Machine.plain.doubles .plain [⟨"action".toList, none⟩] := by
  refine ⟨by decide, by decide, ?_, ?_⟩
  · rintro ⟨-, ends⟩
    cases ends
  · rintro ⟨-, ends⟩
    cases ends

end UserMap

end SimpleDsp
