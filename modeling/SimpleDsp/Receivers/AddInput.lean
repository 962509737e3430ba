import SimpleDsp.Receivers.UserOp

/-!
# Input of an add request

`user_op` tells a missing parameter from a given one by the value its variable
starts with. A value that cannot be read is stored as zero and counts as given.

* `read_stream`: what a variable holds after the loop;
* `rejected_iff`: the requests that are answered with `fail`;
* `add_checked_iff`: when the incomplete ones are among them.
-/

namespace SimpleDsp

open DecimalText Programs

namespace UserMap

/-! ## Complete requests -/

/-- A value for which `good` holds was given for `k`. -/
def Given (q : List QueryItem) (k : ParamKey) (good : Text → Prop) : Prop :=
  ∃ item ∈ q, ∃ value, paramKey item.key = some k ∧ item.value = some value ∧ good value

/-- The text starts with an `unsigned long long`. -/
def StartsUnsigned (t : Text) : Prop := ∃ p rest, scanSigned t = some (p, rest) ∧ p.2 < 2 ^ 64

/-- The text starts with an `int`. -/
def StartsInt (t : Text) : Prop := ∃ v rest, scanInt t = some (v, rest) ∧ -2 ^ 31 ≤ v ∧ v < 2 ^ 31

/-- All four parameters were given a value that starts with a number of their type. -/
structure Complete (q : List QueryItem) : Prop where
  mac : Given q .mac StartsUnsigned
  x : Given q .x binary32.Reads
  y : Given q .y binary32.Reads
  z : Given q .z StartsInt

section
variable (E : Env) (cfg : Config) (F : Floats)

/-- The request calls `user_add`. -/
def CallsAdd (d : Doubles) (q : List QueryItem) : Prop :=
  ∃ p mac x y z mall_id, Params.initial.read d F q = some p ∧
    userOp p = .ok (.add mac x y z mall_id)

/-- The request is answered with `fail`, and the world and the connections are as they were. -/
def Rejected (q : List QueryItem) : Prop :=
  ∀ pid v t, Answered E cfg F v ⟨pid, q⟩ t (.result "fail".toList) v ∧
    ∀ ret v', Answered E cfg F v ⟨pid, q⟩ t ret v' → ret = .result "fail".toList ∧ v' = v

/-- Only complete requests call `user_add`, and all others are rejected. -/
def AddChecked (q : List QueryItem) : Prop :=
  (CallsAdd F E.m.doubles q → Complete q) ∧ (¬Complete q → Rejected E cfg F q)

end

/-! ## What the variables hold -/

/-- The last value for `k` that is not blank. -/
def lastText (k : ParamKey) : List QueryItem → Option Text
  | [] => none
  | item :: rest =>
    (lastText k rest).or
      (if paramKey item.key = some k then item.value.filter (skipSpace · ≠ []) else none)

/-- Every parameter that is looked for has a value. -/
def Readable (q : List QueryItem) : Prop :=
  ∀ item ∈ q, (paramKey item.key).isSome → item.value.isSome

/-- The MAC is taken for a missing one. -/
def Unnamed (d : Doubles) (q : List QueryItem) : Prop := ∀ t ∈ lastText .mac q, Ty.parse d .ull t = noMac

/-- One of the four variables holds what it started with: nothing but blanks was given, or
the last value reads just so. -/
def Unlocated (d : Doubles) (F : Floats) (q : List QueryItem) : Prop :=
  (∀ t ∈ lastText .mac q, Ty.parse d .ull t = noMac) ∨ (∀ t ∈ lastText .x q, F.read t = FLT_MAX) ∨
    (∀ t ∈ lastText .y q, F.read t = FLT_MAX) ∨ (∀ t ∈ lastText .z q, Ty.parse d .int t = INT_MIN)

section
variable {d : Doubles} {F : Floats} {q : List QueryItem} {p p' : Params}

theorem read_isSome_iff : (p.read d F q).isSome ↔ Readable q := by
  induction q generalizing p with
  | nil => simp [Params.read, Readable]
  | cons item rest ih =>
    rw [Params.read, Readable, List.forall_mem_cons]
    cases key : paramKey item.key with
    | none =>
      simp only [Option.isSome_none, Bool.false_eq_true, false_implies, true_and]
      exact ih
    | some k =>
      cases value : item.value with
      | none => simp
      | some value =>
        simp only [Option.bind_some, Option.isSome_some, forall_const, true_and]
        exact ih

/-- A variable of a stream holds the last text that was not blank, as it reads. -/
theorem read_stream {α : Type} {field : Params → α} {k : ParamKey} {parse : Text → α}
    (other : ∀ (p : Params) value k', k' ≠ k → field (p.set d F value k') = field p)
    (own : ∀ (p : Params) value, field (p.set d F value k) =
      if skipSpace value = [] then field p else parse value)
    (read : p.read d F q = some p') : field p' = (lastText k q).elim (field p) parse := by
  induction q generalizing p with
  | nil => exact congrArg field (Option.some.inj read).symm
  | cons item rest ih =>
    rw [Params.read] at read
    rw [lastText]
    cases key : paramKey item.key with
    | none =>
      rw [key] at read
      rw [ih read]
      simp
    | some k' =>
      rw [key] at read
      obtain ⟨value, given, read⟩ := Option.bind_eq_some_iff.mp read
      rw [ih read, given]
      by_cases same : k' = k
      · subst same
        cases later : lastText k' rest with
        | some t => simp
        | none =>
          by_cases blank : skipSpace value = []
          · simp [own, blank, Option.filter]
          · simp [own, blank, Option.filter]
      · rw [other p value k' same]
        simp [same]

theorem elim_eq_iff {α β : Type} {o : Option α} {a : β} {parse : α → β} :
    o.elim a parse = a ↔ ∀ t ∈ o, parse t = a := by
  cases o with
  | none => simp
  | some t => simp

theorem unnamed_iff (read : Params.initial.read d F q = some p) : p.mac = noMac ↔ Unnamed d q := by
  have mac : p.mac = (lastText .mac q).elim noMac (Ty.parse d .ull) :=
    read_stream (fun p value k' ne => by simp [ne]) (fun p value => by simp [streamInto]) read
  rw [mac, elim_eq_iff, Unnamed]

/-- The variables of `user_op` that still hold their first values. -/
theorem unlocated_iff (read : Params.initial.read d F q = some p) :
    (p.mac = noMac ∨ p.x = FLT_MAX ∨ p.y = FLT_MAX ∨ p.z = INT_MIN) ↔ Unlocated d F q := by
  have x : p.x = (lastText .x q).elim FLT_MAX F.read :=
    read_stream (fun p value k' ne => by simp [ne]) (fun p value => by simp [streamFloat]) read
  have y : p.y = (lastText .y q).elim FLT_MAX F.read :=
    read_stream (fun p value k' ne => by simp [ne]) (fun p value => by simp [streamFloat]) read
  have z : p.z = (lastText .z q).elim INT_MIN (Ty.parse d .int) :=
    read_stream (fun p value k' ne => by simp [ne]) (fun p value => by simp [streamInto]) read
  rw [unnamed_iff read, x, y, z, Unlocated, Unnamed]
  simp only [elim_eq_iff]

theorem userOp_add (action : p.action = "add".toList) : userOp p =
    if p.mac = noMac ∨ p.x = FLT_MAX ∨ p.y = FLT_MAX ∨ p.z = INT_MIN then .error "fail".toList
    else .ok (.add p.mac p.x p.y p.z p.mall_id) := by
  rw [userOp, if_pos action]

end

/-! ## Requests to add -/

section
variable {E : Env} {cfg : Config} {F : Floats} {q : List QueryItem}

theorem action_of_read {d : Doubles} {p : Params} {value : Text} (last : lastValue .action q = some value)
    (read : Params.initial.read d F q = some p) : p.action = value :=
  read_last (fun p value k' ne => by simp [ne]) (fun p => by simp) last read

theorem callsAdd_iff {d : Doubles} (add : lastValue .action q = some "add".toList) :
    CallsAdd F d q ↔ Readable q ∧ ¬Unlocated d F q := by
  constructor
  · rintro ⟨p, mac, x, y, z, mall_id, read, called⟩
    refine ⟨read_isSome_iff.mp (by rw [read]; rfl), fun unlocated => ?_⟩
    rw [userOp_add (action_of_read add read), if_pos ((unlocated_iff read).mpr unlocated)] at called
    cases called
  · rintro ⟨readable, located⟩
    obtain ⟨p, read⟩ := Option.isSome_iff_exists.mp (read_isSome_iff.mpr readable)
    refine ⟨p, p.mac, p.x, p.y, p.z, p.mall_id, read, ?_⟩
    rw [userOp_add (action_of_read add read), if_neg fun h => located ((unlocated_iff read).mp h)]

theorem rejected_iff (add : lastValue .action q = some "add".toList) :
    Rejected E cfg F q ↔ Readable q ∧ Unlocated E.m.doubles F q := by
  constructor
  · intro rejected
    obtain ⟨⟨p, read, answer⟩, -⟩ := rejected 0 (.sound nobody) 0
    refine ⟨read_isSome_iff.mp (by rw [read]; rfl), ?_⟩
    by_contra located
    rw [userOp_add (action_of_read add read), if_neg fun h => located ((unlocated_iff read).mp h)]
      at answer
    obtain ⟨a, -, wrong⟩ := answer
    exact absurd (Ret.result.inj wrong) (by decide)
  · rintro ⟨readable, unlocated⟩ pid v t
    obtain ⟨p, read⟩ := Option.isSome_iff_exists.mp (read_isSome_iff.mpr readable)
    have fail : userOp p = .error "fail".toList := by
      rw [userOp_add (action_of_read add read), if_pos ((unlocated_iff read).mpr unlocated)]
    constructor
    · refine ⟨p, read, ?_⟩
      rw [fail]
      exact ⟨rfl, rfl⟩
    · rintro ret v' ⟨p', read', answer⟩
      obtain rfl := Option.some.inj (read'.symm.trans read)
      rw [fail] at answer
      exact answer

/-- The check holds of a request that is complete, and of one that leaves a variable with
its first value, if all its parameters have values. -/
theorem add_checked_iff (E : Env) (cfg : Config) (F : Floats) (q : List QueryItem)
    (add : lastValue .action q = some "add".toList) :
    AddChecked E cfg F q ↔ Complete q ∨ Readable q ∧ Unlocated E.m.doubles F q := by
  rw [AddChecked, rejected_iff add, callsAdd_iff add]
  by_cases complete : Complete q
  · simp [complete]
  · constructor
    · rintro ⟨-, rejected⟩
      exact Or.inr (rejected complete)
    · rintro (absurd_ | ⟨readable, unlocated⟩)
      · exact absurd absurd_ complete
      · exact ⟨fun h => absurd unlocated h.2, fun _ => ⟨readable, unlocated⟩⟩

end

/-- The values of an add request. -/
def addRequest (mac x y z : String) : List QueryItem :=
  [⟨"action".toList, some "add".toList⟩, ⟨"mac".toList, some mac.toList⟩,
    ⟨"longitude".toList, some x.toList⟩, ⟨"latitude".toList, some y.toList⟩,
    ⟨"level".toList, some z.toList⟩]

/-- A request whose level is blank. -/
def blankLevel : List QueryItem := addRequest "5" "1" "2" " "

theorem add_checked_iff_blank : AddChecked (plainEnv .redis) firstDay .binary32 blankLevel := by
  apply (add_checked_iff (plainEnv .redis) firstDay .binary32 blankLevel (by decide)).mpr
  have readable : Readable blankLevel := by
    unfold Readable
    decide
  have level : lastText .z blankLevel = none := by decide
  refine Or.inr ⟨readable, Or.inr (Or.inr (Or.inr ?_))⟩
  intro t given
  rw [level] at given
  cases given

/-- A MAC that is no number is stored as 0. -/
theorem add_unchecked :
    lastValue .action (addRequest "abc" "1" "2" "3") = some "add".toList ∧
      CallsAdd .binary32 (plainEnv .redis).m.doubles (addRequest "abc" "1" "2" "3") ∧
      ¬Complete (addRequest "abc" "1" "2" "3") ∧
      ¬AddChecked (plainEnv .redis) firstDay .binary32 (addRequest "abc" "1" "2" "3") := by
  have called : CallsAdd .binary32 (plainEnv .redis).m.doubles (addRequest "abc" "1" "2" "3") :=
    ⟨{ Params.initial with action := "add".toList, mac := 0, x := 1, y := 2, z := 3 },
      0, 1, 2, 3, 2, by decide +kernel, by rw [userOp_add rfl, if_neg (by decide +kernel)]; rfl⟩
  have incomplete : ¬Complete (addRequest "abc" "1" "2" "3") := by
    intro complete
    obtain ⟨item, given, value, key, has, p, rest, scanned, -⟩ := complete.mac
    have unread : ∀ item ∈ addRequest "abc" "1" "2" "3", paramKey item.key = some .mac →
        (item.value.bind scanSigned) = none := by
      decide
    have none := unread item given key
    rw [has, Option.bind_some, scanned] at none
    cases none
  exact ⟨by decide, called, incomplete, fun checked => incomplete (checked.1 called)⟩

end UserMap

end SimpleDsp
