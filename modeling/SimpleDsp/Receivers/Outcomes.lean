import SimpleDsp.Receivers.AddInput
import SimpleDsp.UserMap.LookupLock

/-!
# What user_op reports

`user_op` does not look at the values that the functions of `user_map` return, and
their exceptions end the process before there is an answer.

* `Effect.Completed`, `Response.Honest`: the operation, and an answer that is true
  to it;
* `meeting_userAdd`, `meeting_userQuery`: how the calls end;
* `outcome_reported_iff`: the requests whose answer is.
-/

namespace SimpleDsp

open DecimalText Programs

namespace UserMap

open AdMap (UserPosition)

/-! ## Calls and their effects -/

/-- The phones of PG's table, by user id; in a row of the table the phone may be null. -/
abbrev Phones := Int32 → Option (Option Text)

/-- How the statement of `user_update` ends. -/
inductive UpdateEnd
  | done | failsBefore | failsAfter
  deriving DecidableEq

def userRemove (_mac _mall_id : Int32) : Int32 := -1

/-- `update users set phone = ... where id = ...` -/
def setPhone (phones : Phones) (user_id : Int32) (phone : Text) : Phones :=
  if (phones user_id).isSome then Function.update phones user_id (some (some phone)) else phones

/-- The part of `user_update` from the transaction on. -/
def updatePhone (phones : Phones) (user_id : Int32) (phone : Text) : UpdateEnd → Int32 × Phones
  | .done => (0, setPhone phones user_id phone)
  | .failsBefore => (-1, phones)
  | .failsAfter => (-1, setPhone phones user_id phone)

/-- What a call returns or throws, and what it leaves; for `user_update` with the id of
the user. -/
inductive Effect
  | added (returned : Except Exn Int32)
  | removed (code : Int32) (left : World)
  | updated (returned : Except Exn (Int32 × Int32 × Phones))
  | queried (returned : Except Exn UserPosition)

/-- The operation took effect. -/
def Effect.Completed (p : Params) : Effect → Prop
  | .added returned => returned = .ok 0
  | .removed code left =>
    code = 0 ∧ ∀ prop, left.db (Key.location p.mall_id.toInt p.mac prop).text = none
  | .updated returned =>
    ∃ user_id phones, returned = .ok (user_id, 0, phones) ∧ phones user_id = some (some p.phone)
  | .queried returned => ∃ pos, returned = .ok pos

/-- The `result` that `user_op` sets behind the call. -/
def Effect.result : Effect → Option Text
  | .added (.error _) => none
  | .updated (.error _) => none
  | .queried (.error _) => none
  | _ => some "success".toList

section
variable (E : Env) (cfg : Config) (F : Floats) (pid : Nat) (i : Encounter) (u : UpdateEnd)
  (phones : Phones)

/-- The call, made in `s`, comes to the effect. -/
def UserCall.Makes (s : World × List Text) : UserCall → Effect → Prop
  | .add mac x y z mall_id, .added returned =>
    ∃ s', (userAdd cfg mac x y z mall_id).Runs (execMeeting E pid i) s returned s'
  | .remove mac mall_id, .removed code left => code = userRemove mac mall_id ∧ left = s.1
  | .update mac phone, .updated returned =>
    ∃ x s', (userGetId mac).Runs (execMeeting E pid i) s x s' ∧
      returned = x.map fun user_id => (user_id, updatePhone phones user_id phone u)
  | .query mac mall_id, .queried returned =>
    ∃ s', (userQuery F mac mall_id).Runs (execMeeting E pid i) s returned s'
  | _, _ => False

/-! ## Responses -/

/-- What a request comes to. -/
inductive Response
  /-- A value that is not there is read. -/
  | undefined
  | rejected (result : Text)
  | called (p : Params) (effect : Effect)

def Responds (q : List QueryItem) (s : World × List Text) : Response → Prop
  | .undefined => Params.initial.read E.m.doubles F q = none
  | .rejected result =>
    ∃ p, Params.initial.read E.m.doubles F q = some p ∧ userOp p = .error result
  | .called p effect =>
    Params.initial.read E.m.doubles F q = some p ∧
      ∃ c, userOp p = .ok c ∧ c.Makes E cfg F pid i u phones s effect

def Response.Completed : Response → Prop
  | .called p effect => effect.Completed p
  | _ => False

def Response.result : Response → Option Text
  | .undefined => none
  | .rejected result => some result
  | .called _ effect => effect.result

/-- Success stands for an operation that took effect, and each other one fails. -/
structure Response.Honest (r : Response) : Prop where
  success : r.result = some "success".toList ↔ r.Completed
  fail : ¬r.Completed → r.result = some "fail".toList

/-- What is asked for can be reported as it turns out. -/
structure Reported (outputs : List Text) (q : List QueryItem) : Prop where
  readable : Readable q
  add : lastValue .action q = some "add".toList →
    Unlocated E.m.doubles F q ∨ ∃ user_id, lookup i.cached outputs = .ok user_id
  remove : lastValue .action q = some "remove".toList → Unnamed E.m.doubles q
  update : lastValue .action q = some "update".toList → Unlocated E.m.doubles F q ∨
    u = .done ∧ ∃ user_id, lookup i.cached outputs = .ok user_id ∧ (phones user_id).isSome

end

variable {E : Env} {cfg : Config} {F : Floats} {pid : Nat} {i : Encounter} {u : UpdateEnd}
  {phones : Phones} {p : Params} {effect : Effect} {q : List QueryItem} {s : World × List Text}

theorem not_honest_undefined : ¬Response.undefined.Honest := by
  intro honest
  cases honest.fail not_false

theorem honest_rejected_iff {result : Text} :
    (Response.rejected result).Honest ↔ result = "fail".toList := by
  constructor
  · exact fun honest => Option.some.inj (honest.fail not_false)
  · rintro rfl
    refine ⟨⟨fun wrong => ?_, False.elim⟩, fun _ => rfl⟩
    exact absurd (Option.some.inj wrong) (by decide)

theorem Effect.result_ne_fail : effect.result ≠ some "fail".toList := by
  intro wrong
  unfold Effect.result at wrong
  split at wrong
  · cases wrong
  · cases wrong
  · cases wrong
  · exact absurd (Option.some.inj wrong) (by decide)

theorem Effect.Completed.result (completed : effect.Completed p) :
    effect.result = some "success".toList := by
  cases effect with
  | added returned =>
    obtain rfl : returned = .ok 0 := completed
    rfl
  | removed code left => rfl
  | updated returned =>
    obtain ⟨user_id, phones, rfl, -⟩ := completed
    rfl
  | queried returned =>
    obtain ⟨pos, rfl⟩ := completed
    rfl

/-- No call is answered with `fail`. -/
theorem honest_called_iff : (Response.called p effect).Honest ↔ effect.Completed p := by
  constructor
  · intro honest
    by_contra failed
    exact Effect.result_ne_fail (honest.fail failed)
  · intro completed
    exact ⟨⟨fun _ => completed, fun _ => completed.result⟩, fun failed => absurd completed failed⟩

/-! ## The calls -/

/-- The outputs are still to come, and the process is running. -/
structure Ongoing (pid : Nat) (s v : World × List Text) : Prop where
  outputs : v.2 = s.2
  started : (s.1.process pid).started = true → (v.1.process pid).started = true

theorem Ongoing.refl (s : World × List Text) : Ongoing pid s s := ⟨rfl, id⟩

theorem Ongoing.trans {a b c : World × List Text} (h : Ongoing pid a b) (h' : Ongoing pid b c) :
    Ongoing pid a c :=
  ⟨h'.outputs.trans h.outputs, fun started => h'.started (h.started started)⟩

/-- The records but those of the users' ids, which only `user_get_id` has to do with. -/
def BesidesIds (k : Key) : Prop := ∀ mac, k ≠ .userId mac

theorem meeting_ongoing {c : Cmd} {v : World × List Text} {r : c.Reply} (within : Within BesidesIds c)
    (x : execMeeting E pid i c s r v) : Ongoing pid s v := by
  refine ⟨?_, exec_started x.1⟩
  have met := x.2
  unfold Encounter.Meets at met
  split at met
  · exact met.1
  · exact met.1
  · exact absurd rfl (within.records _ rfl _)
  · exact met

theorem wp_ongoing {α : Type} {program : UserM α} (within : program.Every (Within BesidesIds)) :
    program.wp (execMeeting E pid i) (fun _ v => Ongoing pid s v) s :=
  Prog.wp_of_every Ongoing.refl (fun _ _ _ => Ongoing.trans) (fun _ _ _ _ => meeting_ongoing) within s

/-- A first part is passed over. -/
theorem wp_past {α β : Type} {program : UserM α} {f : α → UserM β}
    {Q : Except Exn β → World × List Text → Prop} {s0 : World × List Text}
    (within : program.Every (Within BesidesIds)) (calm : program.NoThrow) (ongoing : Ongoing pid s0 s)
    (hf : ∀ a v, Ongoing pid s0 v → (f a).wp (execMeeting E pid i) Q v) :
    (program >>= f).wp (execMeeting E pid i) Q s :=
  calm.wp_bind (wp_ongoing within) fun a v same => hf a v (ongoing.trans same)

theorem noThrow_userLocationLogAdd {mac : UInt64} {x y : Rat} {z mall_id : Int32} {t : Int64} :
    (userLocationLogAdd cfg mac x y z mall_id t).NoThrow := by
  intro log_id _
  have slice : (registerTimeSlice mall_id (getDateTimeStr cfg.localtime t.toInt cfg.time_slice)
      t).NoThrow :=
    fun _ => noThrow_whenM fun _ _ => trivial
  exact slice.bind fun _ => noThrow_indexSighting

/-- Behind the lookup the bookkeeping about the user cannot fail. -/
theorem meeting_creditUser {mac : UInt64} {mall_id : Int32} {t_pre t : Int64}
    (started : (s.1.process pid).started = true) :
    (creditUser cfg mac mall_id t_pre t).wp (execMeeting E pid i)
      (fun r _ => r = (lookup i.cached s.2).map fun _ => 0) s := by
  have vip (user_id : Int32) : (vipArriveTimeRecord cfg user_id mall_id t_pre t).NoThrow := by
    have asked : (if cfg.check_vip = 0 then pure true else isMallVip user_id mall_id :
        UserM Bool).NoThrow := by
      split
      · trivial
      · exact fun _ => trivial
    exact noThrow_whenM (asked.bind fun _ => noThrow_whenM fun _ => trivial)
  apply Prog.wp_seq _ (meeting_userGetId_lookup s started)
  · intro user_id v told
    rw [← told]
    have rest : (do
        userDurationAdd cfg user_id mall_id t_pre t
        vipArriveTimeRecord cfg user_id mall_id t_pre t
        macSetRecord cfg mac mall_id t : UserM Unit).NoThrow :=
      fun _ => (vip user_id).bind fun _ _ => trivial
    have ends := rest.wp_bind (X := execMeeting E pid i) (w := v) (P := fun _ => True)
      (f := fun _ => pure (0 : Int32)) (Q := fun r _ => r = .ok 0)
      (Prog.wp_mono _ (rest.wp v) fun _ _ _ => trivial) fun _ _ _ => rfl
    simp only [Prog.bind_assoc] at ends
    exact ends
  · intro e v told
    rw [← told]
    rfl

/-- `user_add` returns 0, or throws what the lookup throws. -/
theorem meeting_userAdd {mac : UInt64} {x y : Rat} {z mall_id : Int32}
    (started : (s.1.process pid).started = true) :
    (userAdd cfg mac x y z mall_id).wp (execMeeting E pid i)
      (fun r _ => r = (lookup i.cached s.2).map fun _ => 0) s := by
  have place {τ : Ty} {prop : LocationProp} {v : τ.Val} :
      (tairSetUserProp τ mall_id mac prop v).Every (Within BesidesIds) :=
    every_tairSetUserProp (by rintro _ ⟨⟩)
  have log (t : Int64) : (userLocationLogAdd cfg mac x y z mall_id t).Every (Within BesidesIds) :=
    every_userLocationLogAdd (by rintro _ _ ⟨⟩) (by rintro _ ⟨⟩) (by rintro _ _ ⟨⟩)
      (by rintro _ _ ⟨⟩) (by rintro _ _ _ _ ⟨⟩)
  apply wp_started started
  intro t s1 time
  have ongoing : Ongoing pid s s1 := ⟨time.2, exec_started time.1⟩
  apply wp_past place (fun _ => trivial) ongoing
  intro _ s2 ongoing
  apply wp_past place (fun _ => trivial) ongoing
  intro _ s3 ongoing
  apply wp_past (every_whenM fun _ => place) (noThrow_whenM fun _ => trivial) ongoing
  intro _ s4 ongoing
  apply wp_past (every_get (by rintro _ ⟨⟩)) (fun _ => trivial) ongoing
  intro t_pre s5 ongoing
  apply wp_past place (fun _ => trivial) ongoing
  intro _ s6 ongoing
  apply wp_past (every_zadd (by rintro _ ⟨⟩)) (fun _ => trivial) ongoing
  intro _ s7 ongoing
  apply wp_past (log t) noThrow_userLocationLogAdd ongoing
  intro _ s8 ongoing
  rw [← ongoing.outputs]
  exact meeting_creditUser (ongoing.started started)

theorem meeting_userQuery {mac : UInt64} {mall_id : Int32}
    (started : (s.1.process pid).started = true) :
    (userQuery F mac mall_id).wp (execMeeting E pid i) (fun r _ => ∃ pos, r = .ok pos) s := by
  apply wp_started started
  intro x _ _ y _ _ z _ _
  exact ⟨_, rfl⟩

/-! ## What took effect -/

theorem updatePhone_iff {user_id : Int32} (phone : Text) :
    (updatePhone phones user_id phone u).1 = 0 ∧
        (updatePhone phones user_id phone u).2 user_id = some (some phone) ↔
      u = .done ∧ (phones user_id).isSome := by
  cases u with
  | done =>
    by_cases row : (phones user_id).isSome
    · simp [updatePhone, setPhone, row]
    · have none : phones user_id = none := by simpa using row
      simp [updatePhone, setPhone, none]
  | failsBefore => simp [updatePhone]
  | failsAfter => simp [updatePhone]

section
variable {mac : UInt64} {mall_id z : Int32} {x y : Rat}

theorem completed_add_iff (started : (s.1.process pid).started = true)
    (makes : (UserCall.add mac x y z mall_id).Makes E cfg F pid i u phones s effect) :
    effect.Completed p ↔ ∃ user_id, lookup i.cached s.2 = .ok user_id := by
  cases effect with
  | added returned =>
    obtain ⟨s', runs⟩ := makes
    obtain rfl := runs.post _ (meeting_userAdd started)
    cases lookup i.cached s.2 <;> simp [Effect.Completed, Except.map]
  | removed | updated | queried => exact makes.elim

/-- `user_remove` never says that it has done anything. -/
theorem not_completed_remove {mac : Int32}
    (makes : (UserCall.remove mac mall_id).Makes E cfg F pid i u phones s effect) :
    ¬effect.Completed p := by
  cases effect with
  | removed code left =>
    obtain ⟨rfl, -⟩ := makes
    simp [Effect.Completed, userRemove]
  | added | updated | queried => exact makes.elim

theorem completed_update_iff (started : (s.1.process pid).started = true)
    (makes : (UserCall.update mac p.phone).Makes E cfg F pid i u phones s effect) :
    effect.Completed p ↔
      u = .done ∧ ∃ user_id, lookup i.cached s.2 = .ok user_id ∧ (phones user_id).isSome := by
  cases effect with
  | updated returned =>
    obtain ⟨_, s', runs, rfl⟩ := makes
    obtain rfl := runs.post _ (meeting_userGetId_lookup s started)
    cases lookup i.cached s.2 with
    | error e => simp [Effect.Completed, Except.map]
    | ok user_id =>
      constructor
      · rintro ⟨user_id', phones', told, updated⟩
        obtain ⟨rfl, pair⟩ := Prod.mk.inj (Except.ok.inj told)
        obtain ⟨done, row⟩ := (updatePhone_iff p.phone).mp
          ⟨congrArg Prod.fst pair, by rw [pair]; exact updated⟩
        exact ⟨done, user_id, rfl, row⟩
      · rintro ⟨done, _, ⟨⟩, row⟩
        obtain ⟨zero, updated⟩ := (updatePhone_iff p.phone).mpr ⟨done, row⟩
        exact ⟨user_id, _, congrArg Except.ok (Prod.ext rfl (Prod.ext zero rfl)), updated⟩
  | added | removed | queried => exact makes.elim

theorem completed_query (started : (s.1.process pid).started = true)
    (makes : (UserCall.query mac mall_id).Makes E cfg F pid i u phones s effect) :
    effect.Completed p := by
  cases effect with
  | queried returned =>
    obtain ⟨s', runs⟩ := makes
    exact runs.post _ (meeting_userQuery started)
  | added | removed | updated => exact makes.elim

end
/-! ## The answers -/

theorem userOp_remove (action : p.action = "remove".toList) : userOp p =
    if p.mac = noMac then .error "fail".toList
    else .ok (.remove p.mac.toUInt32.toInt32 p.mall_id) := by
  rw [userOp, action, if_neg (by decide), if_pos rfl]

theorem userOp_update (action : p.action = "update".toList) : userOp p =
    if p.mac = noMac ∨ p.x = FLT_MAX ∨ p.y = FLT_MAX ∨ p.z = INT_MIN then .error "fail".toList
    else .ok (.update p.mac p.phone) := by
  rw [userOp, action, if_neg (by decide), if_neg (by decide), if_pos rfl]

theorem userOp_query (action : p.action = "query".toList) : userOp p =
    if p.mac = noMac then .error "fail".toList else .ok (.query p.mac 0) := by
  rw [userOp, action, if_neg (by decide), if_neg (by decide), if_neg (by decide), if_pos rfl]

/-- An action that makes a call unless something is missing is answered honestly if
something is, or the call has an effect. -/
theorem honest_iff {action : Text} {call : Params → UserCall} {cond : Params → Prop}
    [DecidablePred cond] {missing effective : Prop} {r : Response}
    (last : lastValue .action q = some action)
    (op : ∀ p : Params, p.action = action →
      userOp p = if cond p then .error "fail".toList else .ok (call p))
    (cond_iff : ∀ p, Params.initial.read E.m.doubles F q = some p → (cond p ↔ missing))
    (ends : ∀ p effect, (call p).Makes E cfg F pid i u phones s effect →
      (effect.Completed p ↔ effective))
    (responds : Responds E cfg F pid i u phones q s r) :
    r.Honest ↔ Readable q ∧ (missing ∨ effective) := by
  cases r with
  | undefined =>
    have read : Params.initial.read E.m.doubles F q = none := responds
    have unread : ¬Readable q := by
      rw [← read_isSome_iff, read]
      simp
    simp [not_honest_undefined, unread]
  | rejected result =>
    obtain ⟨p, read, rejected⟩ := responds
    have readable : Readable q := read_isSome_iff.mp (by rw [read]; rfl)
    rw [op p (action_of_read last read)] at rejected
    rw [honest_rejected_iff]
    split at rejected
    · rename_i lacks
      simp [readable, (cond_iff p read).mp lacks, (Except.error.inj rejected).symm]
    · cases rejected
  | called p effect =>
    obtain ⟨read, c, called, makes⟩ := responds
    have readable : Readable q := read_isSome_iff.mp (by rw [read]; rfl)
    rw [op p (action_of_read last read)] at called
    rw [honest_called_iff]
    split at called
    · cases called
    · rename_i lacks
      obtain rfl := Except.ok.inj called
      simp [readable, mt (cond_iff p read).mpr lacks, ends p effect makes]

/-- The answer is success exactly where the operation took effect, and `fail` elsewhere, if and
only if the request can be read and nothing goes wrong that `user_op` does not look at: a
lookup that throws, an `update` that fails or finds no row, or the removal of a user. -/
theorem outcome_reported_iff (E : Env) (cfg : Config) (F : Floats) (pid : Nat) (i : Encounter)
    (u : UpdateEnd) (phones : Phones) (q : List QueryItem) (s : World × List Text) (r : Response)
    (asked : ∃ action ∈ ["add", "remove", "update", "query"],
      lastValue .action q = some action.toList)
    (started : (s.1.process pid).started = true)
    (responds : Responds E cfg F pid i u phones q s r) :
    r.Honest ↔ Reported E F i u phones s.2 q := by
  obtain ⟨action, listed, last⟩ := asked
  have other {a : String} {P : Prop} (ne : action.toList ≠ a.toList)
      (asks : lastValue .action q = some a.toList) : P :=
    absurd (Option.some.inj (last.symm.trans asks)) ne
  simp only [List.mem_cons, List.not_mem_nil, or_false] at listed
  obtain rfl | rfl | rfl | rfl := listed
  · rw [honest_iff last (fun _ => userOp_add) (fun _ => unlocated_iff)
      (fun _ _ => completed_add_iff started) responds]
    constructor
    · rintro ⟨readable, effective⟩
      exact ⟨readable, fun _ => effective, other (by decide), other (by decide)⟩
    · exact fun reported => ⟨reported.readable, reported.add last⟩
  · rw [honest_iff last (fun _ => userOp_remove) (fun _ => unnamed_iff)
      (fun _ _ makes => iff_false_intro (not_completed_remove makes)) responds]
    constructor
    · rintro ⟨readable, unnamed | absurd_⟩
      · exact ⟨readable, other (by decide), fun _ => unnamed, other (by decide)⟩
      · exact absurd_.elim
    · exact fun reported => ⟨reported.readable, Or.inl (reported.remove last)⟩
  · rw [honest_iff last (fun _ => userOp_update) (fun _ => unlocated_iff)
      (fun _ _ => completed_update_iff started) responds]
    constructor
    · rintro ⟨readable, effective⟩
      exact ⟨readable, other (by decide), other (by decide), fun _ => effective⟩
    · exact fun reported => ⟨reported.readable, reported.update last⟩
  · rw [honest_iff last (fun _ => userOp_query) (fun _ => unnamed_iff)
      (fun _ _ makes => iff_true_intro (completed_query started makes)) responds]
    constructor
    · rintro ⟨readable, -⟩
      exact ⟨readable, other (by decide), other (by decide), other (by decide)⟩
    · exact fun reported => ⟨reported.readable, Or.inr trivial⟩

/-! ## Requests to compute with -/

/-- The store knows MAC 5 as user 7. -/
def knownWorld : World :=
  { startedWorld with db := Db.empty.put (Key.userId 5).text (.str (decimal 7)) }

/-- User 7 is the only one, and has no phone. -/
def noPhone : Phones := fun user_id => if user_id = 7 then some none else none

def updateFive : List QueryItem :=
  [.of "action" "update".toList, .of "mac" (Key.macText 5), .of "x" (decimal 1),
    .of "y" (decimal 2), .of "z" (decimal 3), .of "phone" "139".toList]

def removeFive : List QueryItem := [.of "action" "remove".toList, .of "mac" (Key.macText 5)]

theorem updateFive_responds : ∃ effect,
    Responds (plainEnv .redis) firstDay .binary32 0 ⟨.returns, 7⟩ .done noPhone updateFive
      (knownWorld, []) (.called
        { Params.initial with action := "update".toList, mac := 5, x := 1, y := 2, z := 3,
                              phone := "139".toList } effect) := by
  let held := knownWorld.setProcess 0 { Process.fresh with started := true, locked := true }
  let freed := held.setProcess 0 { held.process 0 with locked := false }
  have runs : (userGetId 5).Runs (execMeeting (plainEnv .redis) 0 ⟨.returns, 7⟩) (knownWorld, [])
      (.ok 7) (freed, []) := by
    apply Prog.Runs.op (r := ()) (v := (held, []))
    · exact ⟨⟨rfl, rfl⟩, rfl⟩
    apply Prog.Runs.op (r := true) (v := (held, []))
    · refine ⟨by simp [exec, held], rfl, rfl, ?_, ?_⟩ <;> rintro ⟨⟩
    apply Prog.Runs.op (r := (7 : Int32)) (v := (held, []))
    · exact ⟨⟨Or.inl ⟨_, rfl, Prod.ext (by decide +kernel) rfl⟩, rfl⟩, rfl, rfl⟩
    exact Prog.Runs.op _ (r := ()) (v := (freed, [])) ⟨rfl, rfl⟩ ⟨rfl, rfl⟩
  refine ⟨.updated _, by decide +kernel, .update 5 "139".toList, ?_, .ok 7, _, runs, rfl⟩
  rw [userOp_update rfl, if_neg (by decide +kernel)]

/-- The phone is set, and the answer says so. -/
theorem outcome_reported_iff_update : ∃ r : Response,
    Responds (plainEnv .redis) firstDay .binary32 0 ⟨.returns, 7⟩ .done noPhone updateFive
      (knownWorld, []) r ∧ r.Honest := by
  obtain ⟨effect, responds⟩ := updateFive_responds
  refine ⟨_, responds, ?_⟩
  refine (outcome_reported_iff _ _ _ _ _ _ _ _ _ _ ⟨"update", by simp, by decide⟩ rfl responds).mpr ?_
  have user : lookup 7 [] = .ok 7 := rfl
  refine ⟨?_, fun add => absurd add (by decide), fun remove => absurd remove (by decide), fun _ => ?_⟩
  · intro item listed _
    revert item
    decide
  · exact Or.inr ⟨rfl, 7, user, rfl⟩

/-- The MAC 5 is to be removed; -1 comes back. -/
def removedFive : Response :=
  .called { Params.initial with action := "remove".toList, mac := 5 } (.removed (-1) knownWorld)

/-- `user_remove` only returns -1, and the answer is success. -/
theorem remove_reported_done :
    lastValue .action removeFive = some "remove".toList ∧
      Responds (plainEnv .redis) firstDay .binary32 0 ⟨.returns, 7⟩ .done noPhone removeFive
        (knownWorld, []) removedFive ∧ ¬removedFive.Honest := by
  refine ⟨by decide, ⟨by decide +kernel, .remove 5 2, ?_, rfl, rfl⟩, fun honest => ?_⟩
  · rw [userOp_remove rfl, if_neg (by decide +kernel)]
    rfl
  · have zero : (-1 : Int32) = 0 := (honest_called_iff.mp honest).1
    exact absurd zero (by decide)

end UserMap

end SimpleDsp
