import SimpleDsp.Receivers.ArriveTime
import SimpleDsp.Receivers.Buffers
import SimpleDsp.Receivers.Consumers
import SimpleDsp.Receivers.Outcomes

/-!
# Phones

`user_update` asks `user_get_id` for the user of a MAC and sets the phone in the row of
that id. `user_op` calls it, and `user_phone_receiver`, which reads its topic from the
beginning whenever it starts.

* `phones_belong`: in every interleaving a phone is shown for the user it was sent for;
* `phone_views`: what a message of the receiver does to the phones;
* `phones_after_restarts`: the phones after any number of sessions.
-/

namespace SimpleDsp

open DecimalText Programs Replays

namespace UserMap

open Prog (call)

inductive PhoneCmd
  | user_map (c : Cmd)
  /-- `update users set phone = ... where id = ...` -/
  | setPhone (user_id : Int32) (phone : Text)

abbrev PhoneCmd.Reply : PhoneCmd → Type
  | user_map c => c.Reply
  | setPhone .. => Int32

abbrev PhoneM := Prog PhoneCmd PhoneCmd.Reply Exn

/-- The world, with the other column of PG's table. -/
structure PhoneWorld where
  world : World
  phones : Phones

/-- The part of `user_update` before the transaction. -/
def updatedUser (mac : UInt64) : PhoneM Int32 := (userGetId mac).embed .user_map fun _ r => r

def userUpdate (mac : UInt64) (phone : Text) : PhoneM Int32 := do
  let user_id ← updatedUser mac
  call (PhoneCmd.setPhone user_id phone)

/-- There is a phone, or none, in each row of the table, and nowhere else. -/
def SameRows (s : PhoneWorld) : Prop :=
  ∀ id : Int32, (s.phones id).isSome ↔ ∃ mac, s.world.users mac = some id.toInt

/-- Rows may be added, without a phone. -/
structure NewRows (s t : PhoneWorld) : Prop where
  kept : ∀ id p, s.phones id = some p → t.phones id = some p
  null : ∀ id p, s.phones id = none → t.phones id = some p → p = none
  rows : SameRows t

/-- Where `fails`, the statement may fail before it is carried out, or after. -/
def execPhone (E : Env) (fails : Prop) (pid : Nat) :
    (c : PhoneCmd) → PhoneWorld → c.Reply → PhoneWorld → Prop
  | .user_map c, s, r, t => exec E pid c s.world r t.world ∧ NewRows s t
  | .setPhone user_id phone, s, r, t => t.world = s.world ∧
      ∃ u : UpdateEnd, (u = .done ∨ fails) ∧ (r, t.phones) = updatePhone s.phones user_id phone u

/-- The two columns are of one table, and the store agrees with it. -/
structure OneTable (E : Env) (s : PhoneWorld) : Prop where
  agrees : Agrees E s.world
  rows : SameRows s

/-- What other processes do. -/
structure Around (E : Env) (s t : PhoneWorld) : Prop where
  grows : s.world.users.Grows t.world.users
  agrees : Agrees E s.world → Agrees E t.world
  rows : NewRows s t

variable {E : Env} {fails : Prop} {pid : Nat} {mac : UInt64} {s t : PhoneWorld}

theorem setPhone_apply (phones : Phones) (user_id id : Int32) (phone : Text) :
    setPhone phones user_id phone id =
      if id = user_id ∧ (phones user_id).isSome then some (some phone) else phones id := by
  unfold setPhone
  by_cases row : (phones user_id).isSome
  · simp [row, Function.update_apply]
  · simp [row]

/-- Only the phone of the row can be different. -/
theorem setPhone_cases {E : Env} {user_id : Int32} {phone : Text} {r : Int32}
    (x : execPhone E fails pid (.setPhone user_id phone) s r t) :
    t.world = s.world ∧ (t.phones = s.phones ∨ t.phones = setPhone s.phones user_id phone) := by
  obtain ⟨world, u, -, ended⟩ := x
  refine ⟨world, ?_⟩
  have phones := congrArg Prod.snd ended
  cases u with
  | failsBefore => exact Or.inl phones
  | done | failsAfter => exact Or.inr phones

theorem sameRows_setPhone {user_id : Int32} {phone : Text} (rows : SameRows s)
    (world : t.world = s.world) (phones : t.phones = setPhone s.phones user_id phone) :
    SameRows t := by
  intro id
  rw [world, ← rows id, phones, setPhone_apply]
  split
  · rename_i row
    rw [row.1, row.2]
    rfl
  · rfl

theorem OneTable.around (table : OneTable E s) (moved : Around E s t) : OneTable E t :=
  ⟨moved.agrees table.agrees, moved.rows.rows⟩

/-! ## Whose phone it is -/

/-- A call of `user_update`, in some process. -/
structure PhoneCall where
  pid : Nat
  mac : UInt64
  phone : Text

def phoneSystem (E : Env) : System PhoneCmd PhoneCmd.Reply Exn Int32 PhoneCall PhoneWorld where
  start c := userUpdate c.mac c.phone
  exec _ c := execPhone E True c.pid
  drift := Around E

/-- Phones were there before, or have been asked for. -/
def PhonesFrom (asked : UInt64 → Text → Prop) (old : Phones) (s : PhoneWorld) : Prop :=
  ∀ id phone, s.phones id = some (some phone) →
    old id = some (some phone) ∨ ∃ mac, s.world.users mac = some id.toInt ∧ asked mac phone

section
variable {asked : UInt64 → Text → Prop} {old : Phones}

theorem PhonesFrom.newRows (from_ : PhonesFrom asked old s)
    (grows : s.world.users.Grows t.world.users) (rows : NewRows s t) : PhonesFrom asked old t := by
  intro id phone shown
  cases before : s.phones id with
  | none => cases rows.null id _ before shown
  | some p =>
    obtain rfl : p = some phone := Option.some.inj ((rows.kept id p before).symm.trans shown)
    rcases from_ id phone before with there | ⟨mac, row, wanted⟩
    · exact Or.inl there
    · exact Or.inr ⟨mac, grows _ _ row, wanted⟩

theorem PhonesFrom.setPhone (from_ : PhonesFrom asked old s) (table : OneTable E s)
    {user_id : Int32} {phone : Text} (world : t.world = s.world)
    (phones : t.phones = setPhone s.phones user_id phone)
    (row : user_id ≠ 0 → s.world.users mac = some user_id.toInt) (wanted : asked mac phone) :
    PhonesFrom asked old t := by
  intro id shown_phone shown
  rw [phones, setPhone_apply] at shown
  rw [world]
  split at shown
  · rename_i here
    obtain ⟨rfl, there⟩ := here
    obtain rfl := Option.some.inj (Option.some.inj shown)
    obtain ⟨owner, owned⟩ := (table.rows id).mp there
    have nonzero : id ≠ 0 := by
      rintro rfl
      exact absurd (table.agrees.valid.pos _ _ owned) (by decide)
    exact Or.inr ⟨mac, row nonzero, wanted⟩
  · exact from_ id shown_phone shown

theorem safe_userUpdate (pg : E.pg.KeepsUsers) {phone : Text} (wanted : asked mac phone)
    (s : PhoneWorld) :
    Safe (execPhone E fails pid) (fun s t => s.world.users.Grows t.world.users)
      (fun s => OneTable E s ∧ PhonesFrom asked old s) (userUpdate mac phone) (fun _ _ => True) s := by
  have found : Safe (execPhone E fails pid) (fun s t => s.world.users.Grows t.world.users)
      (fun s => OneTable E s ∧ PhonesFrom asked old s) (updatedUser mac)
      (fun x s => IdOf mac x s.world) s :=
    Safe.embed PhoneWorld.world (fun _ _ _ _ x => x.1) (fun _ _ h => h) (fun _ h => h.1.agrees)
      (fun _ _ _ _ h x agrees => ⟨⟨agrees, x.2.rows⟩, h.2.newRows (exec_later pg x.1) x.2⟩)
      (safe_userGetId pg mac s.world)
  apply Safe.seq found
  · rintro user_id v row u grows ⟨table, from_⟩ r u' x
    refine ⟨?_, trivial⟩
    obtain ⟨world, same | set⟩ := setPhone_cases x
    · refine ⟨⟨by rw [world]; exact table.agrees, ?_⟩, ?_⟩
      · intro id
        rw [same, world]
        exact table.rows id
      · intro id phone shown
        rw [same] at shown
        rw [world]
        exact from_ id phone shown
    · refine ⟨⟨by rw [world]; exact table.agrees, sameRows_setPhone table.rows world set⟩, ?_⟩
      exact from_.setPhone table world set (fun nz => grows _ _ (row user_id rfl nz)) wanted
  · exact fun _ _ _ => trivial

end

theorem phoneSystem_keeps (pg : E.pg.KeepsUsers) (asked : UInt64 → Text → Prop) (old : Phones) :
    ((phoneSystem E).only fun c => asked c.mac c.phone).Keeps
      (fun s t => s.world.users.Grows t.world.users)
      (fun s => OneTable E s ∧ PhonesFrom asked old s) (fun _ _ _ _ => True) where
  refl s := later_refl s.world
  trans s t u := later_trans s.world t.world u.world
  exec_later i l c s r t x := by
    cases c with
    | user_map c => exact exec_later pg x.1
    | setPhone user_id phone =>
      obtain ⟨world, -⟩ := x
      exact world ▸ later_refl s.world
  drift_later _ _ moved := moved.grows
  drift_keeps _ _ h moved := ⟨h.1.around moved, h.2.newRows moved.grows moved.rows⟩
  stable _ _ _ _ _ _ _ := trivial
  started _ l s _ := safe_userUpdate pg l.2 s

/-- Any number of calls of `user_update`, one operation at a time, over a store that may
lose commands and replies, and with statements that may fail: a phone in a row of the table
was there before, or was given in a call for the MAC of this row. -/
theorem phones_belong (pg : E.pg.KeepsUsers) (table : OneTable E s)
    {p : Pool PhoneCmd PhoneCmd.Reply Exn Int32 PhoneCall PhoneWorld}
    (reach : (phoneSystem E).Reach s p) {id : Int32} {phone : Text}
    (shown : p.world.phones id = some (some phone)) :
    s.phones id = some (some phone) ∨
      ∃ c ∈ p.threads, p.world.world.users c.1.mac = some id.toInt ∧ c.1.phone = phone := by
  let asked : UInt64 → Text → Prop := fun mac phone =>
    ∃ c ∈ p.threads, c.1.mac = mac ∧ c.1.phone = phone
  obtain ⟨ts, small, -⟩ := reach.only (fun c => asked c.mac c.phone)
    fun c mem => ⟨c, mem, rfl, rfl⟩
  have start : PhonesFrom asked s.phones s := fun _ _ there => Or.inl there
  obtain ⟨⟨-, from_⟩, -⟩ := (phoneSystem_keeps pg asked s.phones).reach ⟨table, start⟩ small
  rcases from_ id phone shown with there | ⟨mac, row, c, mem, rfl, given⟩
  · exact Or.inl there
  · exact Or.inr ⟨c, mem, row, given⟩

/-! ## One row -/

/-- The row 7, with MAC 5 and no phone yet. -/
def oneRow : PhoneWorld where
  world := World.fresh oneUser []
  phones id := if id = 7 then some none else none

theorem oneRow_table : OneTable fullEnv oneRow where
  agrees := Agrees.start (World.fresh_is_fresh oneUser []) oneUser_valid
  rows id := by
    have users (mac : UInt64) : oneRow.world.users mac = if mac = 5 then some 7 else none := rfl
    have phones : oneRow.phones id = if id = 7 then some none else none := rfl
    by_cases seven : id = 7
    · subst seven
      rw [phones]
      exact ⟨fun _ => ⟨5, rfl⟩, fun _ => rfl⟩
    · rw [phones, if_neg seven]
      constructor
      · exact fun h => absurd h Bool.false_ne_true
      · rintro ⟨mac, row⟩
        rw [users, Option.ite_none_right_eq_some] at row
        have same : id.toInt = (7 : Int32).toInt := (Option.some.inj row.2).symm
        exact absurd (Int32.toInt_inj.mp same) seven

def phoneAnswers : (c : PhoneCmd) → PhoneWorld → Option (c.Reply × PhoneWorld)
  | .user_map c, s => (answer fullEnv (fun u mac => (u mac).map decimal) (fun _ _ => []) 0 c s.world).map
      fun r => (r.1, { s with world := r.2 })
  | .setPhone user_id phone, s =>
    let r := updatePhone s.phones user_id phone .done
    some (r.1, { s with phones := r.2 })

theorem execPhone_answers (c : PhoneCmd) (s : PhoneWorld) (r : c.Reply × PhoneWorld)
    (rows : SameRows s) (given : phoneAnswers c s = some r) :
    execPhone fullEnv fails 0 c s r.1 r.2 ∧ SameRows r.2 := by
  cases c with
  | user_map c =>
    obtain ⟨⟨reply, v⟩, answered, rfl⟩ := Option.map_eq_some_iff.mp given
    have done : exec fullEnv 0 c s.world reply v := by
      refine exec_answer rfl ?_ (fun _ _ => rfl) c s.world (reply, v) answered
      intro u mac out printed
      obtain ⟨id, row, rfl⟩ := Option.map_eq_some_iff.mp printed
      exact ⟨rfl, id, row, rfl⟩
    have users : v.users = s.world.users := by
      cases exec_changes done with
      | users printed => exact printed.1
      | nothing | store | clock | slice | flags => rfl
    have rows' : SameRows { s with world := v } := by
      intro id
      rw [rows id, users]
    refine ⟨⟨done, fun _ _ there => there, fun id p absent there => ?_, rows'⟩, rows'⟩
    rw [absent] at there
    cases there
  | setPhone user_id phone =>
    obtain rfl := Option.some.inj given
    exact ⟨⟨rfl, .done, Or.inl rfl, rfl⟩, sameRows_setPhone rows rfl rfl⟩

/-- A web request gives the phone of MAC 5. -/
theorem phones_belong_given :
    ∃ p, (phoneSystem fullEnv).Reach oneRow p ∧ p.world.phones 7 = some (some "1".toList) ∧
      ∃ c ∈ p.threads, p.world.world.users c.1.mac = some 7 ∧ c.1.phone = "1".toList := by
  let request : PhoneCall := ⟨0, 5, "1".toList⟩
  have asked : (((phoneSystem fullEnv).start request).eval phoneAnswers oneRow).map
      (fun r => r.2.phones 7) = some (some (some "1".toList)) := by decide +kernel
  obtain ⟨r, run, shown⟩ := Option.map_eq_some_iff.mp asked
  have ran := (Prog.runs_eval_of (X := execPhone fullEnv True 0) execPhone_answers
    oneRow_table.rows run).1
  have reach := ((System.Reach.start (S := phoneSystem fullEnv) (w := oneRow)).spawn request).alone
    (i := 0) rfl ran
  refine ⟨_, reach, shown, ?_⟩
  rcases phones_belong fullTable_keepsUsers oneRow_table reach shown with there | given
  · exact absurd there (by decide)
  · exact given

/-! ## The phone of a MAC -/

/-- The phone in the row of the MAC; an id beyond `int` is never looked up. -/
def phoneOf (s : PhoneWorld) (mac : UInt64) : Option Text :=
  (s.world.users mac).bind fun id =>
    if (Int32.ofInt id).toInt = id then (s.phones (Int32.ofInt id)).join else none

theorem phoneOf_row {id : Int32} (row : s.world.users mac = some id.toInt) :
    phoneOf s mac = (s.phones id).join := by
  simp only [phoneOf, row, Option.bind_some, Int32.ofInt_toInt, if_true]

theorem phoneOf_cases (s : PhoneWorld) (mac : UInt64) :
    (∃ id : Int32, s.world.users mac = some id.toInt) ∨
      (∀ id : Int32, s.world.users mac ≠ some id.toInt) ∧ phoneOf s mac = none := by
  unfold phoneOf
  cases row : s.world.users mac with
  | none => exact Or.inr ⟨by simp, rfl⟩
  | some id =>
    by_cases fits : (Int32.ofInt id).toInt = id
    · exact Or.inl ⟨_, by rw [fits]⟩
    · refine Or.inr ⟨?_, if_neg fits⟩
      rintro id' e
      obtain rfl := Option.some.inj e
      rw [Int32.ofInt_toInt] at fits
      exact fits rfl

/-- What the part before the transaction does to the table. -/
structure Looked (s t : PhoneWorld) : Prop where
  grows : s.world.users.Grows t.world.users
  kept : ∀ id p, s.phones id = some p → t.phones id = some p
  null : ∀ id p, s.phones id = none → t.phones id = some p → p = none

theorem Looked.refl (s : PhoneWorld) : Looked s s :=
  ⟨later_refl s.world, fun _ _ h => h, fun _ _ absent there => by rw [absent] at there; cases there⟩

theorem Looked.trans (a b c : PhoneWorld) (h : Looked a b) (h' : Looked b c) : Looked a c where
  grows := h.grows.trans h'.grows
  kept id p there := h'.kept id p (h.kept id p there)
  null id p absent there := by
    cases between : b.phones id with
    | none => exact h'.null id p between there
    | some q =>
      obtain rfl : q = p := Option.some.inj ((h'.kept id q between).symm.trans there)
      exact h.null id q absent between

theorem NewRows.looked (rows : NewRows s t) (grows : s.world.users.Grows t.world.users) :
    Looked s t := ⟨grows, rows.kept, rows.null⟩

/-- A new row has no phone yet. -/
theorem phoneOf_looked (before : OneTable E s) (behind : OneTable E t) (looked : Looked s t) :
    phoneOf t = phoneOf s := by
  funext mac
  rcases phoneOf_cases s mac with ⟨id, row⟩ | ⟨none_there, no_phone⟩
  · rw [phoneOf_row row, phoneOf_row (looked.grows _ _ row)]
    obtain ⟨p, there⟩ := Option.isSome_iff_exists.mp ((before.rows id).mpr ⟨mac, row⟩)
    rw [there, looked.kept id p there]
  · rw [no_phone]
    rcases phoneOf_cases t mac with ⟨id, row⟩ | ⟨-, no_phone'⟩
    · rw [phoneOf_row row]
      have absent : s.phones id = none := by
        rw [← Option.not_isSome_iff_eq_none, before.rows id]
        rintro ⟨owner, owned⟩
        obtain rfl := behind.agrees.valid.distinct _ _ _ (looked.grows _ _ owned) row
        exact none_there id owned
      obtain ⟨p, there⟩ := Option.isSome_iff_exists.mp ((behind.rows id).mpr ⟨mac, row⟩)
      rw [there, looked.null id p absent there]
      rfl
    · exact no_phone'

/-- Wherever it is cut off. -/
theorem visits_updatedUser (pg : E.pg.KeepsUsers) (table : OneTable E s)
    (visits : (updatedUser mac).Visits (execPhone E fails pid) s t) :
    OneTable E t ∧ Looked s t := by
  have agrees : Agrees E t.world :=
    (safe_userGetId pg mac s.world).visits later_refl table.agrees
      (Prog.Visits.of_embed (fun _ _ _ _ x => x.1) visits)
  have every : (updatedUser mac).Every fun d => ∃ c, d = PhoneCmd.user_map c :=
    Prog.Every.embed (Prog.Every.of_forall (fun _ => trivial) _ : (userGetId mac).Every fun _ => True)
      fun c _ => ⟨c, rfl⟩
  have together : (SameRows s → SameRows t) ∧ Looked s t := by
    apply Prog.Every.visits (T := fun s t => (SameRows s → SameRows t) ∧ Looked s t) _ _ _ every visits
    · exact fun s => ⟨id, Looked.refl s⟩
    · exact fun a b c h h' => ⟨h'.1 ∘ h.1, Looked.trans a b c h.2 h'.2⟩
    · rintro _ s r t ⟨c, rfl⟩ x
      exact ⟨fun _ => x.2.rows, x.2.looked (exec_later pg x.1)⟩
  exact ⟨⟨agrees, together.1 table.rows⟩, together.2⟩

theorem phoneOf_setPhone {id : Int32} {phone : Text} (table : OneTable E s)
    (row : s.world.users mac = some id.toInt) (world : t.world = s.world)
    (phones : t.phones = setPhone s.phones id phone) :
    phoneOf t = Function.update (phoneOf s) mac (some phone) := by
  have there : (s.phones id).isSome := (table.rows id).mpr ⟨mac, row⟩
  funext other
  by_cases same : other = mac
  · subst same
    rw [Function.update_self, phoneOf_row (by rw [world]; exact row), phones, setPhone_apply,
      if_pos ⟨rfl, there⟩]
    rfl
  · rw [Function.update_of_ne same]
    rcases phoneOf_cases s other with ⟨id', row'⟩ | ⟨none_there, no_phone⟩
    · have ne : id' ≠ id := by
        rintro rfl
        exact same (table.agrees.valid.distinct _ _ _ row' row)
      rw [phoneOf_row (by rw [world]; exact row'), phoneOf_row row', phones, setPhone_apply,
        if_neg fun h => ne h.1]
    · rw [no_phone]
      rcases phoneOf_cases t other with ⟨id', row'⟩ | ⟨-, no_phone'⟩
      · rw [world] at row'
        exact absurd row' (none_there id')
      · exact no_phone'

/-! ## The receiver -/

namespace UserPhoneReceiver

/-- A message without an error. -/
def msgConsume (payload : Text) : PhoneM Unit := do
  let m := parsePhoneMsg (cString payload)
  let _ ← userUpdate m.mac m.phone
  pure ()

/-- A payload of which the phone is inside the copy. -/
abbrev Payload := { payload : Text // (phoneText payload).isSome }

def told (payload : Payload) : UInt64 × Text :=
  let m := parsePhoneMsg (cString payload.1)
  (m.mac, m.phone)

/-- Statements do not fail; an exception of `user_get_id` ends the process. -/
def consumer (E : Env) (pid : Nat) : Consumer Payload PhoneWorld where
  starts s t := t = { s with world := s.world.setProcess pid .fresh }
  handles payload s t := (msgConsume payload.1).Runs (execPhone E False pid) s (.ok ()) t
  cuts payload s t := (updatedUser (told payload).1).Visits (execPhone E False pid) s t
  drift := Around E

end UserPhoneReceiver

open UserPhoneReceiver (Payload told consumer)

/-- The loop of the receiver, left alone or killed, takes the steps of the consumer. -/
theorem phone_serves : Serves (execPhone E False pid) (consumer E pid) UserPhoneReceiver.msgConsume where
  done _ _ _ runs := runs
  cut payload s t visits := by
    rcases Prog.visits_bind visits with updating | ⟨code, u, updated, rfl⟩
    · rcases Prog.visits_bind updating with looking | ⟨user_id, u, found, setting⟩
      · exact Or.inl looking
      · rcases setting with rfl | ⟨r, _, set, rfl⟩
        · exact Or.inl found.visits
        · have updated : (userUpdate (told payload).1 (told payload).2).Runs
              (execPhone E False pid) s (.ok r) t := by
            apply Prog.Runs.bind found
            exact ⟨r, t, set, rfl, rfl⟩
          exact Or.inr (Prog.Runs.bind updated ⟨rfl, rfl⟩)
    · exact Or.inr (Prog.Runs.bind updated ⟨rfl, rfl⟩)

/-- `user_update`, to its end. -/
theorem runs_msgConsume (pg : E.pg.KeepsUsers) (answers : E.pg.Answers) (table : OneTable E s)
    {payload : Payload} (runs : (UserPhoneReceiver.msgConsume payload.1).Runs
      (execPhone E False pid) s (.ok ()) t) :
    OneTable E t ∧ phoneOf t = LastWrite.act told payload (phoneOf s) := by
  obtain ⟨code, u, updated, -, rfl⟩ | ⟨e, failed, -⟩ := Prog.runs_bind runs
  · obtain ⟨user_id, u, found, r, v, set, -, rfl⟩ | ⟨e, failed, -⟩ := Prog.runs_bind updated
    · obtain ⟨table', looked⟩ := visits_updatedUser pg table found.visits
      have row : u.world.users (told payload).1 = some user_id.toInt :=
        (Prog.Runs.post _ (Prog.Runs.of_embed (fun _ _ _ _ x => x.1) found)
          (wp_userGetId pg answers table.agrees)).2.2.2 user_id rfl
      obtain ⟨world, end_, done | never, ended⟩ := set
      · subst done
        have phones := congrArg Prod.snd ended
        refine ⟨⟨by rw [world]; exact table'.agrees, sameRows_setPhone table'.rows world phones⟩, ?_⟩
        rw [phoneOf_setPhone table' row world phones, phoneOf_looked table table' looked]
        rfl
      · exact never.elim
    · cases failed
  · cases failed

theorem phone_views (pg : E.pg.KeepsUsers) (answers : E.pg.Answers) :
    Views (consumer E pid) (OneTable E) (LastWrite.act told) phoneOf where
  starts s t table started := by
    obtain rfl := started
    exact ⟨⟨table.agrees.of_same rfl rfl, table.rows⟩, rfl⟩
  handles payload s t table runs := runs_msgConsume pg answers table runs
  cuts payload s t table visits := by
    obtain ⟨table', looked⟩ := visits_updatedUser pg table visits
    exact ⟨table', phoneOf_looked table table' looked⟩
  drift s t table moved :=
    ⟨table.around moved, phoneOf_looked table (table.around moved) (moved.rows.looked moved.grows)⟩

/-- The topic grows, the receiver is started, ended by an error or killed, and reads from
the beginning each time. The phone of a MAC is the last one that the running session has
handled for it, or else the last one of the session before, and so on. A session that has
passed the earlier ones leaves the phones as if it had been the only one. -/
theorem phones_after_restarts (pg : E.pg.KeepsUsers) (answers : E.pg.Answers)
    {s t : State Payload PhoneWorld} (fresh : s.Fresh) (table : OneTable E s.world)
    (steps : (consumer E pid).Steps s t) (mac : UInt64) :
    phoneOf t.world mac =
        (t.reads.findSome? fun n => LastWrite.newest told mac (t.log.take n)).or
          (phoneOf s.world mac) ∧
      ∀ n earlier, t.reads = n :: earlier → (∀ k ∈ earlier, k ≤ n) →
        phoneOf t.world mac =
          (LastWrite.newest told mac (t.log.take n)).or (phoneOf s.world mac) := by
  have shows := ((phone_views pg answers).steps fresh table steps).shows
  constructor
  · rw [shows]
    exact LastWrite.replay_eq t.log t.reads (phoneOf s.world) mac
  · intro n earlier reads ahead
    rw [shows, reads, LastWrite.repeats.caught_up ahead]
    exact LastWrite.play_apply _ _ mac

/-! ## A second session -/

/-- The topic gives MAC 5 two phones. -/
def firstPhone : Payload := ⟨"00-00-00-00-00-05|1".toList, by decide⟩

def secondPhone : Payload := ⟨"00-00-00-00-00-05|2".toList, by decide⟩

def restarted (s : PhoneWorld) : PhoneWorld := { s with world := s.world.setProcess 0 .fresh }

/-- A session for the two payloads and one for the first. -/
def twoSessions : Option (List (Except Exn Unit)) :=
  ((UserPhoneReceiver.msgConsume firstPhone.1).eval phoneAnswers (restarted oneRow)).bind fun a =>
    ((UserPhoneReceiver.msgConsume secondPhone.1).eval phoneAnswers a.2).bind fun b =>
      ((UserPhoneReceiver.msgConsume firstPhone.1).eval phoneAnswers (restarted b.2)).map fun c =>
        [a.1, b.1, c.1]

/-- Behind its predecessor, the session shows the phone of before. -/
theorem phones_after_restarts_behind :
    ∃ t, (consumer fullEnv 0).Steps ⟨[firstPhone, secondPhone], none, [], oneRow⟩ t ∧
      t.reads = [1, 2] ∧ phoneOf t.world 5 = some "1".toList := by
  have ended : twoSessions = some [.ok (), .ok (), .ok ()] := by decide +kernel
  obtain ⟨a, hear_first, rest⟩ := Option.bind_eq_some_iff.mp ended
  obtain ⟨b, hear_second, rest⟩ := Option.bind_eq_some_iff.mp rest
  obtain ⟨c, hear_again, all⟩ := Option.map_eq_some_iff.mp rest
  simp only [List.cons.injEq, and_true] at all
  obtain ⟨ok_a, ok_b, ok_c⟩ := all
  have again (s : PhoneWorld) (rows : SameRows s) : SameRows (restarted s) := rows
  obtain ⟨ran_a, rows_a⟩ := Prog.runs_eval_of (X := execPhone fullEnv False 0) execPhone_answers
    (again oneRow oneRow_table.rows) hear_first
  obtain ⟨ran_b, rows_b⟩ := Prog.runs_eval_of (X := execPhone fullEnv False 0) execPhone_answers
    rows_a hear_second
  obtain ⟨ran_c, -⟩ := Prog.runs_eval_of (X := execPhone fullEnv False 0) execPhone_answers
    (again b.2 rows_b) hear_again
  rw [ok_a] at ran_a
  rw [ok_b] at ran_b
  rw [ok_c] at ran_c
  let topic : State Payload PhoneWorld := ⟨[firstPhone, secondPhone], none, [], oneRow⟩
  have steps : (consumer fullEnv 0).Steps topic ⟨topic.log, some 1, [2], c.2⟩ := by
    apply Relation.ReflTransGen.head (.start rfl rfl)
    apply Relation.ReflTransGen.head (.handle rfl rfl ran_a)
    apply Relation.ReflTransGen.head (.handle rfl rfl ran_b)
    apply Relation.ReflTransGen.head (.stop rfl)
    apply Relation.ReflTransGen.head (.start rfl rfl)
    exact .single (.handle rfl rfl ran_c)
  refine ⟨_, steps, rfl, ?_⟩
  have heard : ([1, 2].findSome? fun n => LastWrite.newest told 5
      ([firstPhone, secondPhone].take n)).or (phoneOf oneRow 5) = some "1".toList := by
    decide +kernel
  exact (phones_after_restarts fullTable_keepsUsers fullTable_answers ⟨rfl, rfl⟩ oneRow_table
    steps 5).1.trans heard

end UserMap

end SimpleDsp
