import SimpleDsp.AdMap.Labels
import SimpleDsp.Receivers.ArriveTime
import SimpleDsp.Receivers.Buffers
import SimpleDsp.Receivers.Consumers
import SimpleDsp.Receivers.Uninitialised
import SimpleDsp.Store.RecordKinds

/-!
# Labels

`user_tag_receiver` puts the tag of a message among the labels of the user that
`user_get_id` names, where `ad_map` finds them when it chooses ads for the user.

* `mem_labelsAt_hset`: one report, in the record of a user;
* `labels_belong`: in every interleaving a label of a user was reported for the user's MAC;
* `tag_views`: what a message of the receiver does to the labels;
* `labels_after_restarts`: the labels after any number of sessions.
-/

namespace SimpleDsp

open DecimalText Programs Replays

namespace UserMap

open Prog (call)

/-! ## The record of a user -/

section
variable {type : TypeDb} {m : Machine} {db : Db} {id : Int32} {t : Text}

/-- The labels as `ad_map` reads them. -/
def labelsAt (type : TypeDb) (m : Machine) (db : Db) (id : Int32) : List Text :=
  (CBaseMdb.hget type m .double (Key.userLabelSet id.toInt).text db).map (·.1)

theorem userLabelSet_eq (G : AdMap.Globals) (pos : 0 < id) :
    AdMap.userLabelSet G db id = labelsAt G.type G.m db id := if_pos pos

theorem mem_labelsAt : t ∈ labelsAt type m db id ↔
    ∃ h, hashAt (db (Key.userLabelSet id.toInt).text) = some h ∧ ∃ f ∈ h, cString f = t := by
  unfold labelsAt
  cases hash : hashAt (db (Key.userLabelSet id.toInt).text) with
  | none =>
    cases type with
    | redis =>
      simp [CBaseMdb.hget, RedisDb.hget, (Key.isWord_text _).cString, serve, hash]
    | tair => simp [CBaseMdb.hget, TairDb.hget, hash]
  | some h =>
    have entries : (∃ f ∈ h, cString f = t) ↔ ∃ e ∈ h.entries, cString e.1 = t := by
      constructor
      · rintro ⟨f, mem, same⟩
        obtain ⟨v, entry⟩ := List.exists_of_mem_keys mem
        exact ⟨⟨f, v⟩, entry, same⟩
      · rintro ⟨e, entry, same⟩
        exact ⟨e.1, List.mem_keys_of_mem entry, same⟩
    simp only [Option.some.injEq, exists_eq_left', entries]
    cases type with
    | redis => simp [CBaseMdb.hget, hget_hash (Key.isWord_text _).cString hash]
    | tair => simp [CBaseMdb.hget, TairDb.hget, hash]

theorem labelsAt_congr {db' : Db} (same : db' (Key.userLabelSet id.toInt).text =
    db (Key.userLabelSet id.toInt).text) (t : Text) :
    t ∈ labelsAt type m db' id ↔ t ∈ labelsAt type m db id := by
  rw [mem_labelsAt, mem_labelsAt, same]

variable {tag v : Text}

theorem hset_word (type : TypeDb) (m : Machine) (db : Db) (k : Key)
    (tagWord : IsWord tag) (valueWord : IsWord v) :
    (∃ h v', hashAt (db k.text) = some h ∧
        hashAt (((StoreOp.hset k tag v).run type m db).2 k.text) =
          some (h.insert (CBaseMdb.storedWord type tag) v')) ∨
      hashAt (db k.text) = none ∧ ((StoreOp.hset k tag v).run type m db).2 = db := by
  cases hash : hashAt (db k.text) with
  | none =>
    refine Or.inr ⟨rfl, ?_⟩
    cases type with
    | redis =>
      simp [StoreOp.run, CBaseMdb.hset, RedisDb.hset, redisCommand, formatArgs_cons k.isWord_text,
        formatArgs_cons tagWord, formatArgs_word valueWord, Ty.print, serve, fieldPairs, hash]
    | tair => simp [StoreOp.run, CBaseMdb.hset, TairDb.hset, hash, TairDb.flag]
  | some h =>
    cases type with
    | redis =>
      refine Or.inl ⟨h, v, rfl, ?_⟩
      simp [StoreOp.run, CBaseMdb.hset, RedisDb.hset, redisCommand, formatArgs_cons k.isWord_text,
        formatArgs_cons tagWord, formatArgs_word valueWord, Ty.print, serve, fieldPairs, hash,
        setFields, CBaseMdb.storedWord]
      rfl
    | tair =>
      refine Or.inl ⟨h, Ty.bytes m.doubles .string v, rfl, ?_⟩
      simp [StoreOp.run, CBaseMdb.hset, TairDb.hset, hash, TairDb.flag, CBaseMdb.storedWord]
      rfl

theorem cString_storedWord (word : IsWord tag) : cString (CBaseMdb.storedWord type tag) = tag := by
  cases type with
  | redis => exact word.cString
  | tair =>
    have plain : nul ∉ tag := fun zero => (word.plain _ zero).2.2 rfl
    exact cString_append_nul plain

/-- A report adds the tag, if the record is one of labels, and nothing else. -/
theorem mem_labelsAt_hset (tagWord : IsWord tag) (valueWord : IsWord v) :
    t ∈ labelsAt type m ((StoreOp.hset (.userLabelSet id.toInt) tag v).run type m db).2 id ↔
      t ∈ labelsAt type m db id ∨
        t = tag ∧ (hashAt (db (Key.userLabelSet id.toInt).text)).isSome := by
  rcases hset_word type m db (.userLabelSet id.toInt) tagWord valueWord with
    ⟨h, v', before, behind⟩ | ⟨none, same⟩
  · rw [mem_labelsAt, mem_labelsAt, behind, before]
    simp only [Option.some.injEq, exists_eq_left', AList.mem_insert, or_and_right, exists_or,
      exists_eq_left, cString_storedWord tagWord, Option.isSome_some, and_true]
    rw [or_comm]
    exact or_congr Iff.rfl eq_comm
  · rw [same, none]
    simp

end

/-! ## Whose labels they are -/

/-- What other functions do: none of them touches labels. -/
structure BesideLabels (E : Env) (w v : World) : Prop where
  grows : w.users.Grows v.users
  agrees : Agrees E w → Agrees E v
  labels : ∀ id : Int32, v.db (Key.userLabelSet id.toInt).text = w.db (Key.userLabelSet id.toInt).text

/-- A message of the receiver, or a lookup of a user, in some process. -/
inductive TagCall
  | report (pid : Nat) (uninit : Mac) (payload : Text)
  | find (call : IdCall)

def TagCall.pid : TagCall → Nat
  | report pid _ _ => pid
  | find call => call.pid

section
variable (doubles : Doubles) (user_tag_save_on_tair : Bool)

def TagCall.start : TagCall → UserM Unit
  | report _ uninit payload =>
    UserTagReceiver.msgConsume doubles user_tag_save_on_tair uninit (cString payload)
  | find call => do
    let _ ← call.start
    pure ()

def tagSystem (E : Env) : System Cmd Cmd.Reply Exn Unit TagCall World where
  start c := c.start doubles user_tag_save_on_tair
  exec _ c := exec E c.pid
  drift := BesideLabels E

end

/-- The number and the tag that the message is read as. -/
def TagCall.Reads (mac : UInt64) (tag : Text) : TagCall → Prop
  | report _ uninit payload =>
    (parseTagMsg uninit (cString payload)).mac = mac ∧
      (parseTagMsg uninit (cString payload)).usertag = tag
  | find _ => False

/-- Labels were there before, or have been reported. -/
def LabelsFrom (E : Env) (told : UInt64 → Text → Prop) (old : Int32 → List Text) (w : World) : Prop :=
  ∀ id : Int32, id ≠ 0 → ∀ t ∈ labelsAt E.type E.m w.db id,
    t ∈ old id ∨ ∃ mac, w.users mac = some id.toInt ∧ told mac t

section
variable {E : Env} {pid : Nat} {mac : UInt64} {w v : World} {told : UInt64 → Text → Prop}
  {old : Int32 → List Text} {doubles : Doubles} {save : Bool}

theorem exec_unchanged {S : Key → Prop} {c : Cmd} {r : c.Reply} (within : Within S c)
    (x : exec E pid c w r v) : Unchanged S w v :=
  wp_frame (S := S) (p := call c) ⟨within, fun _ => trivial⟩ w r v x

theorem LabelsFrom.grows (from_ : LabelsFrom E told old w) (grows : w.users.Grows v.users)
    (same : ∀ id : Int32, v.db (Key.userLabelSet id.toInt).text =
      w.db (Key.userLabelSet id.toInt).text) : LabelsFrom E told old v := by
  intro id nz t there
  rw [labelsAt_congr (same id)] at there
  rcases from_ id nz t there with before | ⟨mac, row, reported⟩
  · exact Or.inl before
  · exact Or.inr ⟨mac, grows _ _ row, reported⟩

theorem labelSet_not_id (id : Int32) : ¬IsIdKey (.userLabelSet id.toInt) := by simp [IsIdKey]

theorem LabelsFrom.id_op (pg : E.pg.KeepsUsers) {c : Cmd} {r : c.Reply} (within : Within IsIdKey c)
    (from_ : LabelsFrom E told old w) (x : exec E pid c w r v) : LabelsFrom E told old v :=
  from_.grows (exec_later pg x) fun id => (exec_unchanged within x).db _ (labelSet_not_id id)

/-- The report itself, whether the store answers or not. -/
theorem LabelsFrom.report {tag value : Text} {user_id r : Int32} (from_ : LabelsFrom E told old w)
    (x : exec E pid (.store (.hset (.userLabelSet user_id.toInt) tag value)) w r v)
    (row : user_id ≠ 0 → w.users mac = some user_id.toInt) (reported : told mac tag)
    (tagWord : IsWord tag) (valueWord : IsWord value) : LabelsFrom E told old v := by
  have users : v.users = w.users := by rw [x.2]
  by_cases lost : v.db = w.db
  · exact from_.grows (by rw [users]; exact fun _ _ h => h) fun _ => by rw [lost]
  have done : v.db = ((StoreOp.hset (.userLabelSet user_id.toInt) tag value).run E.type E.m w.db).2 := by
    rcases x.1 with ⟨_, -, answered⟩ | ⟨-, -, same | done⟩
    · exact (congrArg Prod.snd answered).trans (StoreOp.run_finding_snd ..)
    · exact absurd same lost
    · exact done
  intro id nz t there
  rw [users]
  by_cases here : id = user_id
  · subst here
    rw [done, mem_labelsAt_hset tagWord valueWord] at there
    rcases there with before | ⟨rfl, -⟩
    · exact from_ id nz t before
    · exact Or.inr ⟨mac, row nz, reported⟩
  · have other : Key.userLabelSet id.toInt ≠ .userLabelSet user_id.toInt := by
      intro same
      exact here (Int32.toInt_inj.mp (Key.userLabelSet.inj same))
    rw [done, labelsAt_congr (StoreOp.run_frame other w.db)] at there
    exact from_ id nz t there

abbrev SafeTag (E : Env) (pid : Nat) (told : UInt64 → Text → Prop) (old : Int32 → List Text)
    {α : Type} (p : UserM α) (Q : Except Exn α → World → Prop) (w : World) : Prop :=
  Safe (exec E pid) later (fun w => Agrees E w ∧ LabelsFrom E told old w) p Q w

theorem safeTag_of_id (pg : E.pg.KeepsUsers) {α : Type} {p : UserM α}
    {Q : Except Exn α → World → Prop} (safe : SafeId E pid p Q w) (every : p.Every (Within IsIdKey)) :
    SafeTag E pid told old p Q w :=
  safe.and_every every fun _ _ _ _ within from_ x => from_.id_op pg within x

theorem every_userGetId_id : (userGetId mac).Every (Within IsIdKey) :=
  every_userGetId (Or.inl ⟨mac, rfl⟩) fun id => Or.inr ⟨id, rfl⟩

theorem agrees_store {o : StoreOp} {r : o.Reply} (out : ¬IsIdKey o.key) (agrees : Agrees E w)
    (x : exec E pid (.store o) w r v) : Agrees E v :=
  agrees.of_unchanged (exec_unchanged (within_store (S := (· = o.key)) rfl) x)
    fun _ id same => out (same ▸ id)

theorem safe_userTagUpdate (pg : E.pg.KeepsUsers) {tag : Text} {value : Rat}
    (reported : told mac tag) (tagWord : IsWord tag) (w : World) :
    SafeTag E pid told old (userTagUpdate doubles save mac tag value) (fun _ _ => True) w := by
  apply Safe.seq (safeTag_of_id pg (safe_userMapInit w) every_userMapInit)
  · intro _ w1 _
    cases save with
    | false => trivial
    | true =>
      apply Safe.seq (safeTag_of_id pg (safe_userGetId pg mac w1) every_userGetId_id)
      · rintro user_id w2 row u grows ⟨agrees, from_⟩ r v x
        refine ⟨⟨agrees_store (o := .hset (.userLabelSet user_id.toInt) tag (doubles.print value))
          (labelSet_not_id user_id) agrees x, ?_⟩, trivial⟩
        exact from_.report x (fun nz => grows _ _ (row user_id rfl nz)) reported tagWord
          (doubles.print_word value)
      · exact fun _ _ _ => trivial
  · exact fun _ _ _ => trivial

theorem every_userGetMac_id {user_id : Int32} : (userGetMac user_id).Every (Within IsIdKey) := by
  have set_both (mac : UInt64) : (do
      set .int (.userId mac) user_id
      set .ull (.userMac user_id.toInt) mac
      pure mac : UserM UInt64).Every (Within IsIdKey) :=
    (every_set (Or.inl ⟨mac, rfl⟩)).bind fun _ => (every_set (Or.inr ⟨_, rfl⟩)).bind fun _ => trivial
  have asked : (userMacFromPg user_id).Every (Within IsIdKey) := by
    refine ⟨within_none (by rintro k ⟨⟩) (by simp), fun s_mac => ?_⟩
    simp only [Prog.bind]
    split
    · exact (every_liftExcept _).bind set_both
    · trivial
  apply every_userMapInit.bind
  intro _
  apply (every_get (Or.inr ⟨_, rfl⟩)).bind
  intro mac
  split
  · trivial
  · exact asked

theorem safe_find (pg : E.pg.KeepsUsers) (call : IdCall) (w : World) :
    SafeTag E call.pid told old call.start (fun _ _ => True) w := by
  have quiet : SafeId E call.pid call.start (fun _ _ => True) w :=
    (safe_start pg call w).weaken fun _ _ _ => trivial
  apply safeTag_of_id pg quiet
  cases call with
  | getId pid mac => exact every_userGetId_id.bind fun _ => trivial
  | getMac pid user_id => exact every_userGetMac_id.bind fun _ => trivial

/-- The tag of the message can be a word of a command. -/
def TagCall.Plain (c : TagCall) : Prop := ∀ mac tag, c.Reads mac tag → IsWord tag

theorem tagSystem_keeps (pg : E.pg.KeepsUsers) (told : UInt64 → Text → Prop)
    (old : Int32 → List Text) :
    ((tagSystem doubles save E).only fun c => c.Plain ∧ ∀ mac tag, c.Reads mac tag → told mac tag).Keeps
      later (fun w => Agrees E w ∧ LabelsFrom E told old w) (fun _ _ _ _ => True) where
  refl := later_refl
  trans := later_trans
  exec_later _ _ _ _ _ _ x := exec_later pg x
  drift_later _ _ moved := moved.grows
  drift_keeps _ _ h moved := ⟨moved.agrees h.1, h.2.grows moved.grows moved.labels⟩
  stable _ _ _ _ _ _ _ := trivial
  started _ l w _ := by
    obtain ⟨call, plain, reported⟩ := l
    cases call with
    | report pid uninit payload =>
      apply Safe.seq (safe_userTagUpdate pg (reported _ _ ⟨rfl, rfl⟩) (plain _ _ ⟨rfl, rfl⟩) w)
      · exact fun _ _ _ => trivial
      · exact fun _ _ _ => trivial
    | find call =>
      apply Safe.seq (safe_find pg call w)
      · exact fun _ _ _ => trivial
      · exact fun _ _ _ => trivial

/-- Any number of messages and lookups, one operation at a time, over a store that may lose
commands and replies, with whatever the receiver's variables held before: a label by which
`ad_map` chooses for a user was there before, or some message has been read as this tag for
the MAC in the user's row. -/
theorem labels_belong (pg : E.pg.KeepsUsers) (agrees : Agrees E w) {G : AdMap.Globals}
    (type : G.type = E.type) (machine : G.m = E.m)
    {p : Pool Cmd Cmd.Reply Exn Unit TagCall World} (reach : (tagSystem doubles save E).Reach w p)
    (plain : ∀ c ∈ p.threads, c.1.Plain) {id : Int32} {t : Text}
    (seen : t ∈ AdMap.userLabelSet G p.world.db id) :
    t ∈ AdMap.userLabelSet G w.db id ∨
      ∃ c ∈ p.threads, ∃ mac, p.world.users mac = some id.toInt ∧ c.1.Reads mac t := by
  by_cases pos : 0 < id
  · rw [userLabelSet_eq G pos, type, machine] at seen ⊢
    let told : UInt64 → Text → Prop := fun mac tag => ∃ c ∈ p.threads, c.1.Reads mac tag
    obtain ⟨ts, small, -⟩ := reach.only
      (fun c => c.Plain ∧ ∀ mac tag, c.Reads mac tag → told mac tag)
      fun c mem => ⟨plain c mem, fun _ _ read => ⟨c, mem, read⟩⟩
    have start : LabelsFrom E told (labelsAt E.type E.m w.db) w := fun _ _ _ there => Or.inl there
    obtain ⟨⟨-, from_⟩, -⟩ :=
      (tagSystem_keeps pg told (labelsAt E.type E.m w.db)).reach ⟨agrees, start⟩ small
    have nz : id ≠ 0 := by
      rintro rfl
      exact absurd pos (by decide)
    rcases from_ id nz t seen with there | ⟨mac, row, c, mem, read⟩
    · exact Or.inl there
    · exact Or.inr ⟨c, mem, mac, row, read⟩
  · rw [AdMap.userLabelSet, if_neg pos] at seen
    cases seen

end

/-! ## One report -/

def teaReport : Text := "Mac 00:00:00:00:00:05 tea".toList

theorem isWord_tea : IsWord "tea".toList where
  ne_nil := by decide
  plain := by simp [nul]

theorem usertag_teaReport : (parseTagMsg (Mac.ofNumber 0) (cString teaReport)).usertag =
    "tea".toList := by decide +kernel

/-- The table has a row for every MAC that is asked for. -/
def tagAnswers : (c : Cmd) → World → Option (c.Reply × World) :=
  answer fullEnv (fun u mac => (u mac).map decimal) (fun _ _ => []) 0

theorem exec_tagAnswers (c : Cmd) (w : World) (r : c.Reply × World) (given : tagAnswers c w = some r) :
    exec fullEnv 0 c w r.1 r.2 := by
  refine exec_answer rfl ?_ (fun _ _ => rfl) c w r given
  intro u mac out printed
  obtain ⟨id, row, rfl⟩ := Option.map_eq_some_iff.mp printed
  exact ⟨rfl, id, row, rfl⟩

/-- The user 7 has MAC 5. -/
theorem labels_belong_reported :
    ∃ p, (tagSystem Machine.plain.doubles true fullEnv).Reach (World.fresh oneUser []) p ∧
      "tea".toList ∈ AdMap.userLabelSet AdMap.plainRedis p.world.db 7 ∧
      ∃ c ∈ p.threads, ∃ mac, p.world.users mac = some 7 ∧ c.1.Reads mac "tea".toList := by
  let S := tagSystem Machine.plain.doubles true fullEnv
  let message : TagCall := .report 0 (Mac.ofNumber 0) teaReport
  have reported : ((S.start message).eval tagAnswers (World.fresh oneUser [])).map (fun r =>
      decide ("tea".toList ∈ AdMap.userLabelSet AdMap.plainRedis r.2.db 7)) = some true := by
    decide +kernel
  obtain ⟨r, run, seen⟩ := Option.map_eq_some_iff.mp reported
  have seen := of_decide_eq_true seen
  have reach := ((System.Reach.start (S := S) (w := World.fresh oneUser [])).spawn message).alone
    (i := 0) rfl (Prog.runs_eval _ exec_tagAnswers run)
  refine ⟨_, reach, seen, ?_⟩
  have plain : ∀ c ∈ ([(message, Prog.done r.1)] : List (TagCall × UserM Unit)), c.1.Plain := by
    intro c mem mac tag read
    obtain rfl := List.mem_singleton.mp mem
    rw [← read.2, usertag_teaReport]
    exact isWord_tea
  have agrees := Agrees.start (E := fullEnv) (World.fresh_is_fresh oneUser []) oneUser_valid
  rcases labels_belong fullTable_keepsUsers agrees rfl rfl reach plain seen with there | given
  · exact absurd there (by decide +kernel)
  · exact given

/-! ## The labels of a MAC -/

section
variable {E : Env} {pid : Nat} {mac : UInt64} {w v : World} {doubles : Doubles}

/-- The labels of the user in the row of the MAC. -/
def labelsOf (E : Env) (w : World) (mac : UInt64) : Set Text :=
  { t | ∃ id : Int32, w.users mac = some id.toInt ∧ t ∈ labelsAt E.type E.m w.db id }

/-- Labels are kept as labels, and for users of the table; those of nobody aside. -/
structure Labelled (E : Env) (w : World) : Prop where
  agrees : Agrees E w
  hashes : ∀ id : Int32, (hashAt (w.db (Key.userLabelSet id.toInt).text)).isSome
  owned : ∀ id : Int32, id ≠ 0 → ∀ t ∈ labelsAt E.type E.m w.db id,
    ∃ mac, w.users mac = some id.toInt

/-- Users may be added, and labels stay. -/
structure SameLabels (w v : World) : Prop where
  grows : w.users.Grows v.users
  labels : ∀ id : Int32, v.db (Key.userLabelSet id.toInt).text = w.db (Key.userLabelSet id.toInt).text

theorem SameLabels.refl (w : World) : SameLabels w w := ⟨later_refl w, fun _ => rfl⟩

theorem SameLabels.trans (a b c : World) (h : SameLabels a b) (h' : SameLabels b c) :
    SameLabels a c := ⟨h.grows.trans h'.grows, fun id => (h'.labels id).trans (h.labels id)⟩

theorem Labelled.same (labelled : Labelled E w) (agrees : Agrees E v) (same : SameLabels w v) :
    Labelled E v where
  agrees := agrees
  hashes id := by
    rw [same.labels id]
    exact labelled.hashes id
  owned id nz t there := by
    rw [labelsAt_congr (same.labels id)] at there
    obtain ⟨mac, row⟩ := labelled.owned id nz t there
    exact ⟨mac, same.grows _ _ row⟩

theorem row_ne_zero (valid : w.users.Valid) {id : Int32} (row : w.users mac = some id.toInt) :
    id ≠ 0 := by
  rintro rfl
  exact absurd (valid.pos _ _ row) (by decide)

/-- A new user has no labels yet. -/
theorem labelsOf_same (labelled : Labelled E w) (agrees : Agrees E v) (same : SameLabels w v) :
    labelsOf E v = labelsOf E w := by
  funext mac
  ext t
  constructor
  · rintro ⟨id, row, there⟩
    rw [labelsAt_congr (same.labels id)] at there
    obtain ⟨owner, owned⟩ := labelled.owned id (row_ne_zero agrees.valid row) t there
    obtain rfl := agrees.valid.distinct _ _ _ (same.grows _ _ owned) row
    exact ⟨id, owned, there⟩
  · rintro ⟨id, row, there⟩
    exact ⟨id, same.grows _ _ row, (labelsAt_congr (same.labels id) t).mpr there⟩

theorem mem_labelsOf {id : Int32} {t : Text} (row : w.users mac = some id.toInt) :
    t ∈ labelsOf E w mac ↔ t ∈ labelsAt E.type E.m w.db id := by
  constructor
  · rintro ⟨id', row', there⟩
    obtain rfl := Int32.toInt_inj.mp (Option.some.inj (row.symm.trans row'))
    exact there
  · exact fun there => ⟨id, row, there⟩

/-! ## The receiver -/

/-- The part of `user_tag_update` before the report. -/
def labelledUser (mac : UInt64) : UserM Int32 := do
  userMapInit
  userGetId mac

theorem userTagUpdate_eq (tag : Text) (value : Rat) : userTagUpdate doubles true mac tag value = (do
    let user_id ← labelledUser mac
    let ret ← hset (.userLabelSet user_id.toInt) tag (doubles.print value)
    pure (some (if ret = 0 then 1 else 0))) := by
  rw [labelledUser, Prog.bind_assoc]
  rfl

theorem every_labelledUser : (labelledUser mac).Every (Within IsIdKey) :=
  every_userMapInit.bind fun _ => every_userGetId_id

theorem visits_labelledUser (pg : E.pg.KeepsUsers) (agrees : Agrees E w)
    (visits : (labelledUser mac).Visits (exec E pid) w v) : Agrees E v ∧ SameLabels w v := by
  have safe : SafeId E pid (labelledUser mac) (fun _ _ => True) w := by
    apply Safe.seq (safe_userMapInit w)
    · exact fun _ v _ => (safe_userGetId pg mac v).weaken fun _ _ _ => trivial
    · exact fun _ _ _ => trivial
  refine ⟨safe.visits later_refl agrees visits, ?_⟩
  apply Prog.Every.visits SameLabels.refl SameLabels.trans _ every_labelledUser visits
  intro c w r v within x
  exact ⟨exec_later pg x, fun id => (exec_unchanged within x).db _ (labelSet_not_id id)⟩

theorem runs_labelledUser (pg : E.pg.KeepsUsers) (answers : E.pg.Answers) (agrees : Agrees E w)
    {user_id : Int32} (runs : (labelledUser mac).Runs (exec E pid) w (.ok user_id) v) :
    v.users mac = some user_id.toInt := by
  obtain ⟨_, u, started, found⟩ | ⟨e, failed, -⟩ := Prog.runs_bind runs
  · have agrees' : Agrees E u :=
      (safe_userMapInit w).visits later_refl agrees started.visits
    exact (found.post _ (wp_userGetId pg answers agrees')).2.2.2 user_id rfl
  · cases failed

namespace UserTagReceiver

/-- The message shows an address and a tag, which fits its array and is a word. -/
structure Reports (payload : Text) : Prop where
  mac : ∃ mac, Shows "Mac ".toList ':' mac (cString payload)
  tag : IsWord (parseTagMsg (Mac.ofNumber 0) (cString payload)).usertag
  fits : (usertagWritten payload).length ≤ 40

abbrev Payload := { payload : Text // Reports payload }

def told (payload : Payload) : UInt64 × Text :=
  let m := parseTagMsg (Mac.ofNumber 0) (cString payload.1)
  (m.mac, m.usertag)

/-- The number may be found as `memory` says before `sscanf` fills it. -/
def consumer (E : Env) (memory : Mac → Prop) (pid : Nat) (doubles : Doubles) :
    Consumer Payload World where
  starts w v := v = w.setProcess pid .fresh
  handles payload w v := ∃ uninit, memory uninit ∧
    (msgConsume doubles true uninit (cString payload.1)).Runs (exec E pid) w (.ok ()) v
  cuts payload w v := ∃ uninit, memory uninit ∧
    (labelledUser (parseTagMsg uninit (cString payload.1)).mac).Visits (exec E pid) w v
  drift := BesideLabels E

end UserTagReceiver

open UserTagReceiver (Payload told consumer)

theorem parseTagMsg_told {uninit : Mac} (zero : uninit.HighZero) (payload : Payload) :
    (parseTagMsg uninit (cString payload.1)).mac = (told payload).1 := by
  obtain ⟨mac, shown⟩ := payload.2.mac
  rw [(parseTagMsg_mac_iff shown).mpr zero]
  exact ((parseTagMsg_mac_iff shown).mpr ⟨by decide, by decide⟩).symm

variable {memory : Mac → Prop}

/-- The loop of the receiver, left alone or killed, takes the steps of the consumer. -/
theorem tag_serves {uninit : Mac} (found : memory uninit) :
    Serves (exec E pid) (consumer E memory pid doubles)
      fun payload => UserTagReceiver.msgConsume doubles true uninit (cString payload) where
  done _ _ _ runs := ⟨uninit, found, runs⟩
  cut payload w v visits := by
    rcases Prog.visits_bind visits with updating | ⟨code, u, updated, rfl⟩
    · rw [userTagUpdate_eq] at updating
      rcases Prog.visits_bind updating with looking | ⟨user_id, u, identified, reporting⟩
      · exact Or.inl ⟨uninit, found, looking⟩
      · rcases reporting with rfl | ⟨r, _, reported, rfl⟩
        · exact Or.inl ⟨uninit, found, identified.visits⟩
        · have updated : (userTagUpdate doubles true (parseTagMsg uninit (cString payload.1)).mac
              (parseTagMsg uninit (cString payload.1)).usertag 1).Runs (exec E pid) w
              (.ok (some (if r = 0 then 1 else 0))) v := by
            rw [userTagUpdate_eq]
            apply Prog.Runs.bind identified
            exact ⟨r, v, reported, rfl, rfl⟩
          exact Or.inr ⟨uninit, found, Prog.Runs.bind updated ⟨rfl, rfl⟩⟩
    · exact Or.inr ⟨uninit, found, Prog.Runs.bind updated ⟨rfl, rfl⟩⟩

/-- What a report leaves, in a store that answers. -/
theorem labelsOf_report (labelled : Labelled E w) {user_id : Int32} {tag value : Text}
    (row : w.users mac = some user_id.toInt) (tagWord : IsWord tag) (valueWord : IsWord value)
    (users : v.users = w.users)
    (done : v.db = ((StoreOp.hset (.userLabelSet user_id.toInt) tag value).run E.type E.m w.db).2)
    (agrees : Agrees E v) :
    Labelled E v ∧
      labelsOf E v = Function.update (labelsOf E w) mac (insert tag (labelsOf E w mac)) := by
  have other {id : Int32} (ne : id ≠ user_id) : v.db (Key.userLabelSet id.toInt).text =
      w.db (Key.userLabelSet id.toInt).text := by
    rw [done]
    apply StoreOp.run_frame
    exact fun same => ne (Int32.toInt_inj.mp (Key.userLabelSet.inj same))
  have mine (t : Text) : t ∈ labelsAt E.type E.m v.db user_id ↔
      t = tag ∨ t ∈ labelsAt E.type E.m w.db user_id := by
    rw [done, mem_labelsAt_hset tagWord valueWord, or_comm]
    simp [labelled.hashes user_id]
  refine ⟨⟨agrees, ?_, ?_⟩, ?_⟩
  · intro id
    by_cases here : id = user_id
    · subst here
      rw [done]
      exact isSome_hashAt_hset (labelled.hashes id)
    · rw [other here]
      exact labelled.hashes id
  · intro id nz t there
    rw [users]
    by_cases here : id = user_id
    · subst here
      exact ⟨mac, row⟩
    · rw [labelsAt_congr (other here)] at there
      exact labelled.owned id nz t there
  · funext mac'
    ext t
    by_cases same : mac' = mac
    · subst same
      rw [Function.update_self, mem_labelsOf (by rw [users]; exact row), mine,
        Set.mem_insert_iff, mem_labelsOf row]
    · rw [Function.update_of_ne same]
      have away {id : Int32} (row' : w.users mac' = some id.toInt) : id ≠ user_id := by
        rintro rfl
        exact same (labelled.agrees.valid.distinct _ _ _ row' row)
      constructor
      · rintro ⟨id, row', there⟩
        rw [users] at row'
        exact ⟨id, row', (labelsAt_congr (other (away row')) t).mp there⟩
      · rintro ⟨id, row', there⟩
        exact ⟨id, by rw [users]; exact row', (labelsAt_congr (other (away row')) t).mpr there⟩

/-- `user_tag_update`, to its end. -/
theorem runs_tagMsg (pg : E.pg.KeepsUsers) (answers : E.pg.Answers) (answered : ¬E.lossy)
    (labelled : Labelled E w) {payload : Payload} {uninit : Mac} (zero : uninit.HighZero)
    (runs : (UserTagReceiver.msgConsume doubles true uninit (cString payload.1)).Runs
      (exec E pid) w (.ok ()) v) :
    Labelled E v ∧ labelsOf E v = Collect.act told payload (labelsOf E w) := by
  obtain ⟨code, u, updated, -, rfl⟩ | ⟨e, failed, -⟩ := Prog.runs_bind runs
  · rw [parseTagMsg_told zero, userTagUpdate_eq] at updated
    obtain ⟨user_id, u, found, r, _, reported, -, rfl⟩ | ⟨e, failed, -⟩ := Prog.runs_bind updated
    · obtain ⟨agrees, same⟩ := visits_labelledUser pg labelled.agrees found.visits
      have labelled' := labelled.same agrees same
      have row := runs_labelledUser pg answers labelled.agrees found
      have agrees' := agrees_store
        (o := .hset (.userLabelSet user_id.toInt) (told payload).2 (doubles.print 1))
        (labelSet_not_id user_id) agrees reported
      have done := E.answered_db answered reported.1
      have users : v.users = u.users := by rw [reported.2]
      have left := labelsOf_report labelled' row payload.2.tag (doubles.print_word 1) users done agrees'
      rw [labelsOf_same labelled agrees same] at left
      exact left
    · cases failed
  · cases failed

theorem tag_views (pg : E.pg.KeepsUsers) (answers : E.pg.Answers) (answered : ¬E.lossy)
    (zero : ∀ uninit, memory uninit → uninit.HighZero) :
    Views (consumer E memory pid doubles) (Labelled E) (Collect.act told) (labelsOf E) where
  starts w v labelled started := by
    obtain rfl := started
    have agrees : Agrees E (w.setProcess pid .fresh) := labelled.agrees.of_same rfl rfl
    have same : SameLabels w (w.setProcess pid .fresh) := ⟨later_refl w, fun _ => rfl⟩
    exact ⟨labelled.same agrees same, labelsOf_same labelled agrees same⟩
  handles payload w v labelled runs := by
    obtain ⟨uninit, found, runs⟩ := runs
    exact runs_tagMsg pg answers answered labelled (zero uninit found) runs
  cuts payload w v labelled visits := by
    obtain ⟨uninit, -, visits⟩ := visits
    obtain ⟨agrees, same⟩ := visits_labelledUser pg labelled.agrees visits
    exact ⟨labelled.same agrees same, labelsOf_same labelled agrees same⟩
  drift w v labelled moved := by
    have same : SameLabels w v := ⟨moved.grows, moved.labels⟩
    have agrees := moved.agrees labelled.agrees
    exact ⟨labelled.same agrees same, labelsOf_same labelled agrees same⟩

/-- The topic grows, the receiver is started, ended by an error or killed, and reads from
the beginning each time, and what it finds in the two bytes of a number that `sscanf` leaves
alone is zero. At any moment, `ad_map` finds for a user the labels of before and the tags
that the messages have for the user's MAC, up to the last message that any session has
handled: reading them again adds nothing, and nothing is missing meanwhile. -/
theorem labels_after_restarts (pg : E.pg.KeepsUsers) (answers : E.pg.Answers)
    (answered : ¬E.lossy) (zero : ∀ uninit, memory uninit → uninit.HighZero) {G : AdMap.Globals}
    (type : G.type = E.type) (machine : G.m = E.m) {s t : State Payload World} (fresh : s.Fresh)
    (labelled : Labelled E s.world) (steps : (consumer E memory pid doubles).Steps s t) {id : Int32}
    (row : t.world.users mac = some id.toInt) (tag : Text) :
    tag ∈ AdMap.userLabelSet G t.world.db id ↔
      (∃ payload ∈ t.log.take (furthest t.reads), told payload = (mac, tag)) ∨
        tag ∈ labelsOf E s.world mac := by
  have played := (tag_views pg answers answered zero).steps fresh labelled steps
  have pos : 0 < id := Int32.lt_iff_toInt_lt.mpr (played.keeps.agrees.valid.pos _ _ row)
  rw [userLabelSet_eq G pos, type, machine, ← mem_labelsOf row, played.shows,
    Collect.settles.replay_eq, Collect.mem_play]

end

/-! ## A second session -/

open UserTagReceiver (Payload told consumer)

theorem endsHex_blank (t : Text) : FormatScan.EndsHex (' ' :: t) :=
  FormatScan.endsHex_cons (by decide) t

/-- The topic gives MAC 5 two tags. -/
def firstTag : Payload where
  val := teaReport
  property.mac := ⟨5, _, _, isMacText_macWords 5, endsHex_blank "tea".toList, by decide⟩
  property.tag := by
    rw [usertag_teaReport]
    exact isWord_tea
  property.fits := by decide +kernel

def coffeeReport : Text := "Mac 00:00:00:00:00:05 coffee".toList

theorem usertag_coffeeReport : (parseTagMsg (Mac.ofNumber 0) (cString coffeeReport)).usertag =
    "coffee".toList := by decide +kernel

def secondTag : Payload where
  val := coffeeReport
  property.mac := ⟨5, _, _, isMacText_macWords 5, endsHex_blank "coffee".toList, by decide⟩
  property.tag := by
    rw [usertag_coffeeReport]
    exact ⟨by decide, by simp [nul]⟩
  property.fits := by decide +kernel

/-- The table has the user 7, of whom the store has no label. -/
theorem fresh_labelled : Labelled fullEnv (World.fresh oneUser []) where
  agrees := Agrees.start (World.fresh_is_fresh oneUser []) oneUser_valid
  hashes _ := rfl
  owned id _ t there := by
    obtain ⟨h, empty, f, mem, -⟩ := mem_labelsAt.mp there
    obtain rfl : ∅ = h := Option.some.inj empty
    exact absurd mem (AList.notMem_empty f)

def zeroMac : Mac := Mac.ofNumber 0

def hearTag (payload : Payload) : World → Option (Except Exn Unit × World) :=
  (UserTagReceiver.msgConsume Machine.plain.doubles true zeroMac (cString payload.1)).eval tagAnswers

/-- A session for the two payloads and one for the first. -/
def twoTagSessions : Option (List (Except Exn Unit) × Option Int) :=
  (hearTag firstTag ((World.fresh oneUser []).setProcess 0 .fresh)).bind fun a =>
    (hearTag secondTag a.2).bind fun b =>
      (hearTag firstTag (b.2.setProcess 0 .fresh)).map fun c => ([a.1, b.1, c.1], c.2.users 5)

/-- Behind its predecessor, the session leaves the tag of the message that it has not read. -/
theorem labels_after_restarts_behind :
    ∃ t, (consumer fullEnv (· = zeroMac) 0 Machine.plain.doubles).Steps
        ⟨[firstTag, secondTag], none, [], World.fresh oneUser []⟩ t ∧
      t.reads = [1, 2] ∧
      "coffee".toList ∈ AdMap.userLabelSet AdMap.plainRedis t.world.db 7 := by
  have ended : twoTagSessions = some ([.ok (), .ok (), .ok ()], some 7) := by decide +kernel
  obtain ⟨a, hear_first, rest⟩ := Option.bind_eq_some_iff.mp ended
  obtain ⟨b, hear_second, rest⟩ := Option.bind_eq_some_iff.mp rest
  obtain ⟨c, hear_again, all⟩ := Option.map_eq_some_iff.mp rest
  simp only [Prod.mk.injEq, List.cons.injEq, and_true] at all
  obtain ⟨⟨ok_a, ok_b, ok_c⟩, row⟩ := all
  have ran_a := Prog.runs_eval _ exec_tagAnswers hear_first
  have ran_b := Prog.runs_eval _ exec_tagAnswers hear_second
  have ran_c := Prog.runs_eval _ exec_tagAnswers hear_again
  rw [ok_a] at ran_a
  rw [ok_b] at ran_b
  rw [ok_c] at ran_c
  let topic : State Payload World := ⟨[firstTag, secondTag], none, [], World.fresh oneUser []⟩
  have steps : (consumer fullEnv (· = zeroMac) 0 Machine.plain.doubles).Steps topic
      ⟨topic.log, some 1, [2], c.2⟩ := by
    apply Relation.ReflTransGen.head (.start rfl rfl)
    apply Relation.ReflTransGen.head (.handle rfl rfl ⟨zeroMac, rfl, ran_a⟩)
    apply Relation.ReflTransGen.head (.handle rfl rfl ⟨zeroMac, rfl, ran_b⟩)
    apply Relation.ReflTransGen.head (.stop rfl)
    apply Relation.ReflTransGen.head (.start rfl rfl)
    exact .single (.handle rfl rfl ⟨zeroMac, rfl, ran_c⟩)
  refine ⟨_, steps, rfl, ?_⟩
  have told_coffee : told secondTag = (5, "coffee".toList) := by decide +kernel
  exact (labels_after_restarts fullTable_keepsUsers fullTable_answers not_false
    (by rintro _ rfl; exact ⟨by decide, by decide⟩) rfl rfl ⟨rfl, rfl⟩ fresh_labelled steps row
    "coffee".toList).mpr (Or.inl ⟨secondTag, by simp [topic, State.reads, furthest], told_coffee⟩)

end UserMap

end SimpleDsp
