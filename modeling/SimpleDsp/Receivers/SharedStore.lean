import SimpleDsp.Receivers.UserZero
import SimpleDsp.Receivers.Positions
import SimpleDsp.Store.RecordKinds
import SimpleDsp.UserMap.LogIds

/-!
# The store that all processes share

Receivers and request handlers run side by side, one operation at a time, over one
store. Whatever the interleaving:

* `suits_start`, `conforming_start`: every operation fits the kind of its record, and
  arrives as it is meant if the tags are words;
* `store_stays_typed`: the records keep their kinds and every operation finds the one it
  expects, replies lost or not;
* `store_tells_record`: a store that answers holds what the operations over sound
  connections have left in a store of typed records.
-/

namespace SimpleDsp

open DecimalText Programs

namespace UserMap

/-! ## Operations that fit -/

section
variable {cfg : Config} {mac : UInt64} {user_id mall_id shop_id : Int32} {t_pre t : Int64}

theorem conforming_recordInShop {is_vip : Bool} :
    Conforming (recordInShop cfg shop_id user_id mac t is_vip) := by
  have last : Conforming (getUserLocationTime 2 shop_id mac) :=
    conforming_userMapInit.bind fun _ => conforming_get rfl
  have times : Conforming (updateUserLocationTime cfg 2 shop_id mac t) :=
    conforming_userMapInit.bind fun _ => (conforming_set rfl).bind fun _ =>
      conforming_zadd rfl (Key.isWord_macText mac)
  have durations (date : Stamp) (interval : Int32) :
      Conforming (shopUserDurationAdd cfg 2 shop_id user_id date interval) := by
    apply (conforming_incr rfl).bind
    intro _
    have shop (n : Int32) : Conforming (shopAllUsersDurationAdd 2 shop_id date n) :=
      (conforming_incr rfl).bind fun _ => trivial
    have mall (n : Int32) : Conforming (mallAllUsersDurationAdd 2 date n) :=
      (conforming_incr rfl).bind fun _ => trivial
    exact (shop _).bind fun _ => mall _
  have arrives (last_time : Int64) :
      Conforming (updateUserArriveTime cfg 2 shop_id user_id last_time t is_vip) :=
    conforming_userMapInit.bind fun _ => conforming_whenM (conforming_zadd rfl (isWord_decimal _))
  have place : Conforming (updateShopidOfUserLocation cfg user_id shop_id t) := conforming_set rfl
  exact last.bind fun last_time => times.bind fun _ => (durations _ _).bind fun _ =>
    (arrives last_time).bind fun _ => place

theorem conforming_apmacCloserSightings (entries : List (Text × UInt64)) :
    Conforming (apmacCloserSightings cfg shop_id t entries) := by
  induction entries with
  | nil => trivial
  | cons entry entries ih =>
    have vip : Conforming (macIsVip entry.1 shop_id) :=
      conforming_userMapInit.bind fun _ => ⟨trivial, fun _ => trivial⟩
    have sighting : Conforming (apmacCloserSighting cfg shop_id t entry) :=
      vip.bind fun _ => conforming_userGetId.bind fun _ => conforming_whenM conforming_recordInShop
    exact sighting.bind fun _ => ih

end

/-! ## All processes -/

/-- What a thread of the receivers or of the request handlers does. -/
inductive Task
  | entry (call : EntryCall)
  | query (mac : UInt64) (mall_id : Int32)
  | getId (mac : UInt64)
  | getMac (user_id : Int32)

/-- A tag of more than one word, or with a percent sign in it, may not arrive. -/
def Task.Worded : Task → Prop
  | .entry (.userTagUpdate _ user_tag _) => IsWord user_tag
  | _ => True

/-- A task in the process `pid`. -/
structure Started where
  pid : Nat
  task : Task

section
variable (cfg : Config) (doubles : Doubles) (F : Floats) (user_tag_save_on_tair : Bool)

def Task.start : Task → UserM Unit
  | entry call => call.start cfg doubles user_tag_save_on_tair
  | query mac mall_id => do
    let _ ← userQuery F mac mall_id
    pure ()
  | getId mac => do
    let _ ← userGetId mac
    pure ()
  | getMac user_id => do
    let _ ← userGetMac user_id
    pure ()

theorem conforming_start {task : Task} (worded : task.Worded) :
    Conforming (task.start cfg doubles F user_tag_save_on_tair) := by
  cases task with
  | entry call =>
    cases call with
    | userAdd => exact conforming_userAdd.bind fun _ => trivial
    | apmacMsg => exact conforming_apmacGetShopid.bind fun _ => conforming_apmacSightings _
    | apmacCloserMsg =>
      exact conforming_apmacGetShopid.bind fun _ =>
        ⟨trivial, fun _ => conforming_apmacCloserSightings _⟩
    | userTagUpdate => exact (conforming_userTagUpdate worded).bind fun _ => trivial
  | query => exact conforming_userQuery.bind fun _ => trivial
  | getId => exact conforming_userGetId.bind fun _ => trivial
  | getMac => exact conforming_userGetMac.bind fun _ => trivial

theorem suits_start (task : Task) :
    (task.start cfg doubles F user_tag_save_on_tair).Every Cmd.Suits := by
  by_cases worded : task.Worded
  · exact (conforming_start cfg doubles F user_tag_save_on_tair worded).mono fun _ => Cmd.Conforms.suits
  · cases task with
    | entry call =>
      cases call with
      | userTagUpdate => exact suits_userTagUpdate.bind fun _ => trivial
      | userAdd | apmacMsg | apmacCloserMsg => exact absurd trivial worded
    | query | getId | getMac => exact absurd trivial worded

/-- The tasks side by side. What is around them may change by itself, the store not. -/
def sharedSystem (E : Env) : System Cmd Cmd.Reply Exn Unit Started World where
  start s := s.task.start cfg doubles F user_tag_save_on_tair
  exec _ s := exec E s.pid
  drift w w' := w'.db = w.db

end

section
variable {E : Env} {cfg : Config} {doubles : Doubles} {F : Floats} {save : Bool}

/-- An operation is one of the store or leaves the store as it is. -/
theorem exec_store_or_same {pid : Nat} {c : Cmd} {w w' : World} {r : c.Reply}
    (h : exec E pid c w r w') :
    (∃ (o : StoreOp) (reply : o.Reply), (⟨c, r⟩ : (c : Cmd) × c.Reply) = ⟨.store o, reply⟩ ∧
      E.serves o w.db reply w'.db) ∨ (∀ o, c ≠ .store o) ∧ w'.db = w.db := by
  cases c with
  | store o => exact Or.inl ⟨o, r, rfl, h.1⟩
  | _ => exact Or.inr ⟨by simp, exec_db h (by simp)⟩

/-- A lost reply leaves the typed records as they were, or as the operation leaves them. -/
theorem represents_serves {o : StoreOp} {a : TypedStore} {db db' : Db} {r : o.Reply}
    (h : Represents E.type E.m a db) (fits : o.Suits) (served : E.serves o db r db') :
    ∃ a', Represents E.type E.m a' db' := by
  rcases served with ⟨freed, -, answered⟩ | ⟨-, -, rfl | rfl⟩
  · have after : db' = (o.run E.type (E.m.finding freed) db).2 := congrArg Prod.snd answered
    rw [after, StoreOp.run_finding_snd]
    exact ⟨_, h.run fits⟩
  · exact ⟨a, h⟩
  · exact ⟨_, h.run fits⟩

/-- The records are of their kinds, and whatever a thread does next to the store finds a
record of the kind it expects. -/
structure KindsKept (E : Env) (p : Pool Cmd Cmd.Reply Exn Unit Started World) : Prop where
  typed : ∃ a, Represents E.type E.m a p.world.db
  finds : ∀ t ∈ p.threads, ∀ (o : StoreOp) (k : o.Reply → UserM Unit), t.2 = .op (.store o) k →
    o.FindsKind (p.world.db o.key.text)

/-- Over a store that may lose commands and replies, every record of `user_map` is of the
kind of its key in every interleaving, and no operation meets a record of another kind. -/
theorem store_stays_typed {w : World} (start : ∃ a, Represents E.type E.m a w.db)
    {p : Pool Cmd Cmd.Reply Exn Unit Started World}
    (reach : (sharedSystem cfg doubles F save E).Reach w p) : KindsKept E p := by
  have suits (s : Started) : ((sharedSystem cfg doubles F save E).start s).Every Cmd.Suits :=
    suits_start cfg doubles F save s.task
  have typed : ∃ a, Represents E.type E.m a p.world.db := by
    apply reach.invariant suits (I := fun w => ∃ a, Represents E.type E.m a w.db)
    · rintro i s c u r v fits ⟨a, typed⟩ done
      rcases exec_store_or_same done with ⟨o, reply, same, served⟩ | ⟨-, same⟩
      · obtain ⟨rfl, -⟩ := Sigma.mk.inj same
        exact represents_serves typed fits served
      · exact ⟨a, by rwa [same]⟩
    · rintro u v ⟨a, typed⟩ moved
      exact ⟨a, by rwa [moved]⟩
    · exact start
  refine ⟨typed, fun t mem o k next => ?_⟩
  obtain ⟨a, represents⟩ := typed
  have pending := reach.pending suits t mem
  rw [next] at pending
  exact represents.finds pending.1

end

/-! ## A store that answers nobody -/

def lossyTair : Env := ⟨.tair, Machine.plain, Pg.any, True, Untouched⟩

def around : (c : Cmd) → World → Option (c.Reply × World) :=
  answer lossyTair (fun _ _ => some (decimal 7)) (fun _ _ => []) 0

/-- Every command arrives, every reply is lost. -/
def unheard : (c : Cmd) → World → Option (c.Reply × World)
  | .store o, w => some (o.failed, { w with db := (o.run .tair Machine.plain w.db).2 })
  | c, w => around c w

theorem exec_unheard (c : Cmd) (w : World) (r : c.Reply × World) (h : unheard c w = some r) :
    exec lossyTair 0 c w r.1 r.2 := by
  have others (h : around c w = some r) : exec lossyTair 0 c w r.1 r.2 :=
    exec_answer rfl (fun _ _ _ _ => trivial) (fun _ _ => trivial) c w r h
  cases c with
  | store o =>
    obtain rfl := Option.some.inj h
    exact ⟨Or.inr ⟨trivial, rfl, Or.inr rfl⟩, rfl⟩
  | _ => exact others h

def taskOf (pid : Nat) (mac : UInt64) : Started := ⟨pid, .entry (.userAdd mac 1 2 3 2)⟩

/-- The sighting is counted, although its process never hears of it. -/
theorem store_stays_typed_unheard :
    ∃ p, (sharedSystem firstDay Machine.plain.doubles .plain true lossyTair).Reach secondMinute p ∧
      counterAt (p.world.db (Key.logCounter 2 (getDateTimeStr utcFirstDay 60 10)).text) = some 1 ∧
      KindsKept lossyTair p := by
  let S := sharedSystem firstDay Machine.plain.doubles .plain true lossyTair
  have counted : ((S.start (taskOf 0 5)).eval unheard secondMinute).map (fun r =>
      counterAt (r.2.db (Key.logCounter 2 (getDateTimeStr utcFirstDay 60 10)).text)) =
        some (some 1) := by
    decide +kernel
  obtain ⟨r, run, number⟩ := Option.map_eq_some_iff.mp counted
  have spawned := (System.Reach.start (S := S) (w := secondMinute)).spawn (taskOf 0 5)
  have reach := spawned.alone (i := 0) rfl (Prog.runs_eval _ exec_unheard run)
  exact ⟨_, reach, number, store_stays_typed (E := lossyTair) ⟨_, represents_empty⟩ reach⟩

/-! ## The record of a run -/

/-- What an entry of the record does to the typed records. -/
def effectOf : Entry → Option TypedOp
  | (_, ⟨.store o, _⟩) => o.effect
  | _ => none

def effects (record : List Entry) : List TypedOp := record.filterMap effectOf

/-- The value that was set last. -/
def lastSet (k : Key) (record : List Entry) : Option Typed :=
  ((effects record).filterMap (Records.Op.valueFor k)).getLast?

/-- The score that a member was given last. -/
def lastRank (k : Key) (x : Text) (record : List Entry) : Option Rat :=
  ((effects record).filterMap (Records.Op.scoreFor k x)).getLast?

/-- The value that a label was given last. -/
def lastLabel (k : Key) (f : Text) (record : List Entry) : Option Text :=
  ((effects record).filterMap (Records.Op.fieldFor k f)).getLast?

/-- The numbers that were added to a counter. -/
def amounts (k : Key) (record : List Entry) : List Int :=
  (effects record).filterMap (Records.Op.countFor k)

/-- The store holds what the operations of the record have left, as far as every text
arrives. -/
structure Tells (type : TypeDb) (m : Machine) (record : List Entry) (db : Db) : Prop where
  value : ∀ (k : Key) (τ : Ty), k.kind = some (.value τ) →
    db k.text = (lastSet k record).map (encoded type m)
  counter : ∀ k : Key, k.kind = some .counter →
    counterAt (db k.text) = some (Records.tally (HasRoom type) 0 (amounts k record))
  member : ∀ k : Key, k.kind = some .members → ∃ s, setAt (db k.text) = some s ∧
    ∀ y, y ∈ s ↔ ∃ x, .add k x ∈ effects record ∧ CBaseMdb.storedWord type x = y
  score : ∀ k : Key, k.kind = some .scores → ∃ z, zsetAt (db k.text) = some z ∧
    ∀ x, z.lookup (CBaseMdb.storedWord type x) = lastRank k x record

/-- The labels too. -/
structure TellsAll (type : TypeDb) (m : Machine) (record : List Entry) (db : Db) : Prop
    extends Tells type m record db where
  label : ∀ k : Key, k.kind = some .labels → ∃ h, hashAt (db k.text) = some h ∧
    ∀ f, h.lookup (CBaseMdb.storedWord type f) =
      (lastLabel k f record).map (CBaseMdb.storedWord type)

/-- What the operations of the record leave in an empty store. -/
def leftBy (type : TypeDb) (record : List Entry) : TypedStore :=
  Records.Store.empty.run (HasRoom type) (effects record)

theorem Represents.tells {type : TypeDb} {m : Machine} {record : List Entry} {db : Db}
    (h : Represents type m (leftBy type record) db) : Tells type m record db where
  value k τ kind := by
    obtain ⟨stored, -⟩ := h k _ kind
    rw [stored, leftBy, Records.value_run]
    exact congrArg _ Option.or_none
  counter k kind := by
    obtain ⟨shown, -⟩ := h k _ kind
    rw [shown, leftBy, Records.counter_run]
    rfl
  member k kind := by
    obtain ⟨s, here, same⟩ := h k _ kind
    refine ⟨s, here, fun y => ?_⟩
    rw [same]
    simp only [leftBy, Records.mem_run, Records.Store.empty, Set.mem_empty_iff_false, or_false]
  score k kind := by
    obtain ⟨z, here, same⟩ := h k _ kind
    refine ⟨z, here, fun x => ?_⟩
    rw [same, leftBy, Records.score_run]
    exact Option.or_none

theorem StandsFor.tellsAll {type : TypeDb} {m : Machine} {record : List Entry} {db : Db}
    (h : StandsFor type m (leftBy type record) db) : TellsAll type m record db where
  toTells := Represents.tells h.records
  label k kind := by
    obtain ⟨fields, here, same⟩ := h.labels k kind
    refine ⟨fields, here, fun f => ?_⟩
    rw [same, leftBy, Records.field_run]
    exact congrArg _ Option.or_none

section
variable {E : Env} {cfg : Config} {doubles : Doubles} {F : Floats} {save : Bool}

theorem effectOf_other {i : Nat} {c : Cmd} {r : c.Reply} (other : ∀ o, c ≠ .store o) :
    effectOf (i, ⟨c, r⟩) = none := by
  cases c with
  | store o => exact absurd rfl (other o)
  | _ => rfl

theorem effects_append (record : List Entry) (e : Entry) :
    effects (record ++ [e]) = effects record ++ (effectOf e).toList := by
  rw [effects, List.filterMap_append, ← effects, Records.filterMap_cons_toList, List.filterMap_nil,
    List.append_nil]

theorem leftBy_append (type : TypeDb) (record : List Entry) (e : Entry) :
    leftBy type (record ++ [e]) = (leftBy type record).run (HasRoom type) (effectOf e).toList := by
  rw [leftBy, effects_append, Records.run_append, ← leftBy]

/-- What every operation on the store keeps, in step with the typed records, is kept with
the record. -/
theorem leftBy_exec {T : TypedStore → Db → Prop} (answered : ¬E.lossy) {i pid : Nat} {c : Cmd}
    {w w' : World} {r : c.Reply} {record : List Entry} (here : T (leftBy E.type record) w.db)
    (step : ∀ o, c = .store o →
      T (typedAfter E.type (leftBy E.type record) o) (o.run E.type E.m w.db).2)
    (done : exec E pid c w r w') :
    T (leftBy E.type (record ++ [(i, ⟨c, r⟩)])) w'.db := by
  rw [leftBy_append]
  rcases exec_store_or_same done with ⟨o, reply, same, served⟩ | ⟨other, same⟩
  · obtain ⟨rfl, -⟩ := Sigma.mk.inj same
    rw [E.answered_db answered served]
    exact step o rfl
  · rw [effectOf_other other, same]
    exact here

/-- A world, with a record of what the threads have done in it. -/
abbrev WorldRecord := World × List Entry

theorem reach_represents (answered : ¬E.lossy) {w : World} (fresh : w.db = Db.empty)
    {p : Pool Cmd Cmd.Reply Exn Unit Started WorldRecord}
    (reach : (sharedSystem cfg doubles F save E).traced.Reach (w, []) p) :
    Represents E.type E.m (leftBy E.type p.world.2) p.world.1.db := by
  apply reach.invariant (φ := Cmd.Suits) (I := fun u =>
    Represents E.type E.m (leftBy E.type u.2) u.1.db)
  · exact fun s => suits_start cfg doubles F save s.task
  · rintro i s c u r v fits typed ⟨done, recorded⟩
    rw [recorded]
    refine leftBy_exec (T := Represents E.type E.m) answered typed ?_ done
    rintro o rfl
    exact typed.run fits
  · rintro u v typed ⟨moved, recorded⟩
    rw [recorded, moved]
    exact typed
  · rw [fresh]
    exact represents_empty

end

/-! ## Connections -/

/-- A task whose tag, if it has one, is a word. -/
abbrev WordedTask := { s : Started // s.task.Worded }

section
variable (cfg : Config) (doubles : Doubles) (F : Floats) (user_tag_save_on_tair : Bool)

/-- The tasks over the connections of their processes, with a record of what is done over
sound ones. -/
def heardSystem (E : Env) : System Cmd Cmd.Reply Exn Unit WordedTask Recorded where
  start s := s.1.task.start cfg doubles F user_tag_save_on_tair
  exec i s c u r v := linked E s.1.pid c u.1 r v.1 ∧
    v.2 = if u.1.err s.1.pid then u.2 else u.2 ++ [(i, ⟨c, r⟩)]
  drift u v := v.1.world.db = u.1.world.db ∧ v.1.err = u.1.err ∧ v.2 = u.2

end

section
variable {E : Env} {cfg : Config} {doubles : Doubles} {F : Floats} {save : Bool}

/-- In every interleaving of all tasks over a store that answers, each value is the one
that was set last, each counter has counted every number, each set has the members that
were added, and each member the score and each label the value it was given last: by the
operations that went over sound connections. -/
theorem store_tells_record (answered : ¬E.lossy) {v : Linked} (fresh : v.world.db = Db.empty)
    {p : Pool Cmd Cmd.Reply Exn Unit WordedTask Recorded}
    (reach : (heardSystem cfg doubles F save E).Reach (v, []) p) :
    TellsAll E.type E.m p.world.2 p.world.1.world.db := by
  have kept : StandsFor E.type E.m (leftBy E.type p.world.2) p.world.1.world.db := by
    apply reach.invariant (φ := Cmd.Conforms) (I := fun u =>
      StandsFor E.type E.m (leftBy E.type u.2) u.1.world.db)
    · exact fun s => conforming_start cfg doubles F save s.2
    · rintro i s c u r v fits stands ⟨done, recorded⟩
      cases dead : u.1.err s.1.pid with
      | false =>
        simp only [dead, Bool.false_eq_true, if_false] at recorded
        rw [recorded]
        refine leftBy_exec (T := StandsFor E.type E.m) answered stands ?_ ((linked_sound dead).mp done).1
        rintro o rfl
        exact stands.run fits
      | true =>
        simp only [dead, if_true] at recorded
        rw [recorded, linked_dead_db dead done]
        exact stands
    · rintro u v stands ⟨moved, -, recorded⟩
      rw [recorded, moved]
      exact stands
    · rw [fresh]
      exact standsFor_empty
  exact StandsFor.tellsAll kept

end

/-! ## A connection is lost -/

def heardPlain : System Cmd Cmd.Reply Exn Unit WordedTask Recorded :=
  heardSystem firstDay Machine.plain.doubles .plain true (plainEnv .redis)

/-- Every command of a sound connection is answered; the user of any MAC is 7. -/
def heardAnswer (i : Nat) (s : WordedTask) (c : Cmd) (u : Recorded) : Option (c.Reply × Recorded) :=
  let answers := answer (plainEnv .redis) (fun _ _ => some (decimal 7)) (fun _ _ => []) s.1.pid
  (linkedAnswer (plainEnv .redis) answers s.1.pid c u.1).map fun r =>
    (r.1, (r.2, if u.1.err s.1.pid then u.2 else u.2 ++ [(i, ⟨c, r.1⟩)]))

theorem exec_heardAnswer (i : Nat) (s : WordedTask) (c : Cmd) (u : Recorded) (r : c.Reply × Recorded)
    (h : heardAnswer i s c u = some r) : heardPlain.exec i s c u r.1 r.2 := by
  obtain ⟨q, answered, rfl⟩ := Option.map_eq_some_iff.mp h
  exact ⟨linked_answer (exec_answer rfl (fun _ _ _ _ => trivial) (fun _ _ => trivial)) c u.1 q answered,
    rfl⟩

theorem isWord_vip : IsWord "vip".toList where
  ne_nil := by decide
  plain := by simp [nul]

/-- Process 0 sees the MAC 5 at a reading that hiredis does not take, and then 6; process 1
sees 6 and gives it a label. -/
def oneLost : List WordedTask :=
  [⟨taskOf 0 5, trivial⟩, ⟨taskOf 0 6, trivial⟩, ⟨taskOf 1 6, trivial⟩,
    ⟨⟨1, .entry (.userTagUpdate 6 "vip".toList 1)⟩, isWord_vip⟩]

/-- The second sighting is counted nowhere, the others and the label are there. -/
theorem store_tells_record_one_lost :
    ∃ p, heardPlain.Reach (.sound (World.fresh (fun _ => none) [21285, 21286, 21287]), []) p ∧
      amounts (.logCounter 2 (getDateTimeStr utcFirstDay 21285 10)) p.world.2 = [1, 1] ∧
      lastLabel (.userLabelSet 7) "vip".toList p.world.2 = some "1".toList ∧
      TellsAll .redis Machine.plain p.world.2 p.world.1.world.db := by
  let v : Linked := .sound (World.fresh (fun _ => none) [21285, 21286, 21287])
  have counted : (heardPlain.oneByOne heardAnswer 0 oneLost (v, [])).map (fun w =>
      (amounts (.logCounter 2 (getDateTimeStr utcFirstDay 21285 10)) w.2,
        lastLabel (.userLabelSet 7) "vip".toList w.2)) = some ([1, 1], some "1".toList) := by
    decide +kernel
  obtain ⟨w, run, same⟩ := Option.map_eq_some_iff.mp counted
  obtain ⟨numbers, label⟩ := Prod.mk.inj same
  obtain ⟨p, reach, rfl, -⟩ := System.Reach.start.oneByOne (fun i s _ => exec_heardAnswer i s) run
  exact ⟨p, reach, numbers, label,
    store_tells_record (E := plainEnv .redis) not_false (v := v) rfl reach⟩

end UserMap

end SimpleDsp
