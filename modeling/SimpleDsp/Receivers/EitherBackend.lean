import SimpleDsp.Lib.Lockstep
import SimpleDsp.Receivers.SharedStore

/-!
# Either backend

`type_db` says whether the records are kept in Redis or in Tair. The two reply
differently to writes, but only `user_add` looks at such a reply: it takes what counting
up returns for the id of the log entry.

* `Alike`: two worlds that differ in how the records are kept;
* `exec_alike`: an operation that overflows no `int` leaves them alike;
* `backends_in_step`: in any interleaving of the other tasks, over a store that may lose
  replies, the one backend may take the place of the other.
-/

namespace SimpleDsp

open DecimalText Programs

namespace UserMap

/-! ## One operation -/

/-- An increment does not leave the range of an `int`. -/
def Cmd.Small : Cmd → World → Prop
  | .store (.incr k integer), w =>
    ∀ c ∈ counterAt (w.db k.text), HasRoom .tair (c + integer.toInt)
  | _, _ => True

instance (c : Cmd) (w : World) : Decidable (c.Small w) :=
  match c with
  | .store (.incr ..) => inferInstanceAs (Decidable (∀ _ ∈ _, _))
  | .store (.set ..) | .store (.get ..) | .store (.zadd ..) | .store (.sadd ..)
  | .store (.hset ..) | .store (.zrangebyscore ..) | .time | .addUser _ | .queryUserId _ | .addUserLocation ..
  | .apmacGetShopid _ | .macIsVip .. | .lastDateTime _ | .setLastDateTime .. | .init | .lock
  | .unlock => inferInstanceAs (Decidable True)

/-- The replies that differ. -/
def Cmd.Unread : Cmd → Prop
  | .store (.get τ _ _) => τ.integral = false
  | .store _ => True
  | _ => False

/-- Two worlds of which the stores stand for the same typed records and labels. -/
structure Alike (m : Machine) (type type' : TypeDb) (w v : World) : Prop where
  records : ∃ a, StandsFor type m a w.db ∧ StandsFor type' m a v.db
  around : v = { w with db := v.db }

theorem Alike.of_fresh {m : Machine} {type type' : TypeDb} {w : World} (fresh : w.db = Db.empty) :
    Alike m type type' w w where
  records := ⟨.empty, by rw [fresh]; exact standsFor_empty, by rw [fresh]; exact standsFor_empty⟩
  around := rfl

theorem Alike.counter {m : Machine} {type type' : TypeDb} {w v : World}
    (h : Alike m type type' w v) {k : Key} (kind : k.kind = some .counter) :
    counterAt (v.db k.text) = counterAt (w.db k.text) := by
  obtain ⟨a, typed, typed'⟩ := h.records
  exact (typed'.records k .counter kind).1.trans (typed.records k .counter kind).1.symm

section
variable {m : Machine} {type type' : TypeDb} {a : TypedStore} {db db' : Db}

theorem hasRoom_of_tair {n : Int} (h : HasRoom .tair n) : HasRoom type n := by
  have inside : -2 ^ 31 ≤ n ∧ n < 2 ^ 31 := h
  cases type with
  | redis => exact ⟨by omega, by omega⟩
  | tair => exact h

/-- With room on both, the backends count alike. -/
theorem typedAfter_alike {o : StoreOp}
    (small : ∀ k integer, o = .incr k integer → HasRoom .tair (a.counter k + integer.toInt)) :
    typedAfter type a o = typedAfter type' a o := by
  have counts (type : TypeDb) (k : Key) (integer : Int32) (same : o = .incr k integer) :
      Records.countUp (HasRoom type) (a.counter k) integer.toInt = a.counter k + integer.toInt :=
    if_pos (hasRoom_of_tair (small k integer same))
  cases o with
  | incr k integer =>
    change a.act (HasRoom type) (.count k integer.toInt) = a.act (HasRoom type') (.count k integer.toInt)
    simp only [Records.Store.act]
    rw [counts type k integer rfl, counts type' k integer rfl]
  | zadd k score v =>
    simp only [typedAfter, StoreOp.effect]
    split <;> rfl
  | _ => rfl

/-- What is read of an integer is the same. -/
theorem get_alike {τ : Ty} {k : Key} {d : τ.Val} (h : Represents type m a db)
    (h' : Represents type' m a db') (fits : (StoreOp.get τ k d).Suits)
    (integral : τ.integral = true) :
    ((StoreOp.get τ k d).run type' m db').1 = ((StoreOp.get τ k d).run type m db).1 := by
  obtain ⟨x, here, read⟩ := h.get fits integral
  obtain ⟨y, there, read'⟩ := h'.get fits integral
  have same : x = y := by
    rw [here] at there
    have inj : Function.Injective (fun v : τ.Val => (⟨τ, v⟩ : Typed)) :=
      fun _ _ e => eq_of_heq (Sigma.mk.inj e).2
    exact Option.map_injective inj there
  rw [read, read', same]

/-- Whatever the freed replies hold. -/
theorem reply_alike {o : StoreOp} (h : Represents type m a db) (h' : Represents type' m a db')
    (fits : o.Suits) (freed : Int → Int32) :
    (o.run type' (m.finding freed) db').1 = (o.run type (m.finding freed) db).1 ∨
      Cmd.Unread (.store o) := by
  cases o with
  | get τ k d =>
    cases integral : τ.integral with
    | false => exact Or.inr integral
    | true =>
      have copied (type : TypeDb) : (StoreOp.get τ k d).Copied type := trivial
      left
      rw [StoreOp.run_finding_of_copied (copied _), StoreOp.run_finding_of_copied (copied _)]
      exact get_alike h h' fits integral
  | _ => exact Or.inr trivial

end

section
variable {E : Env} {type' : TypeDb} {pid : Nat}

/-- The surroundings with the other backend. -/
def Env.withType (E : Env) (type : TypeDb) : Env := { E with type := type }

theorem serves_alike {o : StoreOp} {a : TypedStore} {db db' next : Db} {r : o.Reply}
    (h : StandsFor E.type E.m a db) (h' : StandsFor type' E.m a db') (fits : o.Conforms)
    (small : ∀ k integer, o = .incr k integer → HasRoom .tair (a.counter k + integer.toInt))
    (served : E.serves o db r next) :
    ∃ r' next', (E.withType type').serves o db' r' next' ∧
      (∃ a', StandsFor E.type E.m a' next ∧ StandsFor type' E.m a' next') ∧
      (r' = r ∨ Cmd.Unread (.store o)) := by
  have after := h.run fits
  have after' := h'.run fits
  have same : typedAfter type' a o = typedAfter E.type a o := typedAfter_alike small
  rw [same] at after'
  rcases served with ⟨freed, own, answered⟩ | ⟨lossy, rfl, rfl | rfl⟩
  · have replied : r = (o.run E.type (E.m.finding freed) db).1 := congrArg Prod.fst answered
    have left : next = (o.run E.type (E.m.finding freed) db).2 := congrArg Prod.snd answered
    rw [StoreOp.run_finding_snd] at left
    subst replied left
    let twin := o.run type' (E.m.finding freed) db'
    have left' : twin.2 = (o.run type' E.m db').2 := StoreOp.run_finding_snd o freed db'
    exact ⟨twin.1, twin.2, Or.inl ⟨freed, own, rfl⟩, ⟨_, after, left' ▸ after'⟩,
      reply_alike h.records h'.records fits.1 freed⟩
  · exact ⟨_, db', Or.inr ⟨lossy, rfl, Or.inl rfl⟩, ⟨a, h, h'⟩, Or.inl rfl⟩
  · exact ⟨_, _, Or.inr ⟨lossy, rfl, Or.inr rfl⟩, ⟨_, after, after'⟩, Or.inl rfl⟩

/-- What is not done to the store does not depend on it. -/
theorem exec_around {c : Cmd} {w w' : World} {r : c.Reply} (other : ∀ o, c ≠ .store o)
    (h : exec E pid c w r w') (db : Db) :
    exec (E.withType type') pid c { w with db := db } r { w' with db := db } := by
  cases c with
  | store o => exact absurd rfl (other o)
  | time =>
    obtain ⟨clock, rest⟩ := h
    refine ⟨clock, ?_⟩
    rw [rest]
  | addUser mac =>
    obtain ⟨printed, rest⟩ := h
    refine ⟨printed, ?_⟩
    rw [rest]
  | queryUserId user_id => exact ⟨h.1, by rw [h.2]⟩
  | addUserLocation | apmacGetShopid | macIsVip =>
    obtain rfl : w' = w := h
    exact rfl
  | lastDateTime mall_id => exact ⟨h.1, by rw [h.2]⟩
  | setLastDateTime mall_id s =>
    obtain rfl := h
    exact rfl
  | init =>
    simp only [exec] at h ⊢
    split at h
    · rename_i started
      rw [if_pos started]
      exact ⟨h.1, by rw [h.2]⟩
    · rename_i waiting
      rw [if_neg waiting]
      rcases h with ⟨ok, rfl⟩ | ⟨failed, rfl | rfl⟩
      · exact Or.inl ⟨ok, rfl⟩
      · exact Or.inr ⟨failed, Or.inl rfl⟩
      · exact Or.inr ⟨failed, Or.inr rfl⟩
  | lock =>
    obtain ⟨free, rfl⟩ := h
    exact ⟨free, rfl⟩
  | unlock =>
    obtain rfl := h
    exact rfl

/-- An operation in the one world has its like in the other. -/
theorem exec_alike : Mimics (fun c w r w' => exec E pid c w r w' ∧ c.Small w)
    (exec (E.withType type') pid) (Alike E.m E.type type') Cmd.Conforms Cmd.Unread := by
  rintro c w v r w' fits ⟨⟨a, typed, typed'⟩, around⟩ ⟨done, small⟩
  rcases exec_store_or_same done with ⟨o, reply, same, served⟩ | ⟨other, same⟩
  · obtain ⟨rfl, replied⟩ := Sigma.mk.inj same
    obtain rfl := eq_of_heq replied
    have room : ∀ k integer, o = .incr k integer → HasRoom .tair (a.counter k + integer.toInt) := by
      rintro k integer rfl
      exact small _ (typed.records k .counter fits.1).1
    obtain ⟨r', next', served', again, unread⟩ := serves_alike typed typed' fits room served
    refine ⟨r', { v with db := next' }, ⟨served', rfl⟩, ⟨again, ?_⟩, unread⟩
    rw [done.2, around]
  · refine ⟨r, { w' with db := v.db }, ?_, ⟨⟨a, ?_, typed'⟩, rfl⟩, Or.inl rfl⟩
    · rw [around]
      exact exec_around other done v.db
    · rwa [same]

end

/-! ## What the tasks read -/

abbrev Heedless {α : Type} (p : UserM α) : Prop := p.Ignores Cmd.Unread

section
variable {k : Key} {cfg : Config}

theorem heedless_set {τ : Ty} {v : τ.Val} : Heedless (set τ k v) := Prog.ignores_then trivial

theorem heedless_zadd {t : Int64} {v : Text} : Heedless (zadd k t v) := Prog.ignores_then trivial

theorem heedless_get {τ : Ty} {d : τ.Val} (integral : τ.integral = true) : Heedless (get τ k d) :=
  Prog.ignores_op (by simp [Cmd.Unread, integral]) fun _ => trivial

theorem heedless_whenM {c : Prop} [Decidable c] {p : UserM Unit} (h : Heedless p) :
    Heedless (whenM c p) := by
  unfold whenM
  split
  · exact h
  · trivial

theorem heedless_liftExcept {α : Type} (x : Except Exn α) : Heedless (liftExcept x) := by
  cases x <;> trivial

theorem heedless_userMapInit : Heedless userMapInit := by
  apply Prog.ignores_op not_false
  intro ok
  cases ok <;> trivial

theorem heedless_runAddUser {mac : UInt64} (n : Nat) : Heedless (runAddUser mac n) := by
  induction n with
  | zero => trivial
  | succ n ih =>
    apply Prog.ignores_op not_false
    intro s_id
    simp only [Prog.bind]
    split
    · trivial
    · exact ih

theorem heedless_userGetId {mac : UInt64} : Heedless (userGetId mac) := by
  have asked : Heedless (userIdFromPg mac) := by
    apply (heedless_runAddUser 10).bind
    intro s_id
    have number : Heedless (if s_id ≠ [] then liftExcept (stoi s_id) else pure 0 : UserM Int32) := by
      split
      · exact heedless_liftExcept _
      · trivial
    apply number.bind
    intro user_id
    exact (heedless_whenM (heedless_set.bind fun _ => heedless_set)).bind fun _ => trivial
  apply Prog.ignores_op not_false
  intro _
  apply heedless_userMapInit.bind
  intro _
  apply (heedless_get rfl).bind
  intro cached
  have id : Heedless (if cached = 0 then userIdFromPg mac else pure cached : UserM Int32) := by
    split
    · exact asked
    · trivial
  exact id.bind fun _ => Prog.ignores_op not_false fun _ => trivial

theorem heedless_userGetMac {user_id : Int32} : Heedless (userGetMac user_id) := by
  have asked : Heedless (userMacFromPg user_id) := by
    apply Prog.ignores_op not_false
    intro s_mac
    simp only [Prog.bind]
    split
    · apply (heedless_liftExcept _).bind
      intro mac
      exact heedless_set.bind fun _ => heedless_set.bind fun _ => trivial
    · trivial
  apply heedless_userMapInit.bind
  intro _
  apply (heedless_get rfl).bind
  intro mac
  split
  · trivial
  · exact asked

theorem heedless_vipArriveTimeRecord {user_id mall_id : Int32} {t_pre t : Int64} :
    Heedless (vipArriveTimeRecord cfg user_id mall_id t_pre t) := by
  apply heedless_whenM
  have vip : Heedless
      (if cfg.check_vip = 0 then pure true else isMallVip user_id mall_id) := by
    split
    · trivial
    · exact (heedless_get rfl).bind fun _ => trivial
  exact vip.bind fun _ => heedless_whenM heedless_zadd

theorem heedless_apmacGetShopid {mac : UInt64} : Heedless (apmacGetShopid mac) :=
  heedless_userMapInit.bind fun _ => Prog.ignores_op not_false fun _ => trivial

theorem heedless_apmacSightings (macs : List UInt64) : Heedless (apmacSightings cfg macs) := by
  induction macs with
  | nil => trivial
  | cons mac macs ih =>
    have sighting : Heedless (apmacSighting cfg mac) := by
      apply Prog.ignores_op not_false
      intro now
      apply heedless_set.bind
      intro _
      apply heedless_zadd.bind
      intro _
      apply heedless_userGetId.bind
      intro user_id
      exact (heedless_get rfl).bind fun _ => heedless_vipArriveTimeRecord
    exact sighting.bind fun _ => ih

/-- What counting up returns is thrown away. -/
theorem heedless_shopUserDurationAdd {mall_id shop_id user_id : Int32} {date : Stamp}
    {interval : Int32} :
    Heedless (shopUserDurationAdd cfg mall_id shop_id user_id date interval) :=
  Prog.ignores_then (Prog.ignores_then (Prog.ignores_then trivial))

theorem heedless_recordInShop {shop_id user_id : Int32} {mac : UInt64} {now : Int64}
    {is_vip : Bool} : Heedless (recordInShop cfg shop_id user_id mac now is_vip) := by
  have last : Heedless (getUserLocationTime 2 shop_id mac) :=
    heedless_userMapInit.bind fun _ => heedless_get rfl
  have times : Heedless (updateUserLocationTime cfg 2 shop_id mac now) :=
    heedless_userMapInit.bind fun _ => heedless_set.bind fun _ => heedless_zadd
  have arrive (last_time : Int64) :
      Heedless (updateUserArriveTime cfg 2 shop_id user_id last_time now is_vip) :=
    heedless_userMapInit.bind fun _ => heedless_whenM heedless_zadd
  apply last.bind
  intro last_time
  apply times.bind
  intro _
  apply heedless_shopUserDurationAdd.bind
  intro _
  exact (arrive last_time).bind fun _ => heedless_set

theorem heedless_apmacCloserSightings {shop_id : Int32} {now : Int64}
    (entries : List (Text × UInt64)) : Heedless (apmacCloserSightings cfg shop_id now entries) := by
  induction entries with
  | nil => trivial
  | cons entry entries ih =>
    have vip : Heedless (macIsVip entry.1 shop_id) :=
      heedless_userMapInit.bind fun _ => Prog.ignores_op not_false fun _ => trivial
    have sighting : Heedless (apmacCloserSighting cfg shop_id now entry) :=
      vip.bind fun _ => heedless_userGetId.bind fun _ => heedless_whenM heedless_recordInShop
    exact sighting.bind fun _ => ih

end

/-! ## All tasks but one -/

/-- The log id of a sighting is what counting up returns, and that differs. -/
def Task.Unlogged : Task → Prop
  | .entry (.userAdd ..) => False
  | _ => True

abbrev UnloggedTask := { s : Started // s.task.Unlogged ∧ s.task.Worded }

section
variable (cfg : Config) (doubles : Doubles) (F : Floats) (user_tag_save_on_tair : Bool)

theorem heedless_start {task : Task} (unlogged : task.Unlogged) :
    Heedless (task.start cfg doubles F user_tag_save_on_tair) := by
  cases task with
  | entry call =>
    cases call with
    | userAdd => exact unlogged.elim
    | apmacMsg => exact heedless_apmacGetShopid.bind fun _ => heedless_apmacSightings _
    | apmacCloserMsg =>
      apply heedless_apmacGetShopid.bind
      intro _
      exact Prog.ignores_op not_false fun _ => heedless_apmacCloserSightings _
    | userTagUpdate mac user_tag user_value =>
      simp only [Task.start, EntryCall.start, userTagUpdate, Prog.bind_assoc]
      apply heedless_userMapInit.bind
      intro _
      split
      · rw [Prog.bind_assoc]
        exact heedless_userGetId.bind fun _ => Prog.ignores_then trivial
      · trivial
  | query mac mall_id =>
    simp only [Task.start, userQuery, Prog.bind_assoc]
    apply heedless_userMapInit.bind
    intro _
    -- The position goes to whoever asked, the store never sees it.
    exact ⟨fun _ _ _ => rfl, fun _ => ⟨fun _ _ _ => rfl, fun _ => ⟨fun _ _ _ => rfl, fun _ => trivial⟩⟩⟩
  | getId => exact heedless_userGetId.bind fun _ => trivial
  | getMac => exact heedless_userGetMac.bind fun _ => trivial

/-- The tasks over one backend, as long as no counter leaves the range of an `int`. -/
def unloggedSystem (E : Env) : System Cmd Cmd.Reply Exn Unit UnloggedTask World where
  start s := s.1.task.start cfg doubles F user_tag_save_on_tair
  exec _ s c w r w' := exec E s.1.pid c w r w' ∧ c.Small w
  drift w w' := w'.db = w.db

end

section
variable {E : Env} {type' : TypeDb} {cfg : Config} {doubles : Doubles} {F : Floats} {save : Bool}

theorem small_alike {c : Cmd} {w v : World} (alike : Alike E.m E.type type' w v)
    (fits : c.Conforms) (small : c.Small w) : c.Small v := by
  cases c with
  | store o =>
    cases o with
    | incr k integer =>
      obtain ⟨a, typed, typed'⟩ := alike.records
      intro c here
      obtain rfl := Option.some.inj (here.symm.trans (typed'.records k .counter fits.1).1)
      exact small _ (typed.records k .counter fits.1).1
    | _ => trivial
  | _ => trivial

/-- In every interleaving the other backend may take the place of the first: each thread
goes the same way, and the stores stand for the same typed records and labels all the
time. -/
theorem backends_in_step {w v : World} (alike : Alike E.m E.type type' w v)
    {p : Pool Cmd Cmd.Reply Exn Unit UnloggedTask World}
    (reach : (unloggedSystem cfg doubles F save E).Reach w p) :
    ∃ v', (unloggedSystem cfg doubles F save (E.withType type')).Reach v ⟨v', p.threads⟩ ∧
      Alike E.m E.type type' p.world v' := by
  have twins : (unloggedSystem cfg doubles F save E).Twins
      (unloggedSystem cfg doubles F save (E.withType type')) (Alike E.m E.type type') Cmd.Conforms
        Cmd.Unread := by
    constructor
    case start => exact fun _ => rfl
    case every => exact fun s => conforming_start cfg doubles F save s.2.2
    case ignores => exact fun s => heedless_start cfg doubles F save s.2.1
    case exec =>
      intro i s c w v r w' fits alike done
      obtain ⟨r', v', matched, again⟩ := exec_alike c w v r w' fits alike done
      exact ⟨r', v', ⟨matched, small_alike alike fits done.2⟩, again⟩
    case drift =>
      rintro w v w' ⟨⟨a, typed, typed'⟩, around⟩ moved
      exact ⟨{ w' with db := v.db }, rfl, ⟨a, by rwa [moved], typed'⟩, rfl⟩
  exact twins.reach alike reach

end

/-! ## A message over either backend -/

def answerSmall (c : Cmd) (w : World) : Option (c.Reply × World) :=
  if c.Small w then answerNine c w else none

theorem exec_answerSmall (c : Cmd) (w : World) (r : c.Reply × World) (h : answerSmall c w = some r) :
    exec fullEnv 0 c w r.1 r.2 ∧ c.Small w := by
  obtain ⟨small, answered⟩ := Option.ite_none_right_eq_some.mp h
  exact ⟨(exec_answerNine c w r answered).1, small⟩

/-- The mall has 120 seconds on Redis, so it may have them on Tair. -/
theorem backends_in_step_message : ∃ p : Pool Cmd Cmd.Reply Exn Unit UnloggedTask World,
    (unloggedSystem firstDay Machine.plain.doubles .plain true (fullEnv.withType .tair)).Reach
      (World.fresh oneUser [300]) p ∧
        counterAt (p.world.db (Key.mallDuration (getDateStr utcFirstDay 300) 2).text) = some 120 := by
  let S := unloggedSystem firstDay Machine.plain.doubles .plain true fullEnv
  let task : UnloggedTask :=
    ⟨⟨0, .entry (.apmacCloserMsg (fun _ => 0) (fun _ _ => 0) closerOfFive)⟩, trivial, trivial⟩
  have counted : ((S.start task).eval answerSmall (World.fresh oneUser [300])).map (fun r =>
      counterAt (r.2.db (Key.mallDuration (getDateStr utcFirstDay 300) 2).text)) =
        some (some 120) := by
    decide +kernel
  obtain ⟨r, run, number⟩ := Option.map_eq_some_iff.mp counted
  have spawned := (System.Reach.start (S := S) (w := World.fresh oneUser [300])).spawn task
  have reach := spawned.alone (i := 0) rfl (Prog.runs_eval _ exec_answerSmall run)
  have alike : Alike Machine.plain .redis .tair (World.fresh oneUser [300])
      (World.fresh oneUser [300]) := .of_fresh rfl
  obtain ⟨v', reach', still⟩ := backends_in_step (E := fullEnv) alike reach
  exact ⟨_, reach', (still.counter rfl).trans number⟩

end UserMap

end SimpleDsp
