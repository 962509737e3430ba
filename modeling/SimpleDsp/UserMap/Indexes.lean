import SimpleDsp.UserMap.Calls

/-!
# The location indexes

On Redis, after any calls of `user_add` that have returned: the seven families
of records that index the sightings of a mall agree with each other.

* `indexAfter`: the indexes as one function of the sightings, one call at a time;
* `call_indexAfter`: what a call does to the store is `indexAfter`;
* `Tracks`: each family as a view of the list of sightings made so far;
* `sliceAgrees_after`: when one call keeps the indexes of its slice in agreement;
* `location_indexes_agree`: when whole runs do.
-/

namespace SimpleDsp

open DecimalText Programs

namespace UserMap

open Prog (call)

/-! ## The indexes as a function -/

/-- The records this module is about. -/
def IsIndex : Key → Bool
  | .logCounter .. | .logMacSet .. | .logLocLogSet .. | .macSetDaily .. => true
  | .locationUpdateTime .. => true
  | .logEntry _ _ _ prop => prop = .mac
  | _ => false

abbrev Index := Key → Option Val

def indexOf (w : World) : Index := fun k => if IsIndex k then w.db k.text else none

def Index.modify (I : Index) (k : Key) (f : Option Val → Option Val) : Index :=
  Function.update I k (f (I k))

theorem Index.modify_apply (I : Index) (k : Key) (f : Option Val → Option Val) (k' : Key) :
    I.modify k f k' = if k' = k then f (I k') else I k' := by
  by_cases same : k' = k
  · subst same
    simp [Index.modify]
  · simp [Index.modify, same]

/-- What a sighting adds, when it draws the id `log_id` and leaves `counter`. -/
def indexAfter (cfg : Config) (mac : UInt64) (mall_id : Int32) (t : Int64) (log_id : Int32)
    (counter : Option Val) (I : Index) : Index :=
  (((((I.modify (.locationUpdateTime (dateOf cfg t.toInt) mall_id.toInt)
      (CBaseMdb.addScore (Key.macText mac) t.toInt)).modify
    (.logCounter mall_id.toInt (sliceOf cfg t.toInt)) fun _ => counter).modify
    (.logMacSet mall_id.toInt (sliceOf cfg t.toInt)) (CBaseMdb.addMember (Key.macText mac))).modify
    (.logLocLogSet mall_id.toInt (sliceOf cfg t.toInt) mac)
      (CBaseMdb.addScore (decimal log_id.toInt) t.toInt)).modify
    (.logEntry mall_id.toInt (sliceOf cfg t.toInt) log_id.toInt .mac)
      fun _ => some (.str (Key.macText mac))).modify
    (.macSetDaily (dateOf cfg t.toInt) mall_id.toInt) (CBaseMdb.addMember (Key.macText mac))

section
variable {E : Env} {cfg : Config} {pid : Nat}

def NotIndex (k : Key) : Prop := IsIndex k = false

theorem Unchanged.indexOf {w v : World} (h : Unchanged NotIndex w v) : indexOf v = indexOf w := by
  funext k
  unfold UserMap.indexOf
  split
  · rename_i index
    exact h.db k (by simp [NotIndex, index])
  · rfl

/-- A store operation on an index changes that index. -/
theorem indexOf_run {o : StoreOp} {w v : World} (index : IsIndex o.key = true)
    (hdb : v.db = (o.run E.type E.m w.db).2) :
    indexOf v = (indexOf w).modify o.key fun _ => (o.run E.type E.m w.db).2 o.key.text := by
  funext k
  by_cases same : k = o.key
  · subst same
    simp [indexOf, Index.modify, index, hdb]
  · simp [indexOf, Index.modify, same, hdb, StoreOp.run_frame same]

theorem indexOf_self {w : World} {k : Key} (index : IsIndex k = true) :
    indexOf w k = w.db k.text := if_pos index

section
variable (redis : E.type = .redis) (answered : ¬E.lossy) {β : Type} {f : Unit → UserM β}
  {Q : Except Exn β → World → Prop} {w : World}
include redis answered

theorem wp_sadd {k : Key} {x : Text} (index : IsIndex k = true) (word : IsWord x)
    (h : ∀ v, indexOf v = (indexOf w).modify k (CBaseMdb.addMember x) →
      (f ()).wp (exec E pid) Q v) : (sadd k x >>= f).wp (exec E pid) Q w := by
  apply wp_store answered
  intro _ _ v hdb
  apply h
  rw [indexOf_run (o := .sadd k x) index hdb, redis]
  simp only [Index.modify, StoreOp.run, StoreOp.key, CBaseMdb.redis_sadd word, indexOf_self index]

theorem wp_zadd {k : Key} {t : Int64} {x : Text} (index : IsIndex k = true) (word : IsWord x)
    (h : ∀ v, indexOf v = (indexOf w).modify k (CBaseMdb.addScore x t.toInt) →
      (f ()).wp (exec E pid) Q v) : (zadd k t x >>= f).wp (exec E pid) Q w := by
  apply wp_store answered
  intro _ _ v hdb
  apply h
  rw [indexOf_run (o := .zadd k t x) index hdb, redis]
  simp only [Index.modify, StoreOp.run, StoreOp.key, CBaseMdb.redis_zadd_word word,
    indexOf_self index]

theorem wp_setMac {k : Key} {mac : UInt64} (index : IsIndex k = true)
    (h : ∀ v, indexOf v = (indexOf w).modify k (fun _ => some (.str (Key.macText mac))) →
      (f ()).wp (exec E pid) Q v) : (set .ull k mac >>= f).wp (exec E pid) Q w := by
  apply wp_store answered
  intro _ _ v hdb
  apply h
  rw [indexOf_run (o := .set .ull k mac) index hdb, StoreOp.run_set (by decide), redis]
  simp only [StoreOp.key, Db.put_self]
  rfl

/-- A counter with the value `before` gives the next id, as the freed reply has it, and gets
the value `after`. -/
def NextId (m : Machine) (freed : Int → Int32) (before : Option Val) (log_id : Int32)
    (after : Option Val) : Prop :=
  ∀ n, CBaseMdb.Counted .redis before n →
    log_id = CBaseMdb.nthIncr .redis (m.finding freed) n ∧ CBaseMdb.Counted .redis after (n + 1)

theorem wp_draw {k : Key} {f : Int32 → UserM β} (index : IsIndex k = true)
    (h : ∀ v freed log_id after, E.freed freed → NextId E.m freed (indexOf w k) log_id after →
      indexOf v = (indexOf w).modify k (fun _ => after) → (f log_id).wp (exec E pid) Q v) :
    (incr k 1 >>= f).wp (exec E pid) Q w := by
  apply wp_store answered
  intro freed found v hdb
  have next : NextId E.m freed (indexOf w k)
      ((StoreOp.incr k 1).run E.type (E.m.finding freed) w.db).1
      (((StoreOp.incr k 1).run E.type E.m w.db).2 k.text) := by
    intro n hn
    rw [indexOf_self index] at hn
    rw [← StoreOp.run_finding_snd (m := E.m) _ freed, redis]
    exact CBaseMdb.incr_counted hn
  exact h v freed _ _ found next (indexOf_run (o := .incr k 1) index hdb)

end

/-- `v` has the indexes of `w` and the sighting in addition. -/
def Indexed (E : Env) (cfg : Config) (mac : UInt64) (mall_id : Int32) (t : Int64) (w v : World) :
    Prop :=
  ∃ freed log_id counter, E.freed freed ∧
    NextId E.m freed (indexOf w (.logCounter mall_id.toInt (sliceOf cfg t.toInt))) log_id counter ∧
    indexOf v = indexAfter cfg mac mall_id t log_id counter (indexOf w)

variable {mac : UInt64} {x y : Rat} {z mall_id : Int32} {t : Int64}

/-- The part of the indexes that comes after the id is drawn. -/
theorem wp_saveSighting (redis : E.type = .redis) (answered : ¬E.lossy) {log_id : Int32}
    {w : World} {Q : Except Exn Unit → World → Prop}
    (h : ∀ v, indexOf v = (((indexOf w).modify
        (.logMacSet mall_id.toInt (sliceOf cfg t.toInt)) (CBaseMdb.addMember (Key.macText mac))).modify
        (.logLocLogSet mall_id.toInt (sliceOf cfg t.toInt) mac)
          (CBaseMdb.addScore (decimal log_id.toInt) t.toInt)).modify
        (.logEntry mall_id.toInt (sliceOf cfg t.toInt) log_id.toInt .mac)
          (fun _ => some (.str (Key.macText mac))) → Q (.ok ()) v) :
    (saveSighting mac x y z mall_id t (sliceOf cfg t.toInt) log_id).wp (exec E pid) Q w := by
  intro _ w1 here
  obtain rfl : w1 = w := here
  simp only [Prog.bind]
  change (registerTimeSlice mall_id (sliceOf cfg t.toInt) t >>= fun _ =>
    indexSighting mac x y z mall_id t (sliceOf cfg t.toInt) log_id).wp (exec E pid) Q w1
  refine wp_quiet (S := NotIndex) (every_registerTimeSlice rfl)
    (fun _ => noThrow_whenM fun _ _ => trivial) (.refl _) fun _ w2 same => ?_
  apply wp_sadd redis answered rfl (Key.isWord_macText _)
  intro w3 macs
  apply wp_zadd redis answered rfl (isWord_decimal _)
  intro w4 ids
  apply wp_setMac redis answered rfl
  intro w5 entry
  have other {prop : LogProp} (ne : prop ≠ .mac) :
      NotIndex (.logEntry mall_id.toInt (sliceOf cfg t.toInt) log_id.toInt prop) :=
    decide_eq_false ne
  have rest : (do
      tairSetLogProp .time mall_id (sliceOf cfg t.toInt) log_id .time t
      tairSetLogProp .double mall_id (sliceOf cfg t.toInt) log_id .x x
      tairSetLogProp .double mall_id (sliceOf cfg t.toInt) log_id .y y
      whenM (z ≠ INT_MIN) (tairSetLogProp .int mall_id (sliceOf cfg t.toInt) log_id .z z) :
      UserM Unit).Every (Within NotIndex) := by
    apply (every_tairSetLogProp (other (by decide))).bind
    intro _
    apply (every_tairSetLogProp (other (by decide))).bind
    intro _
    apply (every_tairSetLogProp (other (by decide))).bind
    intro _
    exact every_whenM fun _ => every_tairSetLogProp (other (by decide))
  apply wp_quiet_end rest (fun _ _ _ => noThrow_whenM fun _ => trivial)
  intro _ w6 same'
  apply h
  rw [same'.indexOf, entry, ids, macs, same.indexOf]

theorem wp_creditUser (redis : E.type = .redis) (answered : ¬E.lossy) {t_pre : Int64} {w : World} :
    (creditUser cfg mac mall_id t_pre t).wp (exec E pid) (fun x v => ∀ a, x = .ok a →
      indexOf v = (indexOf w).modify (.macSetDaily (dateOf cfg t.toInt) mall_id.toInt)
        (CBaseMdb.addMember (Key.macText mac))) w := by
  refine wp_quiet_throw (S := NotIndex) (every_userGetId rfl fun _ => rfl) (.refl _)
    (fun user_id w1 same => ?_) (by simp)
  refine wp_quiet (S := NotIndex) (every_userDurationAdd fun _ _ => rfl) (fun _ => trivial) same
    fun _ w2 same => ?_
  refine wp_quiet_throw (S := NotIndex) (every_vipArriveTimeRecord rfl rfl) same (fun _ w3 same => ?_) (by simp)
  apply wp_sadd redis answered rfl (Key.isWord_macText _)
  intro v daily _ _
  rw [daily, same.indexOf]
  rfl

theorem wp_recordSighting_indexes (redis : E.type = .redis) (answered : ¬E.lossy) (w : World) :
    (recordSighting cfg mac x y z mall_id t).wp (exec E pid)
      (fun x v => ∀ a, x = .ok a → Indexed E cfg mac mall_id t w v) w := by
  refine wp_quiet (S := NotIndex) (every_tairSetUserProp rfl) (fun _ => trivial) (.refl _)
    fun _ v same => ?_
  refine wp_quiet (S := NotIndex) (every_tairSetUserProp rfl) (fun _ => trivial) same fun _ v same => ?_
  refine wp_quiet (S := NotIndex) (every_whenM fun _ => every_tairSetUserProp rfl)
    (noThrow_whenM fun _ => trivial) same fun _ v same => ?_
  refine wp_quiet (S := NotIndex) (every_get rfl) (fun _ => trivial) same fun t_pre v same => ?_
  refine wp_quiet (S := NotIndex) (every_tairSetUserProp rfl) (fun _ => trivial) same fun _ w0 same => ?_
  apply wp_zadd redis answered rfl (Key.isWord_macText _)
  intro w1 update
  rw [Prog.wp_bind]
  apply wp_draw redis answered rfl
  intro w2 freed log_id counter found next drawn
  apply wp_saveSighting redis answered
  intro w3 saved
  apply Prog.wp_mono _ (wp_creditUser redis answered)
  intro r v credited a ended
  refine ⟨freed, log_id, counter, found, ?_, ?_⟩
  · have other : indexOf w1 (.logCounter mall_id.toInt (sliceOf cfg t.toInt)) =
        indexOf w (.logCounter mall_id.toInt (sliceOf cfg t.toInt)) := by
      rw [update, same.indexOf]
      exact Function.update_of_ne (by simp) _ _
    rw [← other]
    exact next
  · rw [credited a ended, saved, drawn, update, same.indexOf]
    rfl

/-- A call that returns adds its sighting to the indexes and nothing else. -/
theorem call_indexAfter (redis : E.type = .redis) (answered : ¬E.lossy) {s : Sighting} {w w' : World}
    {a : Int32} (runs : Call E cfg w s t (.ok a) w') : Indexed E cfg s.mac s.mall_id t w w' := by
  apply runs.post (Q := fun x w' => ∀ a, x = .ok a → Indexed E cfg s.mac s.mall_id t w w') _ _ a rfl
  apply wp_userAdd (t := t) rfl
  · intro v _ _ _ a ended
    cases ended
  · intro v db _ _
    have here : indexOf v = indexOf w := by
      funext k
      simp only [indexOf, db]
    apply Prog.wp_mono _ (wp_recordSighting_indexes redis answered v)
    intro x u done a ended
    simpa only [Indexed, here] using done a ended

/-! ## The sightings behind the indexes -/

section
variable {mall_id m : Int32} {log_id : Int32} {counter : Option Val} {I : Index}

theorem indexAfter_logCounter (slice : Stamp) :
    indexAfter cfg mac mall_id t log_id counter I (.logCounter m.toInt slice) =
      if m = mall_id ∧ slice = sliceOf cfg t.toInt then counter
      else I (.logCounter m.toInt slice) := by
  simp [indexAfter, Index.modify_apply, Int32.toInt_inj]

theorem indexAfter_logMacSet (slice : Stamp) :
    indexAfter cfg mac mall_id t log_id counter I (.logMacSet m.toInt slice) =
      if m = mall_id ∧ slice = sliceOf cfg t.toInt then
        CBaseMdb.addMember (Key.macText mac) (I (.logMacSet m.toInt slice))
      else I (.logMacSet m.toInt slice) := by
  simp [indexAfter, Index.modify_apply, Int32.toInt_inj]

theorem indexAfter_logLocLogSet (slice : Stamp) (mac' : UInt64) :
    indexAfter cfg mac mall_id t log_id counter I (.logLocLogSet m.toInt slice mac') =
      if m = mall_id ∧ slice = sliceOf cfg t.toInt ∧ mac' = mac then
        CBaseMdb.addScore (decimal log_id.toInt) t.toInt (I (.logLocLogSet m.toInt slice mac'))
      else I (.logLocLogSet m.toInt slice mac') := by
  simp [indexAfter, Index.modify_apply, Int32.toInt_inj]

theorem indexAfter_logEntry (slice : Stamp) (id : Int) :
    indexAfter cfg mac mall_id t log_id counter I (.logEntry m.toInt slice id .mac) =
      if m = mall_id ∧ slice = sliceOf cfg t.toInt ∧ id = log_id.toInt then
        some (.str (Key.macText mac))
      else I (.logEntry m.toInt slice id .mac) := by
  simp [indexAfter, Index.modify_apply, Int32.toInt_inj]

theorem indexAfter_macSetDaily (date : Stamp) :
    indexAfter cfg mac mall_id t log_id counter I (.macSetDaily date m.toInt) =
      if date = dateOf cfg t.toInt ∧ m = mall_id then
        CBaseMdb.addMember (Key.macText mac) (I (.macSetDaily date m.toInt))
      else I (.macSetDaily date m.toInt) := by
  simp [indexAfter, Index.modify_apply, Int32.toInt_inj]

theorem indexAfter_locationUpdateTime (date : Stamp) :
    indexAfter cfg mac mall_id t log_id counter I (.locationUpdateTime date m.toInt) =
      if date = dateOf cfg t.toInt ∧ m = mall_id then
        CBaseMdb.addScore (Key.macText mac) t.toInt (I (.locationUpdateTime date m.toInt))
      else I (.locationUpdateTime date m.toInt) := by
  simp [indexAfter, Index.modify_apply, Int32.toInt_inj]

end

/-- The MACs seen in a slice of a mall, in order. -/
def macLog (cfg : Config) (h : List (Sighting × Int64)) (mall_id : Int32) (slice : Stamp) :
    List UInt64 :=
  h.filterMap fun r =>
    if r.1.mall_id = mall_id ∧ sliceOf cfg r.2.toInt = slice then some r.1.mac else none

/-- The MACs seen in a mall on a date, in order. -/
def seenOn (cfg : Config) (h : List (Sighting × Int64)) (mall_id : Int32) (date : Stamp) :
    List UInt64 :=
  h.filterMap fun r =>
    if r.1.mall_id = mall_id ∧ dateOf cfg r.2.toInt = date then some r.1.mac else none

section
variable {h : List (Sighting × Int64)} {s : Sighting} {m : Int32}

theorem macLog_append (slice : Stamp) : macLog cfg (h ++ [(s, t)]) m slice =
    macLog cfg h m slice ++
      if m = s.mall_id ∧ slice = sliceOf cfg t.toInt then [s.mac] else [] := by
  simp only [macLog, List.filterMap_append, List.filterMap_cons, List.filterMap_nil, eq_comm]
  split <;> simp_all

theorem mem_seenOn_append (date : Stamp) (mac : UInt64) :
    mac ∈ seenOn cfg (h ++ [(s, t)]) m date ↔
      mac ∈ seenOn cfg h m date ∨ (date = dateOf cfg t.toInt ∧ m = s.mall_id) ∧ mac = s.mac := by
  simp [seenOn, and_comm, eq_comm]

end

/-- The value is a set of exactly the texts in `P`. -/
def IsSetOf (v : Option Val) (P : Text → Prop) : Prop := ∃ S, setAt v = some S ∧ ∀ x, x ∈ S ↔ P x

/-- The value is a sorted set of exactly the texts in `P`. -/
def IsZsetOf (v : Option Val) (P : Text → Prop) : Prop := ∃ z, zsetAt v = some z ∧ ∀ x, x ∈ z ↔ P x

section
variable {v : Option Val} {P P' : Text → Prop} {x : Text}

theorem IsSetOf.congr (h : IsSetOf v P) (e : ∀ y, P' y ↔ P y) : IsSetOf v P' := by
  obtain ⟨S, hS, mem⟩ := h
  exact ⟨S, hS, fun y => (mem y).trans (e y).symm⟩

theorem IsZsetOf.congr (h : IsZsetOf v P) (e : ∀ y, P' y ↔ P y) : IsZsetOf v P' := by
  obtain ⟨z, hz, mem⟩ := h
  exact ⟨z, hz, fun y => (mem y).trans (e y).symm⟩

theorem IsSetOf.add (h : IsSetOf v P) (e : ∀ y, P' y ↔ P y ∨ y = x) :
    IsSetOf (CBaseMdb.addMember x v) P' := by
  obtain ⟨S, hS, mem⟩ := h
  refine ⟨insert x S, CBaseMdb.setAt_addMember hS, fun y => ?_⟩
  rw [Finset.mem_insert, mem, e, or_comm]

theorem IsZsetOf.add {score : Int} (h : IsZsetOf v P) (e : ∀ y, P' y ↔ P y ∨ y = x) :
    IsZsetOf (CBaseMdb.addScore x score v) P' := by
  obtain ⟨z, hz, mem⟩ := h
  refine ⟨z.insert x score, CBaseMdb.zsetAt_addScore hz, fun y => ?_⟩
  rw [AList.mem_insert, mem, e, or_comm]

end

def IsMacOf (macs : List UInt64) (x : Text) : Prop := ∃ mac ∈ macs, x = Key.macText mac

/-- Each family of indexes as a view of the sightings. -/
structure Tracks (cfg : Config) (h : List (Sighting × Int64)) (I : Index) : Prop where
  counter : ∀ (m : Int32) s, CBaseMdb.Counted .redis (I (.logCounter m.toInt s))
    (macLog cfg h m s).length
  macs : ∀ (m : Int32) s, IsSetOf (I (.logMacSet m.toInt s)) (IsMacOf (macLog cfg h m s))
  ids : ∀ (m : Int32) s mac, ∃ z, zsetAt (I (.logLocLogSet m.toInt s mac)) = some z ∧
    ∀ id ∈ z, mac ∈ macLog cfg h m s
  daily : ∀ d (m : Int32), IsSetOf (I (.macSetDaily d m.toInt)) (IsMacOf (seenOn cfg h m d))
  update : ∀ d (m : Int32),
    IsZsetOf (I (.locationUpdateTime d m.toInt)) (IsMacOf (seenOn cfg h m d))

theorem Tracks.start {w : World} (fresh : w.Fresh) : Tracks cfg [] (indexOf w) := by
  have none (k : Key) : indexOf w k = none := by simp [indexOf, fresh.db, Db.empty]
  constructor
  · intro m s
    rw [none]
    exact CBaseMdb.counted_none
  · exact fun m s => ⟨∅, by rw [none]; rfl, by simp [IsMacOf, macLog]⟩
  · exact fun m s mac => ⟨∅, by rw [none]; rfl, fun id mem => absurd mem (AList.notMem_empty id)⟩
  · exact fun d m => ⟨∅, by rw [none]; rfl, by simp [IsMacOf, seenOn]⟩
  · exact fun d m => ⟨∅, by rw [none]; rfl, by simp [IsMacOf, seenOn]⟩

section
variable {h : List (Sighting × Int64)} {s : Sighting} {I : Index} {log_id : Int32}
  {counter : Option Val}

theorem Tracks.indexAfter {m : Machine} {freed : Int → Int32} (tracks : Tracks cfg h I)
    (next : NextId m freed (I (.logCounter s.mall_id.toInt (sliceOf cfg t.toInt))) log_id counter) :
    Tracks cfg (h ++ [(s, t)]) (indexAfter cfg s.mac s.mall_id t log_id counter I) := by
  obtain ⟨-, counted⟩ := next _ (tracks.counter s.mall_id (sliceOf cfg t.toInt))
  constructor
  · intro m slice
    rw [indexAfter_logCounter, macLog_append]
    by_cases here : m = s.mall_id ∧ slice = sliceOf cfg t.toInt
    · obtain ⟨rfl, rfl⟩ := here
      simpa using counted
    · simpa [here] using tracks.counter m slice
  · intro m slice
    rw [indexAfter_logMacSet, macLog_append]
    by_cases here : m = s.mall_id ∧ slice = sliceOf cfg t.toInt
    · rw [if_pos here, if_pos here]
      apply (tracks.macs m slice).add
      simp [IsMacOf, or_and_right, exists_or]
    · simpa [here] using tracks.macs m slice
  · intro m slice mac
    rw [indexAfter_logLocLogSet, macLog_append]
    obtain ⟨z, hz, own⟩ := tracks.ids m slice mac
    by_cases here : m = s.mall_id ∧ slice = sliceOf cfg t.toInt ∧ mac = s.mac
    · rw [if_pos here, if_pos ⟨here.1, here.2.1⟩]
      refine ⟨_, CBaseMdb.zsetAt_addScore hz, fun id _ => ?_⟩
      rw [here.2.2]
      exact List.mem_append_right _ (List.mem_singleton_self _)
    · rw [if_neg here]
      exact ⟨z, hz, fun id mem => List.mem_append_left _ (own id mem)⟩
  · intro d m
    rw [indexAfter_macSetDaily]
    by_cases here : d = dateOf cfg t.toInt ∧ m = s.mall_id
    · rw [if_pos here]
      apply (tracks.daily d m).add
      simp [IsMacOf, mem_seenOn_append, here, or_and_right, exists_or]
    · rw [if_neg here]
      apply (tracks.daily d m).congr
      simp [IsMacOf, mem_seenOn_append, here]
  · intro d m
    rw [indexAfter_locationUpdateTime]
    by_cases here : d = dateOf cfg t.toInt ∧ m = s.mall_id
    · rw [if_pos here]
      apply (tracks.update d m).add
      simp [IsMacOf, mem_seenOn_append, here, or_and_right, exists_or]
    · rw [if_neg here]
      apply (tracks.update d m).congr
      simp [IsMacOf, mem_seenOn_append, here]

end

/-- The calls that return. -/
abbrev Completed : World → Sighting → Int64 → Except Exn Int32 → Prop :=
  fun _ _ _ x => ∃ a, x = .ok a

theorem calls_tracked (redis : E.type = .redis) (answered : ¬E.lossy) {w0 w : World}
    (fresh : w0.Fresh) (run : Calls E cfg Completed w0 h w) : Tracks cfg h (indexOf w) := by
  induction run with
  | start => exact Tracks.start fresh
  | call _ done runs ih =>
    obtain ⟨a, rfl⟩ := done
    obtain ⟨freed, log_id, counter, -, next, after⟩ := call_indexAfter redis answered runs
    rw [after]
    exact ih.indexAfter next

/-! ## Agreement -/

def InMacSet (w : World) (m : Int32) (slice : Stamp) (x : Text) : Prop :=
  ∃ S, setAt (w.db (Key.logMacSet m.toInt slice).text) = some S ∧ x ∈ S

def HasId (w : World) (m : Int32) (slice : Stamp) (mac : UInt64) (id : Text) : Prop :=
  ∃ z, zsetAt (w.db (Key.logLocLogSet m.toInt slice mac).text) = some z ∧ id ∈ z

/-- The counter of a slice, its `mac.set`, the `loc.log.set`s of the MACs in it
and the log entries. -/
structure SliceAgrees (w : World) (m : Int32) (slice : Stamp) : Prop where
  disjoint : ∀ mac mac' id, InMacSet w m slice (Key.macText mac) →
    InMacSet w m slice (Key.macText mac') → HasId w m slice mac id → HasId w m slice mac' id →
    mac = mac'
  union : ∀ id, (∃ mac, InMacSet w m slice (Key.macText mac) ∧ HasId w m slice mac id) ↔
    ∃ v n : Int, counterAt (w.db (Key.logCounter m.toInt slice).text) = some v ∧
      1 ≤ n ∧ n ≤ v ∧ id = decimal n
  entry : ∀ mac id, InMacSet w m slice (Key.macText mac) → HasId w m slice mac (decimal id) →
    w.db (Key.logEntry m.toInt slice id .mac).text = some (.str (Key.macText mac))

/-- The slice is one of the date's: hour and minute follow the date. -/
def OfDate (slice date : Stamp) : Prop := ∃ hm, hm.length = 4 ∧ slice.text = date.text ++ hm

/-- The MACs of a day, those with an update time and those in the slices of the day. -/
def DateAgrees (w : World) (m : Int32) (date : Stamp) : Prop :=
  ∃ macs, IsSetOf (w.db (Key.macSetDaily date m.toInt).text) (IsMacOf macs) ∧
    IsZsetOf (w.db (Key.locationUpdateTime date m.toInt).text) (IsMacOf macs) ∧
    ∀ x, IsMacOf macs x ↔ ∃ slice, OfDate slice date ∧ InMacSet w m slice x

theorem ofDate_sliceOf {date : Stamp} : OfDate (sliceOf cfg t.toInt) date ↔ dateOf cfg t.toInt = date := by
  have four := length_hourMinute (cfg.localtime t.toInt) cfg.time_slice
  constructor
  · rintro ⟨hm, length, e⟩
    exact Stamp.ext_iff.mpr (List.append_inj_left' e (by rw [four, length]))
  · rintro rfl
    exact ⟨_, four, rfl⟩

section
variable {w : World} {slice : Stamp}

theorem mem_macLog {mac : UInt64} : mac ∈ macLog cfg h m slice ↔
    ∃ r ∈ h, r.1.mall_id = m ∧ sliceOf cfg r.2.toInt = slice ∧ r.1.mac = mac := by
  simp [macLog, and_assoc]

theorem mem_seenOn {date : Stamp} {mac : UInt64} : mac ∈ seenOn cfg h m date ↔
    ∃ slice, OfDate slice date ∧ mac ∈ macLog cfg h m slice := by
  simp only [mem_macLog]
  constructor
  · intro seen
    simp only [seenOn, List.mem_filterMap] at seen
    obtain ⟨r, hr, e⟩ := seen
    split at e
    · rename_i here
      exact ⟨_, ofDate_sliceOf.mpr here.2, r, hr, here.1, rfl, Option.some.inj e⟩
    · cases e
  · rintro ⟨slice, date, r, hr, mall, rfl, e⟩
    simp only [seenOn, List.mem_filterMap]
    exact ⟨r, hr, by rw [if_pos ⟨mall, ofDate_sliceOf.mp date⟩, e]⟩

theorem Tracks.inMacSet (tracks : Tracks cfg h (indexOf w)) {x : Text} :
    InMacSet w m slice x ↔ IsMacOf (macLog cfg h m slice) x := by
  obtain ⟨S, hS, mem⟩ := tracks.macs m slice
  rw [indexOf_self rfl] at hS
  simp [InMacSet, hS, mem]

theorem Tracks.inMacSet_macText (tracks : Tracks cfg h (indexOf w)) {mac : UInt64} :
    InMacSet w m slice (Key.macText mac) ↔ mac ∈ macLog cfg h m slice := by
  simp [tracks.inMacSet, IsMacOf]

theorem Tracks.dateAgrees (tracks : Tracks cfg h (indexOf w)) (date : Stamp) :
    DateAgrees w m date := by
  refine ⟨seenOn cfg h m date, ?_, ?_, fun x => ?_⟩
  · have daily := tracks.daily date m
    rwa [indexOf_self rfl] at daily
  · have update := tracks.update date m
    rwa [indexOf_self rfl] at update
  · simp only [tracks.inMacSet, IsMacOf, mem_seenOn]
    grind

theorem Tracks.counterAt (tracks : Tracks cfg h (indexOf w)) (m : Int32) (slice : Stamp) :
    counterAt (w.db (Key.logCounter m.toInt slice).text) =
      some ((min (macLog cfg h m slice).length (2 ^ 63 - 1) : Nat) : Int) := by
  rw [← indexOf_self rfl]
  exact tracks.counter m slice

/-! ## One more sighting -/

/-- What is read of the freed reply to the draw is the new value of the counter. -/
def NumberKept (cfg : Config) (freed : Int → Int32) (w : World) (s : Sighting) (t : Int64) : Prop :=
  ∀ v, SimpleDsp.counterAt (w.db (Key.logCounter s.mall_id.toInt (sliceOf cfg t.toInt)).text) =
    some v → (freed (v + 1)).toInt = v + 1

section
variable {w' : World} {s : Sighting} {log_id : Int32} {counter : Option Val}
  (tracks : Tracks cfg h (indexOf w))
  (after : indexOf w' = indexAfter cfg s.mac s.mall_id t log_id counter (indexOf w))
include tracks after

theorem inMacSet_after {x : Text} : InMacSet w' m slice x ↔
    InMacSet w m slice x ∨ (m = s.mall_id ∧ slice = sliceOf cfg t.toInt) ∧ x = Key.macText s.mac := by
  obtain ⟨S, hS, -⟩ := tracks.macs m slice
  have now := congrFun after (.logMacSet m.toInt slice)
  rw [indexAfter_logMacSet, indexOf_self rfl] at now
  rw [indexOf_self rfl] at hS
  by_cases here : m = s.mall_id ∧ slice = sliceOf cfg t.toInt
  · rw [if_pos here, indexOf_self rfl] at now
    obtain ⟨rfl, rfl⟩ := here
    simp only [InMacSet, now, CBaseMdb.setAt_addMember hS, hS, and_self, true_and,
      Option.some.injEq, exists_eq_left', Finset.mem_insert]
    exact or_comm
  · rw [if_neg here, indexOf_self rfl] at now
    simp only [InMacSet, now, here, false_and, or_false]

theorem hasId_after {mac : UInt64} {id : Text} : HasId w' m slice mac id ↔
    HasId w m slice mac id ∨
      (m = s.mall_id ∧ slice = sliceOf cfg t.toInt ∧ mac = s.mac) ∧ id = decimal log_id.toInt := by
  obtain ⟨z, hz, -⟩ := tracks.ids m slice mac
  have now := congrFun after (.logLocLogSet m.toInt slice mac)
  rw [indexAfter_logLocLogSet, indexOf_self rfl] at now
  rw [indexOf_self rfl] at hz
  by_cases here : m = s.mall_id ∧ slice = sliceOf cfg t.toInt ∧ mac = s.mac
  · rw [if_pos here, indexOf_self rfl] at now
    obtain ⟨rfl, rfl, rfl⟩ := here
    simp only [HasId, now, CBaseMdb.zsetAt_addScore hz, hz, and_self, true_and,
      Option.some.injEq, exists_eq_left', AList.mem_insert]
    exact or_comm
  · rw [if_neg here, indexOf_self rfl] at now
    simp only [HasId, now, here, false_and, or_false]

omit tracks in
theorem entry_after (id : Int) : w'.db (Key.logEntry m.toInt slice id .mac).text =
    if m = s.mall_id ∧ slice = sliceOf cfg t.toInt ∧ id = log_id.toInt then
      some (.str (Key.macText s.mac))
    else w.db (Key.logEntry m.toInt slice id .mac).text := by
  have now := congrFun after (.logEntry m.toInt slice id .mac)
  rwa [indexAfter_logEntry, indexOf_self rfl, indexOf_self rfl] at now

omit tracks in
theorem counter_after (off : ¬(m = s.mall_id ∧ slice = sliceOf cfg t.toInt)) :
    w'.db (Key.logCounter m.toInt slice).text = w.db (Key.logCounter m.toInt slice).text := by
  have now := congrFun after (.logCounter m.toInt slice)
  rwa [indexAfter_logCounter, if_neg off, indexOf_self rfl, indexOf_self rfl] at now

/-- The other slices have nothing to do with it. -/
theorem sliceAgrees_off (off : ¬(m = s.mall_id ∧ slice = sliceOf cfg t.toInt))
    (agrees : SliceAgrees w m slice) : SliceAgrees w' m slice := by
  have none {p : Prop} : ¬(m = s.mall_id ∧ slice = sliceOf cfg t.toInt ∧ p) :=
    fun all => off ⟨all.1, all.2.1⟩
  constructor
  · intro mac mac' id
    simp only [inMacSet_after tracks after, hasId_after tracks after, off, none, false_and, or_false]
    exact agrees.disjoint mac mac' id
  · intro id
    simp only [inMacSet_after tracks after, hasId_after tracks after, off, none, false_and, or_false,
      counter_after after off]
    exact agrees.union id
  · intro mac id
    simp only [inMacSet_after tracks after, hasId_after tracks after, off, none, false_and, or_false,
      entry_after after, if_false]
    exact agrees.entry mac id

end

/-- An id belongs to a MAC of the slice. -/
theorem Tracks.inMacSet_of_hasId (tracks : Tracks cfg h (indexOf w)) {mac : UInt64} {id : Text}
    (has : HasId w m slice mac id) : InMacSet w m slice (Key.macText mac) := by
  obtain ⟨z, hz, mem⟩ := has
  obtain ⟨z', hz', own⟩ := tracks.ids m slice mac
  rw [indexOf_self rfl] at hz'
  obtain rfl := Option.some.inj (hz.symm.trans hz')
  exact tracks.inMacSet_macText.mpr (own id mem)

section
variable {w' : World} {s : Sighting} {log_id : Int32} {counter : Option Val} {mach : Machine}
  {freed : Int → Int32}

/-- Where the slice agrees, the next number keeps it so. -/
theorem sliceAgrees_next (tracks : Tracks cfg h (indexOf w))
    (after : indexOf w' = indexAfter cfg s.mac s.mall_id t log_id counter (indexOf w)) {v : Int}
    (before : SimpleDsp.counterAt (w.db (Key.logCounter s.mall_id.toInt (sliceOf cfg t.toInt)).text) =
      some v)
    (behind : SimpleDsp.counterAt (w'.db (Key.logCounter s.mall_id.toInt (sliceOf cfg t.toInt)).text) =
      some (v + 1)) (pos : 0 ≤ v) (number : log_id.toInt = v + 1)
    (agrees : SliceAgrees w s.mall_id (sliceOf cfg t.toInt)) :
    SliceAgrees w' s.mall_id (sliceOf cfg t.toInt) := by
  have old {mac : UInt64} {id : Text} (has : HasId w s.mall_id (sliceOf cfg t.toInt) mac id) :
      ∃ n : Int, 1 ≤ n ∧ n ≤ v ∧ id = decimal n := by
    obtain ⟨v', n, hv, inside⟩ := (agrees.union id).mp ⟨mac, tracks.inMacSet_of_hasId has, has⟩
    obtain rfl := Option.some.inj (before.symm.trans hv)
    exact ⟨n, inside⟩
  have new {mac : UInt64} : ¬HasId w s.mall_id (sliceOf cfg t.toInt) mac (decimal (v + 1)) := by
    intro has
    obtain ⟨n, -, le, same⟩ := old has
    have := decimal_inj.mp same
    omega
  constructor
  · intro mac mac' id _ _ has has'
    rw [hasId_after tracks after, number] at has has'
    rcases has with has | ⟨⟨-, -, rfl⟩, rfl⟩ <;> rcases has' with has' | ⟨⟨-, -, rfl⟩, same⟩
    · exact agrees.disjoint mac mac' id (tracks.inMacSet_of_hasId has)
        (tracks.inMacSet_of_hasId has') has has'
    · exact absurd (same ▸ has) new
    · exact absurd has' new
    · rfl
  · intro id
    simp only [inMacSet_after tracks after, hasId_after tracks after, number, behind, true_and,
      Option.some.injEq, and_self]
    constructor
    · rintro ⟨mac, -, has | ⟨rfl, rfl⟩⟩
      · obtain ⟨n, one, le, rfl⟩ := old has
        exact ⟨v + 1, n, rfl, one, by omega, rfl⟩
      · exact ⟨v + 1, v + 1, rfl, by omega, le_refl _, rfl⟩
    · rintro ⟨_, n, rfl, one, le, rfl⟩
      by_cases last : n = v + 1
      · exact ⟨s.mac, Or.inr rfl, Or.inr ⟨rfl, by rw [last]⟩⟩
      · obtain ⟨mac, member, has⟩ := (agrees.union (decimal n)).mpr
          ⟨v, n, before, one, by omega, rfl⟩
        exact ⟨mac, Or.inl member, Or.inl has⟩
  · intro mac id _ has
    rw [hasId_after tracks after, number] at has
    rw [entry_after after, number]
    by_cases last : id = v + 1
    · rw [if_pos ⟨rfl, rfl, last⟩]
      rcases has with has | ⟨⟨-, -, rfl⟩, -⟩
      · exact absurd (last ▸ has) new
      · rfl
    · rw [if_neg fun all => last all.2.2]
      rcases has with has | ⟨-, same⟩
      · exact agrees.entry mac id (tracks.inMacSet_of_hasId has) has
      · exact absurd (decimal_inj.mp same) last

/-- After one more sighting the slice still agrees exactly if the number was kept. -/
theorem sliceAgrees_after (tracks : Tracks cfg h (indexOf w))
    (next : NextId mach freed (indexOf w (.logCounter s.mall_id.toInt (sliceOf cfg t.toInt))) log_id
      counter)
    (after : indexOf w' = indexAfter cfg s.mac s.mall_id t log_id counter (indexOf w))
    (agrees : SliceAgrees w s.mall_id (sliceOf cfg t.toInt)) :
    SliceAgrees w' s.mall_id (sliceOf cfg t.toInt) ↔ NumberKept cfg freed w s t := by
  have before := tracks.counterAt s.mall_id (sliceOf cfg t.toInt)
  have tracks' : Tracks cfg (h ++ [(s, t)]) (indexOf w') := after ▸ tracks.indexAfter next
  have behind := tracks'.counterAt s.mall_id (sliceOf cfg t.toInt)
  rw [macLog_append, if_pos ⟨rfl, rfl⟩, List.length_append, List.length_singleton] at behind
  obtain ⟨drawn, -⟩ := next _ (tracks.counter s.mall_id (sliceOf cfg t.toInt))
  have inside : InMacSet w' s.mall_id (sliceOf cfg t.toInt) (Key.macText s.mac) :=
    (inMacSet_after tracks after).mpr (Or.inr ⟨⟨rfl, rfl⟩, rfl⟩)
  have mine : HasId w' s.mall_id (sliceOf cfg t.toInt) s.mac (decimal log_id.toInt) :=
    (hasId_after tracks after).mpr (Or.inr ⟨⟨rfl, rfl, rfl⟩, rfl⟩)
  generalize (macLog cfg h s.mall_id (sliceOf cfg t.toInt)).length = n at before behind drawn
  unfold NumberKept
  simp only [before, Option.some.injEq, forall_eq']
  by_cases room : n + 1 < 2 ^ 63
  · have low : min n (2 ^ 63 - 1) = n := by omega
    have high : min (n + 1) (2 ^ 63 - 1) = n + 1 := by omega
    rw [low] at before ⊢
    rw [high] at behind
    rw [CBaseMdb.nthIncr, if_pos room] at drawn
    have number : log_id.toInt = (freed ((n : Int) + 1)).toInt := by
      rw [drawn]
      rfl
    rw [← number]
    constructor
    · intro agrees'
      obtain ⟨mac, -, has⟩ := (agrees'.union (decimal ((n : Int) + 1))).mpr
        ⟨_, _, behind, by omega, by push_cast; omega, rfl⟩
      rcases (hasId_after tracks after).mp has with has | ⟨-, same⟩
      · obtain ⟨v, k, hv, -, le, same⟩ := (agrees.union _).mp ⟨mac, tracks.inMacSet_of_hasId has, has⟩
        have := decimal_inj.mp same
        have := Option.some.inj (before.symm.trans hv)
        omega
      · exact (decimal_inj.mp same).symm
    · intro kept
      exact sliceAgrees_next tracks after before (by rw [behind]; push_cast; rfl) (by omega) kept agrees
  · -- A counter that is full answers zero, which is no id.
    have full : min n (2 ^ 63 - 1) = 2 ^ 63 - 1 := by omega
    rw [CBaseMdb.nthIncr, if_neg room] at drawn
    rw [full]
    constructor
    · intro agrees'
      obtain ⟨_, k, -, one, -, same⟩ := (agrees'.union _).mp ⟨s.mac, inside, mine⟩
      have zero : (0 : Int) = k := by
        rw [drawn] at same
        exact decimal_inj.mp same
      omega
    · intro kept
      have small := (freed (((2 ^ 63 - 1 : Nat) : Int) + 1)).toInt_lt
      omega

end

/-- Each call returns, and whatever the memory holds, the number is kept. -/
def KeepsNumber (E : Env) (cfg : Config) (w : World) (s : Sighting) (t : Int64)
    (x : Except Exn Int32) : Prop :=
  (∃ a, x = .ok a) ∧ ∀ freed, E.freed freed → NumberKept cfg freed w s t

theorem sliceAgrees_start {w0 : World} (fresh : w0.Fresh) : SliceAgrees w0 m slice := by
  have none (k : Key) : w0.db k.text = Option.none := by rw [fresh.db]; rfl
  have empty (x : Text) : ¬InMacSet w0 m slice x := by
    rintro ⟨S, hS, mem⟩
    rw [none] at hS
    obtain rfl := Option.some.inj hS
    exact absurd mem (Finset.notMem_empty x)
  constructor
  · exact fun mac mac' id inside => absurd inside (empty _)
  · intro id
    constructor
    · rintro ⟨mac, inside, -⟩
      exact absurd inside (empty _)
    · rintro ⟨v, n, hv, one, le, -⟩
      rw [none] at hv
      have := Option.some.inj hv
      omega
  · exact fun mac id inside => absurd inside (empty _)

theorem calls_agree (redis : E.type = .redis) (answered : ¬E.lossy) {w0 w : World}
    (fresh : w0.Fresh) (run : Calls E cfg (KeepsNumber E cfg) w0 h w) :
    Tracks cfg h (indexOf w) ∧ ∀ m slice, SliceAgrees w m slice := by
  induction run with
  | start => exact ⟨Tracks.start fresh, fun m slice => sliceAgrees_start fresh⟩
  | @call h w w' s t x before keeps runs ih =>
    obtain ⟨⟨a, rfl⟩, kept⟩ := keeps
    obtain ⟨tracks, agrees⟩ := ih
    obtain ⟨freed, log_id, counter, found, next, after⟩ := call_indexAfter redis answered runs
    refine ⟨after ▸ tracks.indexAfter next, fun m slice => ?_⟩
    by_cases here : m = s.mall_id ∧ slice = sliceOf cfg t.toInt
    · obtain ⟨rfl, rfl⟩ := here
      exact (sliceAgrees_after tracks next after (agrees _ _)).mpr (kept freed found)
    · exact sliceAgrees_off tracks after here (agrees m slice)

end

/-- On Redis, after any calls of `user_add` that have returned, the indexes of a mall agree on
every date. In its slices they agree as long as each call finds the number it has drawn in the
freed reply, and the next call leaves its slice so exactly if it does the same. -/
theorem location_indexes_agree (redis : E.type = .redis) (answered : ¬E.lossy) {w0 w : World}
    (fresh : w0.Fresh) {h : List (Sighting × Int64)} (run : Calls E cfg Completed w0 h w) :
    (∀ m date, DateAgrees w m date) ∧
    (Calls E cfg (KeepsNumber E cfg) w0 h w → ∀ m slice, SliceAgrees w m slice) ∧
    ∀ freed s t a w', Call (E.finding freed) cfg w s t (.ok a) w' →
      SliceAgrees w s.mall_id (sliceOf cfg t.toInt) →
      (SliceAgrees w' s.mall_id (sliceOf cfg t.toInt) ↔ NumberKept cfg freed w s t) := by
  have tracks := calls_tracked redis answered fresh run
  refine ⟨fun m date => tracks.dateAgrees date, ?_, ?_⟩
  · intro kept
    exact (calls_agree redis answered fresh kept).2
  · intro freed s t a w' call agrees
    obtain ⟨_, log_id, counter, rfl, next, after⟩ :=
      call_indexAfter (E := E.finding freed) redis answered call
    exact sliceAgrees_after tracks next after agrees

end

/-- Three sightings of two users in one slice, on a machine that keeps freed numbers; and a
fourth one that finds a seven. -/
theorem location_indexes_agree_three : ∃ w, Calls (plainEnv .redis) firstDay
      (KeepsNumber (plainEnv .redis) firstDay) (World.fresh (fun _ => none) [])
      [(sightingOf 5, 65), (sightingOf 6, 66), (sightingOf 5, 67)] w ∧
    counterAt (w.db (Key.logCounter 2 (sliceOf firstDay 65)).text) = some 3 ∧
    SliceAgrees w 2 (sliceOf firstDay 65) ∧ (∀ date, DateAgrees w 2 date) ∧
    ∃ a w', Call ((plainEnv .redis).finding fun _ => 7) firstDay w (sightingOf 5) 68 (.ok a) w' ∧
      ¬SliceAgrees w' 2 (sliceOf firstDay 68) := by
  have computed : (callOf (plainEnv .redis) (World.fresh (fun _ => none) []) (sightingOf 5) 65).bind
      (fun r => (callOf (plainEnv .redis) r.2 (sightingOf 6) 66).bind fun q =>
        (callOf (plainEnv .redis) q.2 (sightingOf 5) 67).bind fun u =>
          (callOf ((plainEnv .redis).finding fun _ => 7) u.2 (sightingOf 5) 68).map fun v =>
            ([r.1, q.1, u.1, v.1], [r.2, q.2, u.2].map fun w =>
              counterAt (w.db (Key.logCounter 2 (sliceOf firstDay 65)).text))) =
      some ([.ok 0, .ok 0, .ok 0, .ok 0], [some 1, some 2, some 3]) := by decide +kernel
  obtain ⟨⟨x1, w1⟩, first, rest⟩ := Option.bind_eq_some_iff.mp computed
  obtain ⟨⟨x2, w2⟩, second, rest⟩ := Option.bind_eq_some_iff.mp rest
  obtain ⟨⟨x3, w3⟩, third, rest⟩ := Option.bind_eq_some_iff.mp rest
  obtain ⟨⟨x4, w4⟩, fourth, ends⟩ := Option.map_eq_some_iff.mp rest
  simp only [List.map_cons, List.map_nil, Prod.mk.injEq, List.cons.injEq, and_true] at ends
  obtain ⟨⟨rfl, rfl, rfl, rfl⟩, one, two, three⟩ := ends
  have kept {w : World} {mac : UInt64} {t : Int64} {n : Int} (small : (Int32.ofInt (n + 1)).toInt = n + 1)
      (same : sliceOf firstDay t.toInt = sliceOf firstDay 65)
      (counter : counterAt (w.db (Key.logCounter 2 (sliceOf firstDay 65)).text) = some n) :
      KeepsNumber (plainEnv .redis) firstDay w (sightingOf mac) t (.ok 0) := by
    refine ⟨⟨0, rfl⟩, ?_⟩
    rintro _ rfl v hv
    rw [same] at hv
    obtain rfl := Option.some.inj (counter.symm.trans hv)
    exact small
  have run := ((Calls.start.call (kept (n := 0) (t := 65) (by decide) (by decide +kernel) rfl)
    (call_of_callOf rfl rfl first)).call (kept (t := 66) (by decide) (by decide +kernel) one)
    (call_of_callOf rfl rfl second)).call (kept (t := 67) (by decide) (by decide +kernel) two)
    (call_of_callOf rfl rfl third)
  obtain ⟨dates, slices, next⟩ := location_indexes_agree (E := plainEnv .redis) rfl not_false
    (World.fresh_is_fresh _ _) (run.mono fun _ _ _ _ holds => holds.1)
  have agrees := slices run
  refine ⟨w3, run, three, agrees 2 _, dates 2, 0, w4, ?_⟩
  have call : Call ((plainEnv .redis).finding fun _ => 7) firstDay w3 (sightingOf 5) 68 (.ok 0) w4 :=
    call_of_callOf rfl rfl fourth
  have slot : sliceOf firstDay 68 = sliceOf firstDay 65 := by decide +kernel
  refine ⟨call, fun after => ?_⟩
  have kept := (next _ _ _ _ _ call (agrees _ _)).mp after 3 (slot ▸ three)
  exact absurd kept (by decide)

/-- Where the freed reply holds a seven, the first sighting gets the id 7. -/
theorem location_indexes_disagree : ∃ a w', Call ((plainEnv .redis).finding fun _ => 7) firstDay
      (World.fresh (fun _ => none) []) (sightingOf 5) 65 (.ok a) w' ∧
    counterAt (w'.db (Key.logCounter 2 (sliceOf firstDay 65)).text) = some 1 ∧
    HasId w' 2 (sliceOf firstDay 65) 5 (decimal 7) ∧ ¬SliceAgrees w' 2 (sliceOf firstDay 65) := by
  have computed : (callOf ((plainEnv .redis).finding fun _ => 7) (World.fresh (fun _ => none) [])
      (sightingOf 5) 65).map (fun r =>
        (r.1, counterAt (r.2.db (Key.logCounter 2 (sliceOf firstDay 65)).text),
          (setAt (r.2.db (Key.logMacSet 2 (sliceOf firstDay 65)).text)).map fun S =>
            decide (Key.macText 5 ∈ S),
          (zsetAt (r.2.db (Key.logLocLogSet 2 (sliceOf firstDay 65) 5).text)).map fun z =>
            decide (decimal 7 ∈ z))) = some (.ok 0, some 1, some true, some true) := by decide +kernel
  obtain ⟨⟨x, w⟩, runs, ends⟩ := Option.map_eq_some_iff.mp computed
  simp only [Prod.mk.injEq] at ends
  obtain ⟨rfl, counter, macs, ids⟩ := ends
  obtain ⟨S, hS, member⟩ := Option.map_eq_some_iff.mp macs
  obtain ⟨z, hz, seven⟩ := Option.map_eq_some_iff.mp ids
  have inside : InMacSet w 2 (sliceOf firstDay 65) (Key.macText 5) := ⟨S, hS, of_decide_eq_true member⟩
  have has : HasId w 2 (sliceOf firstDay 65) 5 (decimal 7) := ⟨z, hz, of_decide_eq_true seven⟩
  refine ⟨0, w, call_of_callOf rfl rfl runs, counter, has, fun agrees => ?_⟩
  obtain ⟨v, n, hv, -, le, same⟩ := (agrees.union _).mp ⟨5, inside, has⟩
  obtain rfl := decimal_inj.mp same
  obtain rfl := Option.some.inj (counter.symm.trans hv)
  exact absurd le (by decide)

end UserMap

end SimpleDsp
