import SimpleDsp.Receivers.ArriveTime

/-!
# Sightings on record

Calls of `user_add` for any mall and messages of `parse_apmac_msg`, one after the
other, and what both leave of a sighting.

* `sightOps`, `recordOps`: the operations that matter to the readers;
* `Records`: the calls and messages so far, as a log of sightings;
* `Stored.sighted`: the properties of a user are those stored last;
* `wp_userAdd_sighted`: what a call leaves that may lose its connection on the way.
-/

namespace SimpleDsp

open DecimalText Programs

namespace UserMap

open Prog (call)

section
variable {E : Env} {cfg : Config} {pid : Nat} {mac : UInt64} {mall_id i : Int32} {x y : Rat}
  {z : Int32} {prev t : Int64} {w v : World} {os : List StoreOp}

/-! ## What a sighting leaves -/

/-- The records that this is not about. -/
def Aside : Key → Prop
  | .logCounter .. | .logMacSet .. | .logLocLogSet .. | .logEntry .. | .logDataTimeSet _ => True
  | .locationHex .. | .isMallVip .. | .vipArriveTime _ | .macSetDaily .. => True
  | _ => False

theorem idKey_not_aside (k : Key) (h : IsIdKey k) : ¬Aside k := by
  obtain ⟨mac, rfl⟩ | ⟨id, rfl⟩ := h <;> exact not_false

/-- Both paths set the time and move the MAC in the set of the date. -/
def timeOps (cfg : Config) (mac : UInt64) (mall_id : Int32) (t : Int64) : List StoreOp :=
  [.set .time (.location mall_id.toInt mac .time) t,
    .zadd (.locationUpdateTime (dateOf cfg t.toInt) mall_id.toInt) t (Key.macText mac)]

def placeOps (mac : UInt64) (x y : Rat) (z mall_id : Int32) : List StoreOp :=
  [.set .double (.location mall_id.toInt mac .x) x, .set .double (.location mall_id.toInt mac .y) y] ++
    if z ≠ INT_MIN then [.set .int (.location mall_id.toInt mac .z) z] else []

/-- What `user_add` writes for the user `i`, last seen at `prev`. -/
def addOps (cfg : Config) (mac : UInt64) (x y : Rat) (z mall_id i : Int32) (prev t : Int64) :
    List StoreOp :=
  placeOps mac x y z mall_id ++ timeOps cfg mac mall_id t ++
    [.incr (.userDuration (dateOf cfg t.toInt) mall_id.toInt i.toInt) (durationDelta cfg prev t)]

theorem key_placeOps {o : StoreOp} (h : o ∈ placeOps mac x y z mall_id) :
    ∃ prop, prop ≠ .time ∧ o.key = .location mall_id.toInt mac prop := by
  unfold placeOps at h
  split at h
  · simp only [List.cons_append, List.nil_append, List.mem_cons, List.not_mem_nil, or_false] at h
    obtain rfl | rfl | rfl := h <;> exact ⟨_, by decide, rfl⟩
  · simp only [List.append_nil, List.mem_cons, List.not_mem_nil, or_false] at h
    obtain rfl | rfl := h <;> exact ⟨_, by decide, rfl⟩

theorem wp_placed {β : Type} {S : Key → Prop} (answered : ¬E.lossy)
    (out : ∀ prop, prop ≠ .time → ¬S (.location mall_id.toInt mac prop)) (h : Does E S [] w v)
    {p : UserM β} {Q : Except Exn β → World → Prop}
    (hok : ∀ u : World, u.clock = v.clock → Does E S (placeOps mac x y z mall_id) w u →
      p.wp (exec E pid) Q u) :
    (do
      tairSetUserProp .double mall_id mac .x x
      tairSetUserProp .double mall_id mac .y y
      whenM (z ≠ INT_MIN) (tairSetUserProp .int mall_id mac .z z)
      p : UserM β).wp (exec E pid) Q v := by
  apply wp_does answered h (by exact out .x (by decide))
  intro _ u1 clock1 h1
  apply wp_does answered h1 (by exact out .y (by decide))
  intro _ u2 clock2 h2
  unfold placeOps at hok
  unfold whenM
  split
  · rename_i real
    rw [if_pos real] at hok
    apply wp_does answered h2 (by exact out .z (by decide))
    intro _ u3 clock3 h3
    exact hok u3 (by rw [clock3, clock2, clock1]) h3
  · rename_i unreal
    rw [if_neg unreal] at hok
    exact hok u2 (by rw [clock2, clock1]) h2

theorem wp_timed {β : Type} {S : Key → Prop} (answered : ¬E.lossy)
    (time : ¬S (.location mall_id.toInt mac .time))
    (set : ¬S (.locationUpdateTime (dateOf cfg t.toInt) mall_id.toInt)) (h : Does E S os w v)
    {p : UserM β} {Q : Except Exn β → World → Prop}
    (hok : ∀ u : World, u.clock = v.clock → Does E S (os ++ timeOps cfg mac mall_id t) w u →
      p.wp (exec E pid) Q u) :
    (do
      updateMacLocationTime mall_id mac t
      updateLocationUpdateTime cfg mall_id mac t
      p : UserM β).wp (exec E pid) Q v := by
  apply wp_does answered h (by exact time)
  intro _ u1 clock1 h1
  apply wp_does answered h1 (by exact set)
  intro _ u2 clock2 h2
  rw [List.append_assoc] at h2
  exact hok u2 (by rw [clock2, clock1]) h2

theorem own_key {o : StoreOp} {mall : Int} {prop : LocationProp}
    (h : o.key = .location mall mac prop) : ¬IsIdKey o.key := by
  rw [h]
  simp [IsIdKey]

theorem own_timeOps {o : StoreOp} (h : o ∈ timeOps cfg mac mall_id t) : ¬IsIdKey o.key := by
  simp only [timeOps, List.mem_cons, List.not_mem_nil, or_false] at h
  obtain rfl | rfl := h <;> simp [IsIdKey, StoreOp.key]

theorem own_placed {o : StoreOp} (h : o ∈ placeOps mac x y z mall_id ++ timeOps cfg mac mall_id t) :
    ¬IsIdKey o.key := by
  cases List.mem_append.mp h with
  | inl h =>
    obtain ⟨_, -, e⟩ := key_placeOps h
    exact own_key e
  | inr h => exact own_timeOps h

/-- `user_add` from the reading of the clock on. -/
theorem wp_recordSighting_does (pg : E.pg.KeepsUsers) (answers : E.pg.Answers)
    (answered : ¬E.lossy) (agrees : Agrees E w) :
    (recordSighting cfg mac x y z mall_id t).wp (exec E pid) (fun r v => ∀ a, r = .ok a →
      ∃ i, Knows E Aside mac i (addOps cfg mac x y z mall_id i (CBaseMdb.get E.type E.m .time
        (Key.location mall_id.toInt mac .time).text (0 : Int64) w.db) t) w v) w := by
  apply wp_placed (S := Aside) answered (fun _ _ => not_false) (.start w)
  intro u _ placed
  apply wp_does_get answered placed (by simp [Aside])
  have previous : CBaseMdb.get E.type E.m .time (Key.location mall_id.toInt mac .time).text
      (0 : Int64) (after E (placeOps mac x y z mall_id) w.db) = CBaseMdb.get E.type E.m .time
        (Key.location mall_id.toInt mac .time).text (0 : Int64) w.db := by
    apply CBaseMdb.get_congr
    apply after_frame
    intro o ho e
    obtain ⟨prop, ne, key⟩ := key_placeOps ho
    rw [key] at e
    exact ne (Key.location.inj e).2.2
  rw [previous]
  generalize CBaseMdb.get E.type E.m .time (Key.location mall_id.toInt mac .time).text (0 : Int64)
    w.db = prev
  apply wp_timed (S := Aside) answered not_false not_false placed
  intro u1 _ timed
  have log : (userLocationLogAdd cfg mac x y z mall_id t).Every (Within Aside) :=
    every_userLocationLogAdd (fun _ => trivial) trivial (fun _ => trivial) (fun _ => trivial)
      fun _ _ _ => trivial
  refine wp_quiet_throw log (.refl u1) (fun _ u2 same => ?_) fun e _ => not_ok_error e
  apply wp_knows pg answers agrees (timed.quiet same) idKey_not_aside fun o ho => own_placed ho
  · intro i u3 _ known
    apply wp_knows_does answered known (by simp [Aside, StoreOp.key])
      (by simp [IsIdKey, StoreOp.key])
    intro _ u4 _ counted
    have vip : (vipArriveTimeRecord cfg i mall_id prev t).Every (Within Aside) :=
      every_vipArriveTimeRecord trivial trivial
    change (vipArriveTimeRecord cfg i mall_id prev t >>= fun _ => macSetRecord cfg mac mall_id t >>=
      fun _ => pure 0 : UserM Int32).wp (exec E pid) _ u4
    refine wp_quiet_throw vip (.refl u4) (fun _ u5 same => ?_) fun e _ => not_ok_error e
    have daily : (macSetRecord cfg mac mall_id t >>= fun _ => pure 0 : UserM Int32).Every
        (Within Aside) := ⟨within_store trivial, fun _ => trivial⟩
    apply wp_quiet_end daily (fun _ => trivial)
    intro _ u6 same' a _
    exact ⟨i, (counted.quiet same idKey_not_aside).quiet same' idKey_not_aside⟩
  · exact fun e _ => not_ok_error e

/-- One entry of a message. -/
theorem wp_apmacSighting_does (pg : E.pg.KeepsUsers) (answers : E.pg.Answers)
    (answered : ¬E.lossy) (agrees : Agrees E w) {ts : List Int64} (clock : w.clock = t :: ts) :
    (apmacSighting cfg mac).wp (exec E pid) (fun r v => ∀ a, r = .ok a →
      v.clock = ts ∧ ∃ i, Knows E Aside mac i (timeOps cfg mac 2 t) w v) w := by
  intro now v0 read
  obtain ⟨rfl, rest⟩ := List.cons.inj (clock.symm.trans read.1)
  apply wp_timed (S := Aside) answered not_false not_false
    (Does.of_same (w := w) (by rw [read.2]) (by rw [read.2]))
  intro u clock1 timed
  rw [List.nil_append] at timed
  apply wp_knows pg answers agrees timed idKey_not_aside fun o ho => own_timeOps ho
  · intro i u1 clock2 known
    have arrival : (do
        let prev_t ← tairGetUserTime 2 (BitVec.ofNat 48 mac.toNat) .time
        vipArriveTimeRecord cfg i 2 prev_t t : UserM Unit).Every (Within Aside) :=
      (every_get trivial).bind fun _ => every_vipArriveTimeRecord trivial trivial
    apply Prog.wp_mono _ (Prog.wp_and _ (wp_frame arrival u1) (wp_clock arrival u1))
    rintro r v ⟨same, clock3⟩ a _
    exact ⟨by rw [clock3, clock2, clock1, rest], i, known.quiet same idKey_not_aside⟩
  · exact fun e _ => not_ok_error e

end

/-! ## The log -/

structure Place where
  x : Rat
  y : Rat
  z : Int32

/-- A sighting by either path; a message gives no place. -/
structure Record where
  mac : UInt64
  mall_id : Int32
  time : Int64
  place : Option Place

def Sighting.record (s : Sighting) (t : Int64) : Record := ⟨s.mac, s.mall_id, t, some ⟨s.x, s.y, s.z⟩⟩

/-- The sightings of a message, read at the times `ts`, the latest first. -/
def messageRecords (macs : List UInt64) (ts : List Int64) : List Record :=
  ((macs.zip ts).map fun p => ⟨p.1, 2, p.2, none⟩).reverse

/-- Calls of `user_add` and messages of `parse_apmac_msg`, in any order, that have
returned, and the sightings they have recorded, the latest first. -/
inductive Records (E : Env) (cfg : Config) (w0 : World) : List Record → World → Prop
  | start : Records E cfg w0 [] w0
  | add {log : List Record} {w w' : World} {s : Sighting} {t : Int64} {a : Int32}
      (before : Records E cfg w0 log w) (runs : Call E cfg w s t (.ok a) w') :
      Records E cfg w0 (s.record t :: log) w'
  | apmac {log : List Record} {w w' : World} {pid : Nat} {apUninit : Mac}
      {uninit : Nat → Mac} {msg : Text} {ts : List Int64} (before : Records E cfg w0 log w)
      (readings : ts.length = (apmacMacs uninit msg).length)
      (runs : (parseApmacMsg cfg apUninit uninit msg).Runs (exec E pid) { w with clock := ts }
        (.ok ()) w') :
      Records E cfg w0 (messageRecords (apmacMacs uninit msg) ts ++ log) w'

section
variable {E : Env} {cfg : Config} {pid : Nat} {w v : World} {log log' : List Record} {r : Record}

/-- Where and when the user was seen. -/
def sightOps (cfg : Config) (r : Record) : List StoreOp :=
  match r.place with
  | some p => placeOps r.mac p.x p.y p.z r.mall_id ++ timeOps cfg r.mac r.mall_id r.time
  | none => timeOps cfg r.mac r.mall_id r.time

def recordOps (cfg : Config) (r : Record) (i : Int32) (prev : Int64) : List StoreOp :=
  match r.place with
  | some p => addOps cfg r.mac p.x p.y p.z r.mall_id i prev r.time
  | none => timeOps cfg r.mac r.mall_id r.time

/-- The time of the user in the mall, before the sighting. -/
def timeBefore (E : Env) (r : Record) (db : Db) : Int64 :=
  CBaseMdb.get E.type E.m .time (Key.location r.mall_id.toInt r.mac .time).text (0 : Int64) db

/-- The sighting `r` of the user `i` has led from `w` to `v`. -/
def Leaves (E : Env) (cfg : Config) (r : Record) (i : Int32) (w v : World) : Prop :=
  Knows E Aside r.mac i (recordOps cfg r i (timeBefore E r w.db)) w v

/-- What one sighting keeps, a run keeps. -/
structure Kept (E : Env) (cfg : Config) (P : List Record → World → Prop) : Prop where
  same : ∀ log w v, v.db = w.db → v.users = w.users → P log w → P log v
  step : ∀ log r i w v, P log w → Agrees E w → Leaves E cfg r i w v → P (r :: log) v

variable {P : List Record → World → Prop}

theorem Kept.apmacSightings (kept : Kept E cfg P) (pg : E.pg.KeepsUsers) (answers : E.pg.Answers)
    (answered : ¬E.lossy) {macs : List UInt64} {ts : List Int64} (h : P log w)
    (agrees : Agrees E w) (readings : ts.length = macs.length) (clock : w.clock = ts) :
    (apmacSightings cfg macs).wp (exec E pid) (fun x v => ∀ a, x = .ok a →
      P (messageRecords macs ts ++ log) v ∧ Agrees E v) w := by
  induction macs generalizing log w ts with
  | nil =>
    obtain rfl := List.length_eq_zero_iff.mp readings
    exact fun _ _ => ⟨h, agrees⟩
  | cons mac macs ih =>
    cases ts with
    | nil => cases readings
    | cons t ts =>
      apply Prog.wp_seq _ (wp_apmacSighting_does pg answers answered agrees clock)
      · intro _ v done
        obtain ⟨clock', i, known⟩ := done () rfl
        have next : P (⟨mac, 2, t, none⟩ :: log) v :=
          kept.step log ⟨mac, 2, t, none⟩ i w v h agrees known
        have rest := ih next known.agrees (by simpa using readings) clock'
        simpa [messageRecords] using rest
      · exact fun e _ _ => not_ok_error e

theorem Records.keep (kept : Kept E cfg P) (pg : E.pg.KeepsUsers) (answers : E.pg.Answers)
    (answered : ¬E.lossy) {w0 : World} (agrees : Agrees E w0) (start : P [] w0)
    (run : Records E cfg w0 log w) : P log w ∧ Agrees E w := by
  induction run with
  | start => exact ⟨start, agrees⟩
  | @add log w w' s t a _ runs ih =>
    obtain ⟨h, agrees⟩ := ih
    apply runs.post (Q := fun x w' => ∀ a, x = .ok a → P (s.record t :: log) w' ∧ Agrees E w') _ _
      a rfl
    apply wp_userAdd (t := t) rfl fun _ _ _ _ => not_ok_error _
    intro v db users _
    apply Prog.wp_mono _ (wp_recordSighting_does pg answers answered (agrees.of_same db users))
    intro x u done a ended
    obtain ⟨i, known⟩ := done a ended
    exact ⟨kept.step log (s.record t) i v u (kept.same log w v db users h)
      (agrees.of_same db users) known, known.agrees⟩
  | @apmac log w w' pid apUninit uninit msg ts _ readings runs ih =>
    obtain ⟨h, agrees⟩ := ih
    apply runs.post (Q := fun x w' => ∀ a, x = .ok a →
      P (messageRecords (apmacMacs uninit msg) ts ++ log) w' ∧ Agrees E w') _ _ () rfl
    intro ok v hinit
    obtain ⟨db, users, clock, -⟩ := exec_init hinit
    cases ok with
    | false => exact not_ok_error _
    | true =>
      intro shop v' hshop
      obtain rfl : v' = v := hshop
      exact kept.apmacSightings pg answers answered (kept.same log w v' db users h)
        (agrees.of_same db users) readings clock

/-! ## The properties of users -/

/-- What a sighting stores under a property, if anything. -/
def Record.stored (E : Env) (r : Record) : LocationProp → Option Val
  | .time => some (CBaseMdb.encode E.type E.m .time r.time)
  | .x => r.place.map fun p => CBaseMdb.encode E.type E.m .double p.x
  | .y => r.place.map fun p => CBaseMdb.encode E.type E.m .double p.y
  | .z => r.place.bind fun p =>
    if p.z ≠ INT_MIN then some (CBaseMdb.encode E.type E.m .int p.z) else none

def lastStored (E : Env) (mall_id : Int32) (mac : UInt64) (prop : LocationProp)
    (log : List Record) : Option Val :=
  log.findSome? fun r => if r.mall_id = mall_id ∧ r.mac = mac then r.stored E prop else none

theorem after_timeOps (mac : UInt64) (mall_id : Int32) (t : Int64) (db : Db) :
    after E (timeOps cfg mac mall_id t) db (Key.location mall_id.toInt mac .time).text =
      some (CBaseMdb.encode E.type E.m .time t) := by
  have only := after_at (E := E) [] (.set .time (.location mall_id.toInt mac .time) t)
    [.zadd (.locationUpdateTime (dateOf cfg t.toInt) mall_id.toInt) t (Key.macText mac)]
    (by simp) (by simp [StoreOp.key]) db
  rw [StoreOp.run_set (by decide)] at only
  exact only.trans (Db.put_self _ _ _)

theorem after_timeOps_frame {mac : UInt64} {mall_id : Int32} {t : Int64} {k : Key} {db : Db}
    (time : k ≠ .location mall_id.toInt mac .time)
    (set : k ≠ .locationUpdateTime (dateOf cfg t.toInt) mall_id.toInt) :
    after E (timeOps cfg mac mall_id t) db k.text = db k.text := by
  apply after_frame
  intro o ho
  simp only [timeOps, List.mem_cons, List.not_mem_nil, or_false] at ho
  obtain rfl | rfl := ho
  · exact Ne.symm time
  · exact Ne.symm set

theorem after_placeOps (mac : UInt64) (p : Place) (mall_id : Int32) {prop : LocationProp}
    (ne : prop ≠ .time) (t : Int64) (db : Db) :
    after E (placeOps mac p.x p.y p.z mall_id) db (Key.location mall_id.toInt mac prop).text =
      ((⟨mac, mall_id, t, some p⟩ : Record).stored E prop).or
        (db (Key.location mall_id.toInt mac prop).text) := by
  have double : Ty.double ≠ .string := by decide
  have int : Ty.int ≠ .string := by decide
  unfold placeOps
  cases prop with
  | x =>
    split <;> simp [Record.stored, StoreOp.run_set double, StoreOp.run_set int, Db.put, Function.update,
      Key.text_inj]
  | y =>
    split <;> simp [Record.stored, StoreOp.run_set double, StoreOp.run_set int, Db.put, Function.update,
      Key.text_inj]
  | z =>
    split <;> simp_all [Record.stored, StoreOp.run_set double, StoreOp.run_set int, Db.put,
      Function.update, Key.text_inj]
  | time => exact absurd rfl ne

/-- `user_add` counts in a record of its own. -/
theorem after_recordOps {i : Int32} {prev : Int64} {k : Key} {db : Db}
    (counter : ∀ date mall_id i, k ≠ .userDuration date mall_id i) :
    after E (recordOps cfg r i prev) db k.text = after E (sightOps cfg r) db k.text := by
  obtain ⟨mac, mall_id, t, place⟩ := r
  cases place with
  | none => rfl
  | some p =>
    change after E (sightOps cfg ⟨mac, mall_id, t, some p⟩ ++ [.incr _ _]) db k.text = _
    rw [after_append]
    apply after_frame
    intro o ho
    rw [List.mem_singleton.mp ho]
    exact Ne.symm (counter _ _ _)

theorem key_recordOps {i : Int32} {prev : Int64} {o : StoreOp} (h : o ∈ recordOps cfg r i prev) :
    (∃ prop, o.key = .location r.mall_id.toInt r.mac prop) ∨
      o.key = .locationUpdateTime (dateOf cfg r.time.toInt) r.mall_id.toInt ∨
      r.place.isSome = true ∧
        o.key = .userDuration (dateOf cfg r.time.toInt) r.mall_id.toInt i.toInt := by
  have timed {o : StoreOp} (h : o ∈ timeOps cfg r.mac r.mall_id r.time) :
      (∃ prop, o.key = .location r.mall_id.toInt r.mac prop) ∨
        o.key = .locationUpdateTime (dateOf cfg r.time.toInt) r.mall_id.toInt := by
    simp only [timeOps, List.mem_cons, List.not_mem_nil, or_false] at h
    obtain rfl | rfl := h
    · exact Or.inl ⟨_, rfl⟩
    · exact Or.inr rfl
  unfold recordOps at h
  split at h
  · rename_i p place
    cases List.mem_append.mp h with
    | inl h =>
      cases List.mem_append.mp h with
      | inl h =>
        obtain ⟨prop, -, key⟩ := key_placeOps h
        exact Or.inl ⟨prop, key⟩
      | inr h => exact (timed h).imp_right Or.inl
    | inr h =>
      rw [List.mem_singleton.mp h]
      exact Or.inr (Or.inr ⟨by simp [place], rfl⟩)
  · exact (timed h).imp_right Or.inl

theorem key_sightOps {o : StoreOp} (h : o ∈ sightOps cfg r) :
    (∃ prop, o.key = .location r.mall_id.toInt r.mac prop) ∨
      o.key = .locationUpdateTime (dateOf cfg r.time.toInt) r.mall_id.toInt := by
  have recorded : o ∈ recordOps cfg r 0 0 ∧ ∀ date mall_id i, o.key ≠ .userDuration date mall_id i := by
    obtain ⟨mac, mall_id, t, place⟩ := r
    have timed {o : StoreOp} (h : o ∈ timeOps cfg mac mall_id t) (date mall_id i) :
        o.key ≠ .userDuration date mall_id i := by
      simp only [timeOps, List.mem_cons, List.not_mem_nil, or_false] at h
      obtain rfl | rfl := h <;> simp [StoreOp.key]
    cases place with
    | none => exact ⟨h, timed h⟩
    | some p =>
      refine ⟨List.mem_append_left _ h, fun date mall_id i => ?_⟩
      cases List.mem_append.mp h with
      | inl h =>
        obtain ⟨prop, -, key⟩ := key_placeOps h
        simp [key]
      | inr h => exact timed h date mall_id i
  rcases key_recordOps recorded.1 with located | listed | ⟨-, counted⟩
  · exact Or.inl located
  · exact Or.inr listed
  · exact absurd counted (recorded.2 _ _ _)

theorem after_sightOps_location {mall_id : Int32} {mac : UInt64} {prop : LocationProp} {db : Db} :
    after E (sightOps cfg r) db (Key.location mall_id.toInt mac prop).text =
      (if r.mall_id = mall_id ∧ r.mac = mac then r.stored E prop else none).or
        (db (Key.location mall_id.toInt mac prop).text) := by
  by_cases mine : r.mall_id = mall_id ∧ r.mac = mac
  · obtain ⟨rfl, rfl⟩ := mine
    rw [if_pos ⟨rfl, rfl⟩]
    obtain ⟨mac, mall_id, t, place⟩ := r
    by_cases time : prop = .time
    · subst time
      cases place with
      | none => exact after_timeOps mac mall_id t db
      | some p => exact (congrFun (after_append _ _ db) _).trans (after_timeOps mac mall_id t _)
    · have frame (db : Db) : after E (timeOps cfg mac mall_id t) db
          (Key.location mall_id.toInt mac prop).text =
          db (Key.location mall_id.toInt mac prop).text :=
        after_timeOps_frame (by simpa using time) (by simp)
      cases place with
      | none =>
        have nothing : (⟨mac, mall_id, t, none⟩ : Record).stored E prop = none := by
          cases prop <;> first | rfl | exact absurd rfl time
        rw [nothing]
        exact frame db
      | some p =>
        rw [sightOps, after_append, frame, after_placeOps mac p mall_id time t]
  · rw [if_neg mine, Option.none_or]
    apply after_frame
    intro o ho e
    rcases key_sightOps ho with ⟨prop', key⟩ | key
    · rw [key] at e
      obtain ⟨mall, mac, -⟩ := Key.location.inj e
      exact mine ⟨Int32.toInt_inj.mp mall, mac⟩
    · rw [key] at e
      cases e

/-- The records that do not tell where and when a user was seen. -/
def Unsighted : Key → Prop
  | .location .. | .locationUpdateTime .. => False
  | _ => True

/-- The properties of the users are those stored last in the run. -/
def Stored (E : Env) (log : List Record) (w : World) : Prop :=
  ∀ (mall_id : Int32) (mac : UInt64) (prop : LocationProp),
    w.db (Key.location mall_id.toInt mac prop).text = lastStored E mall_id mac prop log

theorem Stored.sighted (h : Stored E log w) (does : Does E Unsighted (sightOps cfg r) w v) :
    Stored E (r :: log) v := by
  intro mall_id mac prop
  rw [does.db (.location mall_id.toInt mac prop) not_false, after_sightOps_location, h mall_id mac prop, lastStored, lastStored,
    List.findSome?_cons]
  cases (if r.mall_id = mall_id ∧ r.mac = mac then r.stored E prop else none) <;> rfl

theorem Stored.of_db (h : Stored E log w) (db : v.db = w.db) : Stored E log v := by
  intro mall_id mac prop
  rw [db]
  exact h mall_id mac prop

theorem Leaves.sighted {i : Int32} (leaves : Leaves E cfg r i w v) :
    Does E Unsighted (sightOps cfg r) w v where
  db k hk := by
    have mine : ¬Aside k ∧ ¬IsIdKey k ∧ ∀ date mall_id i, k ≠ .userDuration date mall_id i := by
      cases k <;> simp_all [Unsighted, Aside, IsIdKey]
    rw [leaves.db k mine.1 mine.2.1, after_recordOps mine.2.2]
  users out := absurd trivial (out 0)

/-! ## Over a connection -/

/-- `user_add` up to the drawing of an id for the log. -/
def recordPlace (cfg : Config) (mac : UInt64) (x y : Rat) (z mall_id : Int32) (t : Int64) :
    UserM Int64 := do
  tairSetUserProp .double mall_id mac .x x
  tairSetUserProp .double mall_id mac .y y
  whenM (z ≠ INT_MIN) (tairSetUserProp .int mall_id mac .z z)
  let t_pre_time ← tairGetUserProp .time mall_id mac .time (0 : Int64)
  updateMacLocationTime mall_id mac t
  updateLocationUpdateTime cfg mall_id mac t
  pure t_pre_time

variable {mac : UInt64} {x y : Rat} {z mall_id : Int32} {t : Int64}

theorem recordSighting_eq : recordSighting cfg mac x y z mall_id t =
    (recordPlace cfg mac x y z mall_id t >>= fun t_pre_time => do
      userLocationLogAdd cfg mac x y z mall_id t
      creditUser cfg mac mall_id t_pre_time t) := by
  simp only [recordSighting, recordPlace, Prog.bind_assoc]
  rfl

theorem taken_recordPlace : (recordPlace cfg mac x y z mall_id t).Every fun c => ¬c.Severs E := by
  apply taken_of_steady
  · exact (conforming_set rfl).bind fun _ => (conforming_set rfl).bind fun _ =>
      (conforming_whenM (conforming_set rfl)).bind fun _ => (conforming_get rfl).bind fun _ =>
        (conforming_set rfl).bind fun _ =>
          (conforming_zadd rfl (Key.isWord_macText mac)).bind fun _ => trivial
  · exact (every_set trivial).bind fun _ => (every_set trivial).bind fun _ =>
      (every_whenM fun _ => every_set trivial).bind fun _ => (every_get trivial).bind fun _ =>
        (every_set trivial).bind fun _ => (every_zadd trivial).bind fun _ => trivial

theorem wp_recordPlace (answered : ¬E.lossy) :
    (recordPlace cfg mac x y z mall_id t).wp (exec E pid) (fun _ v =>
      Does E Unsighted (placeOps mac x y z mall_id ++ timeOps cfg mac mall_id t) w v) w := by
  apply wp_placed (S := Unsighted) answered (fun _ _ => not_false) (.start w)
  intro u _ placed
  apply wp_does_get answered placed (by simp [Unsighted])
  apply wp_timed (S := Unsighted) answered not_false not_false placed
  exact fun u _ timed => timed

/-- Once the place and the time are recorded, it does not matter to them whether the
connection is lost. -/
theorem wp_userAdd_sighted (answered : ¬E.lossy) {s : Sighting} {v : Linked}
    (sound : v.err s.pid = false) (clock : v.world.clock = [t]) :
    (s.start cfg).wp (linked E s.pid) (fun r v' => ∀ a, r = .ok a →
      Does E Unsighted (sightOps cfg (s.record t)) v.world v'.world) v := by
  intro ok v1 begun
  obtain ⟨started, err1⟩ := (linked_other (by simp)).mp begun
  cases ok with
  | false => exact not_ok_error _
  | true =>
    obtain ⟨db1, users1, clock1, -⟩ := exec_init started
    intro now v2 asked
    obtain ⟨⟨reading, rest⟩, err2⟩ := (linked_other (by simp)).mp asked
    obtain ⟨rfl, -⟩ := List.cons.inj ((clock.symm.trans clock1.symm).trans reading)
    have db2 : v2.world.db = v.world.db := by rw [rest, ← db1]
    have sound2 : v2.err s.pid = false := by rw [err2, err1, sound]
    change (recordSighting cfg s.mac s.x s.y s.z s.mall_id t).wp (linked E s.pid) _ v2
    rw [recordSighting_eq]
    apply Prog.wp_seq _ (wp_linked taken_recordPlace sound2 (wp_recordPlace answered))
    · rintro t_pre u ⟨placed, -⟩
      have aside : (do
          userLocationLogAdd cfg s.mac s.x s.y s.z s.mall_id t
          creditUser cfg s.mac s.mall_id t_pre t).Every (Within Unsighted) :=
        (every_userLocationLogAdd (fun _ => trivial) trivial (fun _ => trivial) (fun _ => trivial)
          fun _ _ _ => trivial).bind fun _ => every_creditUser trivial (fun _ => trivial)
            (fun _ _ => trivial) (fun _ => trivial) trivial fun _ => trivial
      apply Prog.wp_mono _ (wp_linkedFrame aside u)
      intro r v' same a _
      constructor
      · intro k hk
        rw [same k hk, placed.db k hk, db2]
        rfl
      · exact fun out => absurd trivial (out 0)
    · exact fun e _ _ => not_ok_error e

end

/-! ## Runs to compute with -/

theorem Records.addAt {w0 w w' : World} {log : List Record} (before : Records fullEnv everyone w0 log w)
    {t : Int64} {a : Int32} (h : UserMap.addAt t w = some (.ok a, w')) :
    Records fullEnv everyone w0 ((sightingOf 5).record t :: log) w' :=
  before.add (s := sightingOf 5) (Prog.runs_eval _ exec_answerFull h)

theorem Records.messageAt {w0 w w' : World} {log : List Record}
    (before : Records fullEnv everyone w0 log w) {t : Int64}
    (h : UserMap.messageAt t w = some (.ok (), w')) :
    Records fullEnv everyone w0 (⟨5, 2, t, none⟩ :: log) w' := by
  have macs : apmacMacs (fun _ _ => 0) apmacOfFive = [5] := by decide +kernel
  have readings : [t].length = (apmacMacs (fun _ _ => 0) apmacOfFive).length := by rw [macs]; rfl
  have run := before.apmac readings (Prog.runs_eval _ exec_answerFull h)
  rw [macs] at run
  exact run

end UserMap

end SimpleDsp
