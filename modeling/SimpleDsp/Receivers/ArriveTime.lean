import SimpleDsp.Lib.Visits
import SimpleDsp.Receivers.MacNumbers
import SimpleDsp.UserMap.Connections
import SimpleDsp.UserMap.Effects

/-!
# Mall arrival times

Calls of `user_add` for mall 2 and messages of `parse_apmac_msg`, one after the
other, as long as no connection is lost. Both paths record sightings and both set
`user.vip:2:arrive.time`.

* `Sees`: what a sighting does, given the time it takes for the one before;
* `VisitInv`: what the store knows of the log of sightings;
* `arrive_time_is_visit_start_iff`: when the score is the start of the visit.
-/

namespace SimpleDsp

open DecimalText Programs Visits

namespace UserMap

open Prog (call)

/-! ## The receiver -/

def apmacGetShopid (mac : UInt64) : UserM Int32 := do
  userMapInit
  call (Cmd.apmacGetShopid mac)

/-- `(strlen(msg) - offset + 1) / 19`, an unsigned number made an `int`. -/
def numMacs (offset : Nat) (msg : Text) : Int32 :=
  Int32.ofInt ((UInt64.ofNat msg.length - UInt64.ofNat offset + 1) / 19).toNat

def apmacMacs (uninit : Nat → Mac) (msg : Text) : List UInt64 :=
  (List.range (numMacs 30 msg).toInt.toNat).map fun i => apmacEntry (uninit i) msg i

section
variable (cfg : Config)

/-- The body of the loop. -/
def apmacSighting (mac : UInt64) : UserM Unit := do
  let now ← call .time
  updateMacLocationTime 2 mac now
  updateLocationUpdateTime cfg 2 mac now
  let user_id ← userGetId mac
  let prev_t ← tairGetUserTime 2 (BitVec.ofNat 48 mac.toNat) .time
  vipArriveTimeRecord cfg user_id 2 prev_t now

def apmacSightings : List UInt64 → UserM Unit
  | [] => pure ()
  | mac :: macs => do
    apmacSighting cfg mac
    apmacSightings macs

/-- The shop of the access point is asked for and not used. -/
def parseApmacMsg (apUninit : Mac) (uninit : Nat → Mac) (msg : Text) : UserM Unit := do
  let _ ← apmacGetShopid (strToUint64 apUninit (msg.drop 6))
  apmacSightings cfg (apmacMacs uninit msg)

end

section
variable {cfg : Config} {mac : UInt64}

theorem conforming_apmacGetShopid : Conforming (apmacGetShopid mac) :=
  conforming_userMapInit.bind fun _ => ⟨trivial, fun _ => trivial⟩

/-- What follows the reading of the clock. -/
theorem conforming_apmacBody {now : Int64} : Conforming (do
    updateMacLocationTime 2 mac now
    updateLocationUpdateTime cfg 2 mac now
    let user_id ← userGetId mac
    let prev_t ← tairGetUserTime 2 (BitVec.ofNat 48 mac.toNat) .time
    vipArriveTimeRecord cfg user_id 2 prev_t now) := by
  apply (conforming_set rfl).bind
  intro _
  apply (conforming_zadd rfl (Key.isWord_macText mac)).bind
  intro _
  apply conforming_userGetId.bind
  intro user_id
  exact (conforming_get rfl).bind fun _ => conforming_vipArriveTimeRecord

theorem conforming_apmacSightings (macs : List UInt64) : Conforming (apmacSightings cfg macs) := by
  induction macs with
  | nil => trivial
  | cons mac macs ih =>
    have sighting : Conforming (apmacSighting cfg mac) :=
      ⟨trivial, fun _ => conforming_apmacBody⟩
    exact sighting.bind fun _ => ih

/-- The messages of access points send nothing that hiredis rejects. -/
theorem taken_parseApmacMsg {E : Env} {apUninit : Mac} {uninit : Nat → Mac} {msg : Text} :
    (parseApmacMsg cfg apUninit uninit msg).Every fun c => ¬c.Severs E := by
  have shop : (apmacGetShopid (strToUint64 apUninit (msg.drop 6))).Every fun c => ¬c.Severs E :=
    (taken_of_steady conforming_userMapInit every_userMapInit).bind fun _ =>
      ⟨not_false, fun _ => trivial⟩
  have sightings (macs : List UInt64) :
      (apmacSightings cfg macs).Every fun c => ¬c.Severs E := by
    induction macs with
    | nil => trivial
    | cons mac macs ih =>
      have sighting : (apmacSighting cfg mac).Every fun c => ¬c.Severs E := by
        refine ⟨not_false, fun now => taken_of_steady conforming_apmacBody ?_⟩
        exact (every_set trivial).bind fun _ => (every_zadd trivial).bind fun _ =>
          (every_userGetId trivial fun _ => trivial).bind fun _ => (every_get trivial).bind
            fun _ => every_vipArriveTimeRecord trivial trivial
      exact sighting.bind fun _ => ih
  exact shop.bind fun _ => sightings _

end

/-! ## One sighting -/

section
variable {E : Env} {cfg : Config} {pid : Nat} {mac : UInt64} {w : World}

/-- The records that matter for the time of arrival, and those of the user ids. -/
def IsVisit : Key → Bool
  | .location _ _ prop => prop = .time
  | .locationHex .. | .isMallVip .. | .vipArriveTime _ | .userId _ | .userMac _ => true
  | _ => false

def NotVisit (k : Key) : Prop := IsVisit k = false

abbrev timeKey (mac : UInt64) : Key := .location (2 : Int32).toInt mac .time

abbrev arriveKey : Key := .vipArriveTime (2 : Int32).toInt

/-- `check_vip == 0 || is_mall_vip(user_id, 2)` -/
def IsVip (E : Env) (cfg : Config) (db : Db) (user_id : Int32) : Prop :=
  cfg.check_vip = 0 ∨
    CBaseMdb.get E.type E.m .int (Key.isMallVip (2 : Int32).toInt user_id.toInt).text 0 db ≠ 0

instance (E : Env) (cfg : Config) (db : Db) (user_id : Int32) :
    Decidable (IsVip E cfg db user_id) :=
  inferInstanceAs (Decidable (_ ∨ ¬(_ : Int32) = 0))

/-- After the sighting's time is set: nothing else has changed so far. -/
structure Marked (E : Env) (mac : UInt64) (t : Int64) (w v : World) : Prop where
  time : v.db (timeKey mac).text = some (CBaseMdb.encode E.type E.m .time t)
  others : ∀ k, IsVisit k = true → k ≠ timeKey mac → v.db k.text = w.db k.text
  users : v.users = w.users

/-- After `user_get_id` in addition. -/
structure Identified (E : Env) (mac : UInt64) (t : Int64) (user_id : Int32) (w v : World) :
    Prop where
  agrees : Agrees E v
  grows : w.users.Grows v.users
  row : v.users mac = some user_id.toInt
  time : v.db (timeKey mac).text = some (CBaseMdb.encode E.type E.m .time t)
  others : ∀ k, IsVisit k = true → ¬IsIdKey k → k ≠ timeKey mac → v.db k.text = w.db k.text

/-- What a sighting at `t` does, when the one before was at `prev`. -/
structure Sees (E : Env) (cfg : Config) (mac : UInt64) (prev t : Int64) (user_id : Int32)
    (w v : World) : Prop where
  agrees : Agrees E v
  grows : w.users.Grows v.users
  row : v.users mac = some user_id.toInt
  time : v.db (timeKey mac).text = some (CBaseMdb.encode E.type E.m .time t)
  arrive : v.db arriveKey.text =
    if cfg.max_in_shop_gap.toInt < t.toInt - prev.toInt ∧ IsVip E cfg w.db user_id then
      CBaseMdb.addScore (CBaseMdb.storedWord E.type (decimal user_id.toInt)) t.toInt
        (w.db arriveKey.text)
    else w.db arriveKey.text
  others : ∀ k, IsVisit k = true → ¬IsIdKey k → k ≠ timeKey mac → k ≠ arriveKey →
    v.db k.text = w.db k.text

variable {t prev : Int64} {user_id : Int32} {v u : World}

theorem Marked.after (h : Marked E mac t w v) (same : Unchanged NotVisit v u) :
    Marked E mac t w u where
  time := by rw [same.db _ (by simp [NotVisit, IsVisit]), h.time]
  others k hk ne := by rw [same.db _ (by simp [NotVisit, hk]), h.others k hk ne]
  users := by rw [same.users fun _ => by simp [NotVisit, IsVisit], h.users]

theorem Identified.after {S : Key → Prop} (h : Identified E mac t user_id w v)
    (same : Unchanged S v u) (out : ∀ k, IsVisit k = true → ¬S k) :
    Identified E mac t user_id w u where
  agrees := by
    apply h.agrees.of_unchanged same
    rintro k (⟨mac, rfl⟩ | ⟨id, rfl⟩)
    · exact out _ rfl
    · exact out _ rfl
  grows := by
    rw [same.users fun mac => out _ rfl]
    exact h.grows
  row := by
    rw [same.users fun mac => out _ rfl]
    exact h.row
  time := by rw [same.db _ (out _ rfl), h.time]
  others k hk nid ne := by rw [same.db _ (out _ hk), h.others k hk nid ne]

theorem Sees.after (h : Sees E cfg mac prev t user_id w v) (same : Unchanged NotVisit v u) :
    Sees E cfg mac prev t user_id w u where
  agrees := by
    apply h.agrees.of_unchanged same
    rintro k (⟨mac, rfl⟩ | ⟨id, rfl⟩) <;> simp [NotVisit, IsVisit]
  grows := by
    rw [same.users fun mac => by simp [NotVisit, IsVisit]]
    exact h.grows
  row := by
    rw [same.users fun mac => by simp [NotVisit, IsVisit]]
    exact h.row
  time := by rw [same.db _ (by simp [NotVisit, IsVisit]), h.time]
  arrive := by rw [same.db _ (by simp [NotVisit, IsVisit]), h.arrive]
  others k hk nid ne ne' := by rw [same.db _ (by simp [NotVisit, hk]), h.others k hk nid ne ne']

theorem wp_vipArriveTimeRecord (answered : ¬E.lossy) {Q : Except Exn Unit → World → Prop}
    (h : ∀ u, Unchanged (fun k => k = arriveKey) v u → u.db arriveKey.text =
      (if cfg.max_in_shop_gap.toInt < t.toInt - prev.toInt ∧ IsVip E cfg v.db user_id then
        CBaseMdb.addScore (CBaseMdb.storedWord E.type (decimal user_id.toInt)) t.toInt
          (v.db arriveKey.text)
      else v.db arriveKey.text) → Q (.ok ()) u) :
    (vipArriveTimeRecord cfg user_id 2 prev t).wp (exec E pid) Q v := by
  have vip : (if cfg.check_vip = 0 then pure true else isMallVip user_id 2 : UserM Bool).wp
      (exec E pid) (fun x u => u = v ∧ ∃ b, x = .ok b ∧ (b = true ↔ IsVip E cfg v.db user_id)) v := by
    split
    · rename_i all
      exact ⟨rfl, true, rfl, by simp [IsVip, all]⟩
    · rename_i checked
      intro r u hx
      obtain ⟨hr, rfl⟩ := exec_get answered hx
      refine ⟨rfl, _, rfl, ?_⟩
      rw [hr]
      simp only [decide_eq_true_eq, IsVip, checked, false_or]
  unfold vipArriveTimeRecord whenM
  split
  · rename_i gap
    apply Prog.wp_seq _ vip
    · rintro b u ⟨rfl, b', e, is_vip⟩
      cases e
      split
      · rename_i yes
        intro r u' hx
        have hdb := E.answered_db answered hx.1
        apply h
        · exact ⟨fun k hk => exec_frame hx fun touches => hk touches.symm,
            fun m hm pid => exec_lastSlice hx (fun touches => hm touches.symm) pid,
            fun out => exec_users hx fun mac touches => out mac touches.symm⟩
        · rw [if_pos ⟨gap, is_vip.mp yes⟩, hdb]
          exact CBaseMdb.zadd_word (isWord_decimal _) _ _
      · rename_i no
        apply h u (.refl u)
        rw [if_neg]
        exact fun both => no (is_vip.mpr both.2)
    · rintro e u ⟨_, b, ok, _⟩
      cases ok
  · rename_i near
    apply h v (.refl v)
    rw [if_neg]
    exact fun both => near both.1

theorem wp_identified (pg : E.pg.KeepsUsers) (answers : E.pg.Answers) (agrees : Agrees E w)
    (h : Marked E mac t w v) {β : Type} {f : Int32 → UserM β} {Q : Except Exn β → World → Prop}
    (hok : ∀ i u, Identified E mac t i w u → (f i).wp (exec E pid) Q u)
    (herr : ∀ e u, Q (.error e) u) : (userGetId mac >>= f).wp (exec E pid) Q v := by
  have agrees' : Agrees E v := by
    constructor
    · rw [h.users]
      exact agrees.valid
    · intro mac
      rw [h.users, h.others _ rfl (by simp)]
      exact agrees.id_entry mac
    · intro id
      rw [h.users, h.others _ rfl (by simp)]
      exact agrees.mac_entry id
  apply Prog.wp_seq _ (wp_userGetId pg answers agrees')
  · rintro i u ⟨agrees'', grows, same, row⟩
    apply hok
    refine ⟨agrees'', ?_, row i rfl, ?_, fun k hk nid ne => ?_⟩
    · rw [← h.users]
      exact grows
    · rw [same.db _ (by simp [IsIdKey]), h.time]
    · rw [same.db _ nid, h.others k hk ne]
  · exact fun e u _ => herr e u

/-- The end of a sighting on both paths. -/
theorem wp_sees (answered : ¬E.lossy) (h : Identified E mac t user_id w v)
    {Q : Except Exn Unit → World → Prop}
    (hok : ∀ u, Sees E cfg mac prev t user_id w u → Q (.ok ()) u) :
    (vipArriveTimeRecord cfg user_id 2 prev t).wp (exec E pid) Q v := by
  apply wp_vipArriveTimeRecord answered
  intro u same arrive
  apply hok
  have vip : IsVip E cfg v.db user_id ↔ IsVip E cfg w.db user_id := by
    have flag := h.others (.isMallVip (2 : Int32).toInt user_id.toInt) rfl (by simp [IsIdKey])
      (by simp)
    simp only [IsVip, CBaseMdb.get_congr flag]
  have before := h.others arriveKey rfl (by simp [IsIdKey]) (by simp)
  exact {
    agrees := h.agrees.of_unchanged same (by rintro k (⟨mac, rfl⟩ | ⟨id, rfl⟩) <;> simp)
    grows := by
      rw [same.users (by simp)]
      exact h.grows
    row := by
      rw [same.users (by simp)]
      exact h.row
    time := by rw [same.db _ (by simp), h.time]
    arrive := by
      rw [arrive, before]
      simp only [vip]
    others := fun k hk nid ne ne' => by rw [same.db k ne', h.others k hk nid ne] }

/-- The time of the sighting is set; what comes before stays off the records. -/
theorem marked_of_set (before : Unchanged NotVisit w v)
    (hdb : u.db = v.db.put (timeKey mac).text (CBaseMdb.encode E.type E.m .time t))
    (users : u.users = v.users) : Marked E mac t w u where
  time := by rw [hdb, Db.put_self]
  others k hk ne := by
    rw [hdb, Db.put_of_ne (by simpa using ne), before.db _ (by simp [NotVisit, hk])]
  users := by rw [users, before.users fun _ => by simp [NotVisit, IsVisit]]

theorem every_userLocationLogAdd {S : Key → Prop} {x y : Rat} {z mall_id : Int32}
    (hcounter : ∀ s, S (.logCounter mall_id.toInt s)) (htime : S (.logDataTimeSet mall_id.toInt))
    (hmac : ∀ s, S (.logMacSet mall_id.toInt s)) (hset : ∀ s, S (.logLocLogSet mall_id.toInt s mac))
    (hentry : ∀ s id prop, S (.logEntry mall_id.toInt s id prop)) :
    (userLocationLogAdd cfg mac x y z mall_id t).Every (Within S) :=
  (every_incr (hcounter _)).bind fun _ => every_saveSighting htime (hmac _) (hset _) fun _ =>
    hentry _ _ _

/-- `user_add` takes the time it reads under the same key. -/
theorem wp_recordSighting_sees (pg : E.pg.KeepsUsers) (answers : E.pg.Answers)
    (answered : ¬E.lossy) (agrees : Agrees E w) {x y : Rat} {z : Int32} :
    (recordSighting cfg mac x y z 2 t).wp (exec E pid) (fun r v => ∀ a, r = .ok a →
      ∃ i, Sees E cfg mac (CBaseMdb.get E.type E.m .time (timeKey mac).text 0 w.db) t i w v) w := by
  refine wp_quiet (S := NotVisit) (every_tairSetUserProp rfl) (fun _ => trivial) (.refl w)
    fun _ v same => ?_
  refine wp_quiet (S := NotVisit) (every_tairSetUserProp rfl) (fun _ => trivial) same
    fun _ v same => ?_
  refine wp_quiet (S := NotVisit) (every_whenM fun _ => every_tairSetUserProp rfl)
    (noThrow_whenM fun _ => trivial) same fun _ v same => ?_
  intro t_pre u hread
  obtain ⟨hpre, rfl⟩ := exec_get answered hread
  have previous : t_pre = CBaseMdb.get E.type E.m .time (timeKey mac).text 0 w.db := by
    rw [hpre]
    exact CBaseMdb.get_congr (same.db (timeKey mac) (by simp [NotVisit, IsVisit]))
  intro r u' hset
  have hdb' := E.answered_db answered hset.1
  rw [StoreOp.run_set (by decide)] at hdb'
  have marked : Marked E mac t w u' := marked_of_set same hdb' (by rw [hset.2])
  change (updateLocationUpdateTime cfg 2 mac t >>= fun _ =>
    userLocationLogAdd cfg mac x y z 2 t >>= fun _ =>
    creditUser cfg mac 2 t_pre t).wp (exec E pid) _ u'
  refine wp_quiet_throw (S := NotVisit) (every_zadd rfl) (.refl u') (fun _ v same => ?_)
    (fun e v a ended => by cases ended)
  have log : (userLocationLogAdd cfg mac x y z 2 t).Every (Within NotVisit) :=
    every_userLocationLogAdd (S := NotVisit) (fun _ => rfl) rfl (fun _ => rfl) (fun _ => rfl)
      fun _ _ _ => rfl
  refine wp_quiet_throw log same (fun _ v same => ?_) (fun e v a ended => by cases ended)
  apply wp_identified pg answers agrees (marked.after same)
  · intro i v1 identified
    refine wp_quiet_throw (S := NotVisit) (every_userDurationAdd fun _ _ => rfl) (.refl v1)
      (fun _ v2 same => ?_) (fun e v a ended => by cases ended)
    rw [Prog.wp_bind]
    apply wp_sees answered (identified.after same fun k hk => by simp [NotVisit, hk])
    intro v3 sees
    have daily : (macSetRecord cfg mac 2 t >>= fun _ => pure 0 : UserM Int32).Every
        (Within NotVisit) := ⟨within_store rfl, fun _ => trivial⟩
    apply wp_quiet_end daily (fun _ => trivial)
    intro _ v4 same a _
    exact ⟨i, previous ▸ sees.after same⟩
  · intro e v a ended
    cases ended

/-- The message path sets the time first and reads the one before from another
key. -/
theorem wp_apmacSighting (pg : E.pg.KeepsUsers) (answers : E.pg.Answers) (answered : ¬E.lossy)
    (agrees : Agrees E w) {ts : List Int64} (clock : w.clock = t :: ts) :
    (apmacSighting cfg mac).wp (exec E pid) (fun r v => ∀ a, r = .ok a → v.clock = ts ∧
      ∃ i, Sees E cfg mac (CBaseMdb.get E.type E.m .time
        (Key.locationHex (2 : Int32).toInt (BitVec.ofNat 48 mac.toNat) .time).text 0 w.db) t i w v)
      w := by
  intro now v0 htime
  have reading : t = now ∧ ts = v0.clock := List.cons.inj (clock.symm.trans htime.1)
  obtain ⟨rfl, rest⟩ := reading
  have db : v0.db = w.db := by rw [htime.2]
  have users : v0.users = w.users := by rw [htime.2]
  have body : (do
      updateMacLocationTime 2 mac t
      updateLocationUpdateTime cfg 2 mac t
      let user_id ← userGetId mac
      let prev_t ← tairGetUserTime 2 (BitVec.ofNat 48 mac.toNat) .time
      vipArriveTimeRecord cfg user_id 2 prev_t t : UserM Unit).wp (exec E pid) (fun r v =>
        ∀ a, r = .ok a → ∃ i, Sees E cfg mac (CBaseMdb.get E.type E.m .time
          (Key.locationHex (2 : Int32).toInt (BitVec.ofNat 48 mac.toNat) .time).text 0 w.db) t i w v)
      v0 := by
    have before : Unchanged NotVisit w v0 :=
      ⟨fun k _ => by rw [db], fun m _ pid => by rw [htime.2]; rfl, fun _ => users⟩
    intro r u hset
    have hdb := E.answered_db answered hset.1
    rw [StoreOp.run_set (by decide)] at hdb
    have marked : Marked E mac t w u := marked_of_set before hdb (by rw [hset.2])
    change (updateLocationUpdateTime cfg 2 mac t >>= fun _ => userGetId mac >>= fun user_id =>
      tairGetUserTime 2 (BitVec.ofNat 48 mac.toNat) .time >>= fun prev_t =>
      vipArriveTimeRecord cfg user_id 2 prev_t t).wp (exec E pid) _ u
    refine wp_quiet_throw (S := NotVisit) (every_zadd rfl) (.refl u) (fun _ v same => ?_)
      (fun e v a ended => by cases ended)
    apply wp_identified pg answers agrees (marked.after same)
    · intro i v1 identified prev v2 hread
      obtain ⟨hprev, rfl⟩ := exec_get answered hread
      have previous : prev = CBaseMdb.get E.type E.m .time
          (Key.locationHex (2 : Int32).toInt (BitVec.ofNat 48 mac.toNat) .time).text 0 w.db := by
        rw [hprev]
        exact CBaseMdb.get_congr (identified.others _ rfl (by simp [IsIdKey]) (by simp))
      rw [← previous]
      apply wp_sees answered identified
      intro v3 sees _ _
      exact ⟨i, sees⟩
    · intro e v a ended
      cases ended
  have timeless : (do
      updateMacLocationTime 2 mac t
      updateLocationUpdateTime cfg 2 mac t
      let user_id ← userGetId mac
      let prev_t ← tairGetUserTime 2 (BitVec.ofNat 48 mac.toNat) .time
      vipArriveTimeRecord cfg user_id 2 prev_t t : UserM Unit).Every (Within fun _ => True) := by
    refine (every_set trivial).bind fun _ => (every_zadd trivial).bind fun _ =>
      (every_userGetId trivial fun _ => trivial).bind fun _ => (every_get trivial).bind fun _ => ?_
    exact every_vipArriveTimeRecord trivial trivial
  apply Prog.wp_mono _ (Prog.wp_and _ body (wp_clock timeless v0))
  rintro r v ⟨sees, clock'⟩ a ended
  exact ⟨clock'.trans rest.symm, sees a ended⟩

end

/-! ## The log of sightings -/

abbrev Gap (cfg : Config) : Int := cfg.max_in_shop_gap.toInt

/-- The member that stands for a user in the sorted set. -/
def memberOf (E : Env) (user_id : Int32) : Text := CBaseMdb.storedWord E.type (decimal user_id.toInt)

theorem memberOf_inj {E : Env} {i j : Int32} : memberOf E i = memberOf E j ↔ i = j := by
  simp [memberOf, (CBaseMdb.storedWord_injective E.type).eq_iff, Int32.toInt_inj]

/-- What the store knows of the sightings so far; `flags` is the store at the
start, which marks the VIPs. -/
structure VisitInv (E : Env) (cfg : Config) (flags : Db) (log : List (Seen UInt64)) (w : World) :
    Prop where
  agrees : Agrees E w
  rows : ∀ s ∈ log, ∃ i : Int32, w.users s.who = some i.toInt
  time : ∀ mac, lastSeen mac log = none ∧ w.db (timeKey mac).text = none ∨
    ∃ t : Int64, lastSeen mac log = some t.toInt ∧
      w.db (timeKey mac).text = some (CBaseMdb.encode E.type E.m .time t)
  hex : ∀ b, w.db (Key.locationHex (2 : Int32).toInt b .time).text = none
  vips : ∀ i, IsVip E cfg w.db i ↔ IsVip E cfg flags i
  scores : ∃ z, zsetAt (w.db arriveKey.text) = some z ∧
    (∀ mac (i : Int32), w.users mac = some i.toInt → IsVip E cfg flags i →
      z.lookup (memberOf E i) = (recorded (Gap cfg) mac log).map Int.cast) ∧
    ∀ x ∈ z, ∃ mac i, w.users mac = some (Int32.toInt i) ∧ x = memberOf E i

section
variable {E : Env} {cfg : Config} {flags : Db} {log : List (Seen UInt64)} {w v : World}
  {mac : UInt64} {prev t : Int64} {user_id : Int32}

theorem VisitInv.of_same (inv : VisitInv E cfg flags log w) (db : v.db = w.db)
    (users : v.users = w.users) : VisitInv E cfg flags log v where
  agrees := inv.agrees.of_same db users
  rows := by rw [users]; exact inv.rows
  time := by rw [db]; exact inv.time
  hex := by rw [db]; exact inv.hex
  vips := by rw [db]; exact inv.vips
  scores := by rw [db, users]; exact inv.scores

/-- The previous time that `user_add` reads. -/
theorem VisitInv.starts_iff (inv : VisitInv E cfg flags log w) (late : Gap cfg < t.toInt) :
    Gap cfg < t.toInt -
        (CBaseMdb.get E.type E.m .time (timeKey mac).text (0 : Int64) w.db : Int64).toInt ↔
      Starts (Gap cfg) ⟨mac, t.toInt, false⟩ log := by
  rcases inv.time mac with ⟨never, none⟩ | ⟨t', last, stored⟩
  · rw [CBaseMdb.get_none none]
    simpa [Starts, never] using late
  · rw [CBaseMdb.get_encode rfl stored]
    simp [Starts, last]

/-- The key of the other path has never been written. -/
theorem VisitInv.hex_zero (inv : VisitInv E cfg flags log w) (b : BitVec 48) :
    CBaseMdb.get E.type E.m .time (Key.locationHex (2 : Int32).toInt b .time).text (0 : Int64) w.db =
      (0 : Int64) :=
  CBaseMdb.get_none (inv.hex b)

/-- A set of ids from PG's table has no score for a user who is new there. -/
theorem lookup_new {z : AList fun _ : Text => Rat}
    (owned : ∀ x ∈ z, ∃ mac i, w.users mac = some (Int32.toInt i) ∧ x = memberOf E i)
    (agrees : Agrees E v) (grows : w.users.Grows v.users) {i : Int32}
    (row : v.users mac = some i.toInt) (new : w.users mac = none) : z.lookup (memberOf E i) = none := by
  rw [AList.lookup_eq_none]
  intro mem
  obtain ⟨mac', j, hj, e⟩ := owned _ mem
  obtain rfl := memberOf_inj.mp e
  obtain rfl := agrees.valid.distinct _ _ _ (grows _ _ hj) row
  rw [new] at hj
  cases hj

/-- Users who are new in PG's table have neither a score nor a sighting. -/
theorem VisitInv.score (inv : VisitInv E cfg flags log w) (agrees : Agrees E v)
    (grows : w.users.Grows v.users) {z : AList fun _ : Text => Rat}
    (hz : zsetAt (w.db arriveKey.text) = some z) {i : Int32} (row : v.users mac = some i.toInt)
    (vip : IsVip E cfg flags i) :
    z.lookup (memberOf E i) = (recorded (Gap cfg) mac log).map Int.cast := by
  obtain ⟨z', hz', known, owned⟩ := inv.scores
  obtain rfl := Option.some.inj (hz.symm.trans hz')
  cases old : w.users mac with
  | some id =>
    obtain rfl := Option.some.inj ((grows _ _ old).symm.trans row)
    exact known mac i old vip
  | none =>
    have absent : ∀ s ∈ log, s.who ≠ mac := by
      rintro s hs rfl
      obtain ⟨j, hj⟩ := inv.rows s hs
      rw [old] at hj
      cases hj
    rw [recorded_of_absent absent]
    exact lookup_new owned agrees grows row old

theorem VisitInv.sees (inv : VisitInv E cfg flags log w) (sees : Sees E cfg mac prev t user_id w v)
    {unchecked : Bool} (starts : Gap cfg < t.toInt - prev.toInt ↔
      unchecked = true ∨ Starts (Gap cfg) ⟨mac, t.toInt, unchecked⟩ log) :
    VisitInv E cfg flags (⟨mac, t.toInt, unchecked⟩ :: log) v := by
  have vips (i : Int32) : IsVip E cfg v.db i ↔ IsVip E cfg w.db i := by
    have flag := sees.others (.isMallVip (2 : Int32).toInt i.toInt) rfl (by simp [IsIdKey])
      (by simp) (by simp)
    simp only [IsVip, CBaseMdb.get_congr flag]
  constructor
  · exact sees.agrees
  · intro s hs
    rcases List.mem_cons.mp hs with rfl | hs
    · exact ⟨user_id, sees.row⟩
    · obtain ⟨i, hi⟩ := inv.rows s hs
      exact ⟨i, sees.grows _ _ hi⟩
  · intro mac'
    by_cases same : mac = mac'
    · subst same
      exact Or.inr ⟨t, by simp [lastSeen], sees.time⟩
    · have skip : lastSeen mac' (⟨mac, t.toInt, unchecked⟩ :: log) = lastSeen mac' log := by
        simp [lastSeen, same]
      rw [skip, sees.others (timeKey mac') rfl (by simp [IsIdKey]) (by simp [Ne.symm same]) (by simp)]
      exact inv.time mac'
  · intro b
    rw [sees.others _ rfl (by simp [IsIdKey]) (by simp) (by simp)]
    exact inv.hex b
  · intro i
    rw [vips, inv.vips]
  · obtain ⟨z, hz, -, owned⟩ := inv.scores
    have old {mac' : UInt64} {i : Int32} (row : v.users mac' = some i.toInt)
        (vip : IsVip E cfg flags i) :
        z.lookup (memberOf E i) = (recorded (Gap cfg) mac' log).map Int.cast :=
      inv.score sees.agrees sees.grows hz row vip
    have kept : ∀ x ∈ z, ∃ mac i, v.users mac = some (Int32.toInt i) ∧ x = memberOf E i := by
      intro x hx
      obtain ⟨mac', i, hi, e⟩ := owned x hx
      exact ⟨mac', i, sees.grows _ _ hi, e⟩
    by_cases new : Gap cfg < t.toInt - prev.toInt ∧ IsVip E cfg w.db user_id
    · refine ⟨z.insert (memberOf E user_id) t.toInt, ?_, ?_, ?_⟩
      · rw [sees.arrive, if_pos new]
        exact CBaseMdb.zsetAt_addScore hz
      · intro mac' i row vip
        by_cases same : mac = mac'
        · subst same
          obtain rfl := Int32.toInt_inj.mp (Option.some.inj (sees.row.symm.trans row))
          simp [recorded, starts.mp new.1]
        · have ne : memberOf E i ≠ memberOf E user_id := by
            rw [Ne, memberOf_inj]
            rintro rfl
            exact same (sees.agrees.valid.distinct _ _ _ sees.row row)
          rw [AList.lookup_insert_ne ne, old row vip]
          simp [recorded, same]
      · intro x hx
        rcases (AList.mem_insert z).mp hx with rfl | hx
        · exact ⟨mac, user_id, sees.row, rfl⟩
        · exact kept x hx
    · refine ⟨z, by rw [sees.arrive, if_neg new, hz], ?_, kept⟩
      intro mac' i row vip
      rw [old row vip]
      by_cases same : mac = mac'
      · subst same
        obtain rfl := Int32.toInt_inj.mp (Option.some.inj (sees.row.symm.trans row))
        have near : ¬(unchecked = true ∨ Starts (Gap cfg) ⟨mac, t.toInt, unchecked⟩ log) :=
          fun yes => new ⟨starts.mpr yes, (inv.vips _).mpr vip⟩
        simp [recorded, near]
      · simp [recorded, same]

end

/-! ## Runs -/

/-- The sightings of a message, read at the times `ts`, the latest first. -/
def seenBy (macs : List UInt64) (ts : List Int64) : List (Seen UInt64) :=
  ((macs.zip ts).map fun p => ⟨p.1, p.2.toInt, true⟩).reverse

/-- A world before any sighting, with the ids that are cached agreeing with PG. -/
structure BeforeVisits (E : Env) (w : World) : Prop where
  agrees : Agrees E w
  time : ∀ mac, w.db (timeKey mac).text = none
  hex : ∀ b, w.db (Key.locationHex (2 : Int32).toInt b .time).text = none
  arrive : w.db arriveKey.text = none

/-- Calls of `user_add` for mall 2 and messages of `parse_apmac_msg`, in any
order, that have returned without losing their connection, and the sightings they
have recorded. -/
inductive Sightings (E : Env) (cfg : Config) (w0 : World) : List (Seen UInt64) → Linked → Prop
  | start : Sightings E cfg w0 [] (.sound w0)
  | add {log : List (Seen UInt64)} {v v' : Linked} {s : Sighting} {t : Int64} {a : Int32}
      (before : Sightings E cfg w0 log v) (mall : s.mall_id = 2)
      (keeps : ¬LosesLink E cfg v.world s t) (runs : LinkedCall E cfg v s t (.ok a) v') :
      Sightings E cfg w0 (⟨s.mac, t.toInt, false⟩ :: log) v'
  | apmac {log : List (Seen UInt64)} {v v' : Linked} {pid : Nat} {apUninit : Mac}
      {uninit : Nat → Mac} {msg : Text} {ts : List Int64} (before : Sightings E cfg w0 log v)
      (readings : ts.length = (apmacMacs uninit msg).length)
      (runs : (parseApmacMsg cfg apUninit uninit msg).Runs (linked E pid) (v.at ts) (.ok ()) v') :
      Sightings E cfg w0 (seenBy (apmacMacs uninit msg) ts ++ log) v'

section
variable {E : Env} {cfg : Config} {flags : Db} {log : List (Seen UInt64)} {w : World} {pid : Nat}

theorem VisitInv.start (before : BeforeVisits E w) : VisitInv E cfg w.db [] w where
  agrees := before.agrees
  rows s hs := by cases hs
  time mac := Or.inl ⟨rfl, before.time mac⟩
  hex := before.hex
  vips _ := Iff.rfl
  scores := ⟨∅, by rw [before.arrive]; rfl, fun _ _ _ _ => rfl, by simp⟩

theorem VisitInv.call (pg : E.pg.KeepsUsers) (answers : E.pg.Answers) (answered : ¬E.lossy)
    (inv : VisitInv E cfg flags log w) {s : Sighting} (mall : s.mall_id = 2) {t : Int64}
    (late : Gap cfg < t.toInt) {a : Int32} {w' : World} (runs : Call E cfg w s t (.ok a) w') :
    VisitInv E cfg flags (⟨s.mac, t.toInt, false⟩ :: log) w' := by
  apply runs.post (Q := fun x w' => ∀ a, x = .ok a →
    VisitInv E cfg flags (⟨s.mac, t.toInt, false⟩ :: log) w') _ _ a rfl
  apply wp_userAdd (t := t) rfl
  · intro v _ _ _ a ended
    cases ended
  · intro v db users _
    have inv' : VisitInv E cfg flags log v := inv.of_same db users
    rw [mall]
    apply Prog.wp_mono _ (wp_recordSighting_sees pg answers answered inv'.agrees)
    intro x u done a ended
    obtain ⟨i, sees⟩ := done a ended
    apply inv'.sees sees
    rw [inv'.starts_iff late]
    simp

theorem wp_apmacSightings (pg : E.pg.KeepsUsers) (answers : E.pg.Answers) (answered : ¬E.lossy)
    {macs : List UInt64} {ts : List Int64} (inv : VisitInv E cfg flags log w)
    (readings : ts.length = macs.length) (clock : w.clock = ts)
    (late : ∀ t ∈ ts, Gap cfg < t.toInt) :
    (apmacSightings cfg macs).wp (exec E pid) (fun x v => ∀ a, x = .ok a →
      VisitInv E cfg flags (seenBy macs ts ++ log) v) w := by
  induction macs generalizing log w ts with
  | nil =>
    obtain rfl := List.length_eq_zero_iff.mp readings
    exact fun _ _ => inv
  | cons mac macs ih =>
    cases ts with
    | nil => cases readings
    | cons t ts =>
      apply Prog.wp_seq _ (wp_apmacSighting pg answers answered inv.agrees clock)
      · intro _ v done
        obtain ⟨clock', i, sees⟩ := done () rfl
        rw [inv.hex_zero] at sees
        have next : VisitInv E cfg flags (⟨mac, t.toInt, true⟩ :: log) v := by
          apply inv.sees sees
          simpa using late t (by simp)
        have rest := ih next (by simpa using readings) clock' fun t' ht' => late t' (by simp [ht'])
        simpa [seenBy] using rest
      · intro e v _ a ended
        cases ended

theorem VisitInv.message (pg : E.pg.KeepsUsers) (answers : E.pg.Answers) (answered : ¬E.lossy)
    (inv : VisitInv E cfg flags log w) {apUninit : Mac} {uninit : Nat → Mac} {msg : Text}
    {ts : List Int64} (readings : ts.length = (apmacMacs uninit msg).length)
    (late : ∀ t ∈ ts, Gap cfg < t.toInt) {w' : World}
    (runs : (parseApmacMsg cfg apUninit uninit msg).Runs (exec E pid) { w with clock := ts }
      (.ok ()) w') : VisitInv E cfg flags (seenBy (apmacMacs uninit msg) ts ++ log) w' := by
  apply runs.post (Q := fun x w' => ∀ a, x = .ok a →
    VisitInv E cfg flags (seenBy (apmacMacs uninit msg) ts ++ log) w') _ _ () rfl
  intro ok v hinit
  obtain ⟨db, users, clock, -⟩ := exec_init hinit
  cases ok with
  | false =>
    intro a ended
    cases ended
  | true =>
    intro shop v' hshop
    obtain rfl : v' = v := hshop
    exact wp_apmacSightings pg answers answered (inv.of_same db users) readings clock late

theorem mem_seenBy {macs : List UInt64} {ts : List Int64} (readings : ts.length = macs.length)
    {t : Int64} (h : t ∈ ts) : ∃ s ∈ seenBy macs ts, s.time = t.toInt := by
  have times : (macs.zip ts).map Prod.snd = ts := List.map_snd_zip (by omega)
  rw [← times] at h
  obtain ⟨p, hp, rfl⟩ := List.mem_map.mp h
  exact ⟨_, List.mem_reverse.mpr (List.mem_map_of_mem hp), rfl⟩

theorem Sightings.links {w0 : World} {v : Linked} (run : Sightings E cfg w0 log v) :
    v.err = fun _ => false := by
  induction run with
  | start => rfl
  | add _ _ keeps runs ih => exact (runs.unlinked (congrFun ih _) keeps).2.trans ih
  | apmac _ _ runs ih => exact (runs.post _ (wp_taken taken_parseApmacMsg _)).trans ih

/-- The store knows of every sighting that any run has recorded. -/
theorem Sightings.inv (pg : E.pg.KeepsUsers) (answers : E.pg.Answers) (answered : ¬E.lossy)
    {w0 : World} (before : BeforeVisits E w0) {v : Linked} (run : Sightings E cfg w0 log v)
    (late : ∀ s ∈ log, Gap cfg < s.time) : VisitInv E cfg w0.db log v.world := by
  induction run with
  | start => exact .start before
  | add earlier mall keeps runs ih =>
    have inv := ih fun s hs => late s (List.mem_cons_of_mem _ hs)
    have call := (runs.unlinked (congrFun earlier.links _) keeps).1
    exact inv.call pg answers answered mall (late _ (List.mem_cons_self ..)) call
  | apmac earlier readings runs ih =>
    have inv := ih fun s hs => late s (List.mem_append_right _ hs)
    have links := (Sightings.apmac earlier readings runs).links
    apply inv.message pg answers answered readings _ (Runs.unlinked runs (congrFun links _)).1
    intro t ht
    obtain ⟨s, hs, e⟩ := mem_seenBy readings ht
    rw [← e]
    exact late s (List.mem_append_left _ hs)

end

/-! ## Runs to compute with -/

/-- A table that stays as it is and has a row for every MAC that is asked for. -/
def fullTable : Pg where
  addUser u mac out u' := u' = u ∧ ∃ id, u mac = some id ∧ out = decimal id
  queryUserId _ _ out := out = []

theorem fullTable_keepsUsers : fullTable.KeepsUsers where
  grows := by
    rintro u mac out u' ⟨rfl, _⟩ m id h
    exact h
  valid := by
    rintro u mac out u' ⟨rfl, _⟩ h
    exact h
  addUser := by
    rintro u mac out u' ⟨rfl, id, row, rfl⟩ _
    exact ⟨id, [], scanInt_decimal_self id, row⟩
  queryUserId := by
    rintro u user_id out rfl some
    exact absurd rfl some

theorem fullTable_answers : fullTable.Answers := by
  rintro u mac out u' ⟨_, id, _, rfl⟩
  exact decimal_ne_nil id

abbrev fullEnv : Env := ⟨.redis, Machine.plain, fullTable, False, Untouched⟩

/-- Everyone's arrival is recorded. -/
def everyone : Config := { firstDay with check_vip := 0 }

/-- The user 7 has MAC 5. -/
def oneUser : Users := fun mac => if mac = 5 then some 7 else none

theorem oneUser_valid : oneUser.Valid where
  pos mac id h := by
    simp only [oneUser, Option.ite_none_right_eq_some, Option.some.injEq] at h
    omega
  distinct mac mac' id h h' := by
    simp only [oneUser, Option.ite_none_right_eq_some] at h h'
    rw [h.1, h'.1]

theorem beforeVisits_fresh : BeforeVisits fullEnv (World.fresh oneUser []) where
  agrees := Agrees.start (World.fresh_is_fresh _ _) oneUser_valid
  time _ := rfl
  hex _ := rfl
  arrive := rfl

def answerFull := answer fullEnv (fun u mac => (u mac).map decimal) (fun _ _ => []) 0

theorem exec_answerFull (c : Cmd) (w : World) (r : c.Reply × World) (h : answerFull c w = some r) :
    exec fullEnv 0 c w r.1 r.2 := by
  refine exec_answer rfl ?_ (fun _ _ => rfl) c w r h
  intro u mac out printed
  obtain ⟨id, row, rfl⟩ := Option.map_eq_some_iff.mp printed
  exact ⟨rfl, id, row, rfl⟩

/-- A message with one entry, of MAC 5. -/
def apmacOfFive : Text := "ApMac:60:cd:a9:00:9a:3a Macs:[00:00:00:00:00:05]".toList

def addAt (t : Int64) (w : World) : Option (Except Exn Int32 × World) :=
  ((sightingOf 5).start everyone).eval answerFull { w with clock := [t] }

def messageAt (t : Int64) (w : World) : Option (Except Exn Unit × World) :=
  (parseApmacMsg everyone (fun _ => 0) (fun _ _ => 0) apmacOfFive).eval answerFull
    { w with clock := [t] }

/-- The same over the connection of the process. -/
def linkedFull := linkedAnswer fullEnv answerFull 0

def addLinked (t : Int64) (v : Linked) : Option (Except Exn Int32 × Linked) :=
  ((sightingOf 5).start everyone).eval linkedFull (v.at [t])

def messageLinked (t : Int64) (v : Linked) : Option (Except Exn Unit × Linked) :=
  (parseApmacMsg everyone (fun _ => 0) (fun _ _ => 0) apmacOfFive).eval linkedFull (v.at [t])

theorem linkedCall_full {t : Int64} {v : Linked} {r : Except Exn Int32 × Linked}
    (h : addLinked t v = some r) : LinkedCall fullEnv everyone v (sightingOf 5) t r.1 r.2 :=
  Prog.runs_eval _ (linked_answer exec_answerFull) h

theorem Sightings.addLinked {w0 : World} {v v' : Linked} {log : List (Seen UInt64)}
    (before : Sightings fullEnv everyone w0 log v) {t : Int64} {a : Int32}
    (taken : formatArgs Machine.plain.stray (timeMember t) ≠ none)
    (h : UserMap.addLinked t v = some (.ok a, v')) :
    Sightings fullEnv everyone w0 (⟨5, t.toInt, false⟩ :: log) v' :=
  before.add (s := sightingOf 5) rfl (fun loses => taken loses.2.2) (linkedCall_full h)

theorem Sightings.messageLinked {w0 : World} {v v' : Linked} {log : List (Seen UInt64)}
    (before : Sightings fullEnv everyone w0 log v) {t : Int64}
    (h : UserMap.messageLinked t v = some (.ok (), v')) :
    Sightings fullEnv everyone w0 (⟨5, t.toInt, true⟩ :: log) v' := by
  have macs : apmacMacs (fun _ _ => 0) apmacOfFive = [5] := by decide +kernel
  have readings : [t].length = (apmacMacs (fun _ _ => 0) apmacOfFive).length := by rw [macs]; rfl
  have run := before.apmac readings (Prog.runs_eval _ (linked_answer exec_answerFull) h)
  rw [macs] at run
  exact run

/-! ## When the score is the start of the visit -/

section
variable {E : Env} {cfg : Config} {log : List (Seen UInt64)} {w : World}

/-- The score of the user `i` is the start of the visit of `mac`. -/
def ScoreIsVisitStart (E : Env) (cfg : Config) (mac : UInt64) (i : Int32)
    (log : List (Seen UInt64)) (w : World) : Prop :=
  ∃ z, zsetAt (w.db arriveKey.text) = some z ∧
    z.lookup (memberOf E i) = (visitStart (Gap cfg) mac log).map Int.cast

/-- As long as no connection is lost, a user's time of arrival is the start of the current
visit exactly when no sighting of a message is later than that start. -/
theorem arrive_time_is_visit_start_iff (pg : E.pg.KeepsUsers) (answers : E.pg.Answers)
    (answered : ¬E.lossy) {w0 : World} (before : BeforeVisits E w0) {v : Linked}
    (run : Sightings E cfg w0 log v) (late : ∀ s ∈ log, Gap cfg < s.time) (rising : Rising log)
    {mac : UInt64} {i : Int32} (row : v.world.users mac = some i.toInt)
    (vip : IsVip E cfg w0.db i) :
    ScoreIsVisitStart E cfg mac i log v.world ↔
      ∀ s ∈ log, s.who = mac → s.unchecked = true →
        ∀ t ∈ visitStart (Gap cfg) mac log, s.time ≤ t := by
  obtain ⟨z, hz, known, -⟩ := (run.inv pg answers answered before late).scores
  rw [← recorded_eq_iff rising]
  constructor
  · rintro ⟨z', hz', start⟩
    obtain rfl := Option.some.inj (hz.symm.trans hz')
    exact Option.map_injective Int.cast_injective ((known mac i row vip).symm.trans start)
  · intro same
    refine ⟨z, hz, ?_⟩
    rw [known mac i row vip, same]

end

/-- Two calls within one visit, and a message that starts another. -/
theorem arrive_time_is_visit_start_iff_two_visits : ∃ v,
    Sightings fullEnv everyone (World.fresh oneUser [])
      [⟨5, 1000, true⟩, ⟨5, 400, false⟩, ⟨5, 300, false⟩] v ∧
    ScoreIsVisitStart fullEnv everyone 5 7
      [⟨5, 1000, true⟩, ⟨5, 400, false⟩, ⟨5, 300, false⟩] v.world := by
  have runs : (addLinked 300 (.sound (World.fresh oneUser []))).bind (fun r =>
      (addLinked 400 r.2).bind fun s =>
        (messageLinked 1000 s.2).map fun u => (r.1, s.1, u.1, u.2.world.users 5)) =
      some (.ok 0, .ok 0, .ok (), some 7) := by decide +kernel
  obtain ⟨⟨x, w1⟩, first, rest⟩ := Option.bind_eq_some_iff.mp runs
  obtain ⟨⟨y, w2⟩, second, rest⟩ := Option.bind_eq_some_iff.mp rest
  obtain ⟨⟨z, w3⟩, third, ends⟩ := Option.map_eq_some_iff.mp rest
  simp only [Prod.mk.injEq] at ends
  obtain ⟨rfl, rfl, rfl, row⟩ := ends
  have run := ((Sightings.start.addLinked (by decide +kernel) first).addLinked (by decide +kernel)
    second).messageLinked third
  refine ⟨w3, run, ?_⟩
  have late : ∀ s ∈ ([⟨5, 1000, true⟩, ⟨5, 400, false⟩, ⟨5, 300, false⟩] : List (Seen UInt64)),
      Gap everyone < s.time := by
    intro s hs
    simp only [List.mem_cons, List.not_mem_nil, or_false] at hs
    obtain rfl | rfl | rfl := hs <;> decide
  apply (arrive_time_is_visit_start_iff fullTable_keepsUsers fullTable_answers not_false
    beforeVisits_fresh run late (by decide) row (by decide)).mpr
  intro s hs _ unchecked
  simp only [List.mem_cons, List.not_mem_nil, or_false] at hs
  obtain rfl | rfl | rfl := hs
  · decide
  · cases unchecked
  · cases unchecked

/-- A message within the visit that a call has started: the score moves. -/
theorem arrive_time_moves_within_visit : ∃ v,
    Sightings fullEnv everyone (World.fresh oneUser []) [⟨5, 400, true⟩, ⟨5, 300, false⟩] v ∧
    v.world.users 5 = some (7 : Int32).toInt ∧ IsVip fullEnv everyone Db.empty 7 ∧
    (zsetAt (v.world.db arriveKey.text)).map (AList.lookup (memberOf fullEnv 7)) = some (some 400) ∧
    visitStart (Gap everyone) (5 : UInt64) [⟨5, 400, true⟩, ⟨5, 300, false⟩] = some 300 ∧
    ¬ScoreIsVisitStart fullEnv everyone 5 7 [⟨5, 400, true⟩, ⟨5, 300, false⟩] v.world := by
  have runs : (addLinked 300 (.sound (World.fresh oneUser []))).bind (fun r =>
      (messageLinked 400 r.2).map fun s => (r.1, s.1, s.2.world.users 5,
        (zsetAt (s.2.world.db arriveKey.text)).map (AList.lookup (memberOf fullEnv 7)))) =
      some (.ok 0, .ok (), some 7, some (some 400)) := by decide +kernel
  obtain ⟨⟨x, w1⟩, first, rest⟩ := Option.bind_eq_some_iff.mp runs
  obtain ⟨⟨y, w2⟩, second, ends⟩ := Option.map_eq_some_iff.mp rest
  simp only [Prod.mk.injEq] at ends
  obtain ⟨rfl, rfl, row, score⟩ := ends
  have start : visitStart (Gap everyone) (5 : UInt64) [⟨5, 400, true⟩, ⟨5, 300, false⟩] =
      some 300 := by decide
  refine ⟨w2, (Sightings.start.addLinked (by decide +kernel) first).messageLinked second, row,
    by decide, score, start, ?_⟩
  rintro ⟨z, hz, e⟩
  rw [hz] at score
  rw [start] at e
  cases e.symm.trans (Option.some.inj score)

/-- The reading 21285 puts the connection in error before the score is set, although nobody
has been seen before. -/
theorem arrive_time_unheard : ∃ v,
    LinkedCall fullEnv everyone (.sound (World.fresh oneUser [])) (sightingOf 5) 21285 (.ok 0) v ∧
    LosesLink fullEnv everyone (World.fresh oneUser []) (sightingOf 5) 21285 ∧
    v.world.users 5 = some (7 : Int32).toInt ∧
    ¬ScoreIsVisitStart fullEnv everyone 5 7 [⟨5, 21285, false⟩] v.world := by
  have runs : (addLinked 21285 (.sound (World.fresh oneUser []))).map (fun r => (r.1,
      r.2.world.users 5, (zsetAt (r.2.world.db arriveKey.text)).map
        (AList.lookup (memberOf fullEnv 7)))) = some (.ok 0, some 7, some none) := by decide +kernel
  obtain ⟨⟨x, v⟩, first, ends⟩ := Option.map_eq_some_iff.mp runs
  simp only [Prod.mk.injEq] at ends
  obtain ⟨rfl, row, score⟩ := ends
  refine ⟨v, linkedCall_full first, ⟨rfl, by decide, percentS⟩, row, ?_⟩
  rintro ⟨z, hz, e⟩
  rw [hz] at score
  cases e.symm.trans (Option.some.inj score)

end UserMap

end SimpleDsp
