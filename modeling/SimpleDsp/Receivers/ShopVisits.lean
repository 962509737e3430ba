import SimpleDsp.Receivers.ArriveTime
import Mathlib.Data.List.Dedup

/-!
# Shop arrival times

Messages of `parse_apmac_closer_msg`, one after the other.

* `shopOps`, `wp_recordInShop`: what a user seen in a shop leaves in the store;
* `ShopInv`: what the store knows of the messages;
* `shop_arrive_time_is_visit_start`: the score of a user is the start of the visit.
-/

namespace SimpleDsp

open DecimalText Programs Visits

namespace UserMap

open Prog (call)

/-! ## The receiver -/

def closerOffset : Nat := "ApMac-Closer:60:cd:a9:00:9a:3a Macs:[".length

/-- The text from each entry on, and the number read from it. -/
def apmacCloserEntries (uninit : Nat → Mac) (msg : Text) : List (Text × UInt64) :=
  (List.range (numMacs closerOffset msg).toInt.toNat).map fun i =>
    (msg.drop (closerOffset + 19 * i), apmacCloserEntry (uninit i) msg i)

/-- The access point is named where this text ends. -/
def closerApMac (apUninit : Mac) (msg : Text) : UInt64 :=
  strToUint64 apUninit (msg.drop "ApMac-Closer:".length)

section
variable (cfg : Config)

/-- The part of the loop that is done when the access point has a shop. -/
def recordInShop (shop_id user_id : Int32) (mac : UInt64) (now : Int64) (is_vip : Bool) :
    UserM Unit := do
  let datetime := getDateStr cfg.localtime now.toInt
  let last_time ← getUserLocationTime 2 shop_id mac
  updateUserLocationTime cfg 2 shop_id mac now
  shopUserDurationAdd cfg 2 shop_id user_id datetime (Int32.ofInt (now.toInt - last_time.toInt))
  updateUserArriveTime cfg 2 shop_id user_id last_time now is_vip
  updateShopidOfUserLocation cfg user_id shop_id now

/-- The body of the loop. -/
def apmacCloserSighting (shop_id : Int32) (now : Int64) (entry : Text × UInt64) : UserM Unit := do
  let is_vip ← macIsVip entry.1 shop_id
  let user_id ← userGetId entry.2
  whenM (shop_id ≠ 0) (recordInShop cfg shop_id user_id entry.2 now is_vip)

def apmacCloserSightings (shop_id : Int32) (now : Int64) : List (Text × UInt64) → UserM Unit
  | [] => pure ()
  | entry :: entries => do
    apmacCloserSighting cfg shop_id now entry
    apmacCloserSightings shop_id now entries

/-- The clock is read once. -/
def parseApmacCloserMsg (apUninit : Mac) (uninit : Nat → Mac) (msg : Text) : UserM Unit := do
  let shop_id ← apmacGetShopid (closerApMac apUninit msg)
  let now ← call .time
  apmacCloserSightings cfg shop_id now (apmacCloserEntries uninit msg)

end

/-! ## What PG answers -/

/-- The shop of an access point, and whether a MAC address is a VIP of a shop. -/
structure Lookups where
  shop : UInt64 → Int32
  vip : Text → Int32 → Bool

def Lookups.Gives (L : Lookups) : (c : Cmd) → c.Reply → Prop
  | .apmacGetShopid mac, r => r = L.shop mac
  | .macIsVip mac_string shop_id, r => r = L.vip mac_string shop_id
  | _, _ => True

/-- `exec` when PG looks up what it is asked for. -/
def execWith (L : Lookups) (E : Env) (pid : Nat) (c : Cmd) (w : World) (r : c.Reply) (w' : World) :
    Prop :=
  exec E pid c w r w' ∧ L.Gives c r

section
variable {E : Env} {cfg : Config} {pid : Nat} {L : Lookups}

/-- What holds after every run holds after those in which PG finds what it looks up. -/
theorem wp_execWith {α : Type} {p : UserM α} {Q : Except Exn α → World → Prop} {w : World}
    (h : p.wp (exec E pid) Q w) : p.wp (execWith L E pid) Q w :=
  Prog.wp_weaken (fun _ _ _ _ hx => hx.1) h

/-! ## One user in a shop -/

abbrev shopTimeKey (shop_id : Int32) (mac : UInt64) : Key :=
  .locationShop (2 : Int32).toInt shop_id.toInt mac

abbrev shopArriveKey (is_vip : Bool) (shop_id : Int32) : Key :=
  .shopArriveTime is_vip (2 : Int32).toInt shop_id.toInt

/-- What `recordInShop` writes when the user was last seen there at `last`. -/
def shopOps (cfg : Config) (shop_id user_id : Int32) (mac : UInt64) (last now : Int64)
    (is_vip : Bool) : List StoreOp :=
  let date := getDateStr cfg.localtime now.toInt
  let interval := clampInterval cfg (Int32.ofInt (now.toInt - last.toInt))
  [.set .time (shopTimeKey shop_id mac) now,
    .zadd (.locationUpdateTimeShop date (2 : Int32).toInt shop_id.toInt) now
      (Key.macText mac),
    .incr (.userShopDuration date (2 : Int32).toInt shop_id.toInt user_id.toInt) interval,
    .incr (.shopDuration date (2 : Int32).toInt shop_id.toInt) interval,
    .incr (.mallDuration date (2 : Int32).toInt) interval] ++
  (if Gap cfg < now.toInt - last.toInt then
    [.zadd (shopArriveKey is_vip shop_id) now (decimal user_id.toInt)] else []) ++
  [.set .int (.userShopId date user_id.toInt) shop_id]

/-- No record is left out. -/
abbrev NoKey (_ : Key) : Prop := False

variable {shop_id i : Int32} {mac : UInt64} {last now : Int64} {is_vip : Bool} {w v : World}
  {os : List StoreOp}

theorem wp_arrivesInShop (answered : ¬E.lossy) (h : Knows E NoKey mac i os w v) :
    (updateUserArriveTime cfg 2 shop_id i last now is_vip >>= fun _ =>
      updateShopidOfUserLocation cfg i shop_id now).wp (exec E pid) (fun x u => ∀ a, x = .ok a →
        Knows E NoKey mac i (os ++ ((if Gap cfg < now.toInt - last.toInt then
          [.zadd (shopArriveKey is_vip shop_id) now (decimal i.toInt)] else []) ++
          [.set .int (.userShopId (getDateStr cfg.localtime now.toInt) i.toInt) shop_id])) w u)
      v := by
  simp only [updateUserArriveTime, Prog.bind_assoc]
  apply wp_init _ fun u _ _ => not_ok_error _
  intro u db users _
  have h := h.of_same db users
  unfold whenM
  split
  · apply wp_knows_does answered h not_false (by simp [IsIdKey, StoreOp.key])
    intro _ u1 _ h1
    apply wp_knows_does answered h1 not_false (by simp [IsIdKey, StoreOp.key])
    intro _ u2 _ h2 a _
    rw [← List.append_assoc]
    exact h2
  · apply wp_knows_does answered h not_false (by simp [IsIdKey, StoreOp.key])
    intro _ u2 _ h2 a _
    exact h2

theorem wp_recordInShop (answered : ¬E.lossy) (h : Knows E NoKey mac i [] w v) :
    (recordInShop cfg shop_id i mac now is_vip).wp (exec E pid) (fun x u => ∀ a, x = .ok a →
      Knows E NoKey mac i (shopOps cfg shop_id i mac
        (CBaseMdb.get E.type E.m .time (shopTimeKey shop_id mac).text 0 w.db) now is_vip) w u)
      v := by
  simp only [recordInShop, getUserLocationTime, Prog.bind_assoc]
  apply wp_init _ fun u _ _ => not_ok_error _
  intro u db users _
  apply wp_knows_get answered (h.of_same db users) not_false (by simp [IsIdKey])
  rw [after_nil]
  generalize CBaseMdb.get E.type E.m .time (shopTimeKey shop_id mac).text 0 w.db = last
  simp only [updateUserLocationTime, Prog.bind_assoc]
  apply wp_init _ fun u _ _ => not_ok_error _
  intro u' db' users' _
  apply wp_knows_does answered ((h.of_same db users).of_same db' users') not_false
    (by simp [IsIdKey, StoreOp.key])
  intro _ u1 _ h1
  apply wp_knows_does answered h1 not_false (by simp [IsIdKey, StoreOp.key])
  intro _ u2 _ h2
  apply wp_knows_does answered h2 not_false (by simp [IsIdKey, StoreOp.key])
  intro _ u3 _ h3
  apply wp_knows_does answered h3 not_false (by simp [IsIdKey, StoreOp.key])
  intro _ u4 _ h4
  apply wp_knows_does answered h4 not_false (by simp [IsIdKey, StoreOp.key])
  intro _ u5 _ h5
  apply Prog.wp_mono _ (wp_arrivesInShop answered h5)
  intro x u done a ended
  simpa only [shopOps, List.append_assoc, List.nil_append, List.cons_append] using done a ended

/-- What one entry of a message leaves; without a shop only the id is looked up. -/
theorem wp_apmacCloserSighting (pg : E.pg.KeepsUsers) (answers : E.pg.Answers)
    (answered : ¬E.lossy) (agrees : Agrees E w) (entry : Text × UInt64) :
    (apmacCloserSighting cfg shop_id now entry).wp (execWith L E pid) (fun x u => ∀ a, x = .ok a →
      ∃ i, Knows E NoKey entry.2 i (if shop_id ≠ 0 then shopOps cfg shop_id i entry.2
        (CBaseMdb.get E.type E.m .time (shopTimeKey shop_id entry.2).text 0 w.db) now
        (L.vip (entry.1.take 17) shop_id) else []) w u) w := by
  intro ok v hinit
  obtain ⟨db, users, -, -⟩ := exec_init hinit.1
  cases ok with
  | false => exact not_ok_error _
  | true =>
    intro is_vip v' hvip
    obtain rfl : v' = v := hvip.1
    obtain rfl : is_vip = L.vip (entry.1.take 17) shop_id := hvip.2
    apply wp_execWith
    apply wp_knows pg answers agrees (Does.of_same db users) (fun _ _ => not_false) (by simp)
    · intro i u _ known
      unfold whenM
      split
      · apply Prog.wp_mono _ (wp_recordInShop answered known)
        exact fun x u' done a ended => ⟨i, done a ended⟩
      · exact fun a _ => ⟨i, known⟩
    · exact fun e u => not_ok_error e

/-! ## The records of a shop -/

section
variable {shop_id' : Int32} {mac' : UInt64} {db : Db}

theorem after_shopOps_time : after E (shopOps cfg shop_id i mac last now is_vip) db
    (shopTimeKey shop_id mac).text = some (CBaseMdb.encode E.type E.m .time now) := by
  have behind : ∀ o ∈ (shopOps cfg shop_id i mac last now is_vip).tail,
      o.key ≠ shopTimeKey shop_id mac := by
    unfold shopOps
    split <;> simp [StoreOp.key]
  have only := after_at (E := E) [] (.set .time (shopTimeKey shop_id mac) now) _ (by simp) behind db
  rw [StoreOp.run_set (by decide)] at only
  exact only.trans (Db.put_self _ _ _)

theorem after_shopOps_times (ne : (shop_id', mac') ≠ (shop_id, mac)) :
    after E (shopOps cfg shop_id i mac last now is_vip) db (shopTimeKey shop_id' mac').text =
      db (shopTimeKey shop_id' mac').text := by
  apply after_frame
  have ne' : ¬(shop_id = shop_id' ∧ mac = mac') := fun e => ne (by rw [e.1, e.2])
  unfold shopOps
  split <;> simpa [StoreOp.key, Int32.toInt_inj] using ne'

theorem after_shopOps_arrive : after E (shopOps cfg shop_id i mac last now is_vip) db
    (shopArriveKey is_vip shop_id).text = if Gap cfg < now.toInt - last.toInt then
      CBaseMdb.addScore (memberOf E i) now.toInt (db (shopArriveKey is_vip shop_id).text)
    else db (shopArriveKey is_vip shop_id).text := by
  split
  · rename_i gap
    have parts : shopOps cfg shop_id i mac last now is_vip =
        (shopOps cfg shop_id i mac last now is_vip).take 5 ++
          .zadd (shopArriveKey is_vip shop_id) now (decimal i.toInt) ::
            [.set .int (.userShopId (getDateStr cfg.localtime now.toInt) i.toInt) shop_id] := by
      simp [shopOps, gap]
    have only := after_at (E := E) ((shopOps cfg shop_id i mac last now is_vip).take 5)
      (.zadd (shopArriveKey is_vip shop_id) now (decimal i.toInt))
      [.set .int (.userShopId (getDateStr cfg.localtime now.toInt) i.toInt) shop_id]
      (by simp [shopOps, StoreOp.key]) (by simp [StoreOp.key]) db
    rw [← parts] at only
    exact only.trans (CBaseMdb.zadd_word (isWord_decimal _) _ _)
  · rename_i near
    apply after_frame
    simp [shopOps, near, StoreOp.key]

theorem after_shopOps_arrives {b : Bool} (ne : (b, shop_id') ≠ (is_vip, shop_id)) :
    after E (shopOps cfg shop_id i mac last now is_vip) db (shopArriveKey b shop_id').text =
      db (shopArriveKey b shop_id').text := by
  apply after_frame
  have ne' : ¬(is_vip = b ∧ shop_id = shop_id') := fun e => ne (by rw [e.1, e.2])
  unfold shopOps
  split
  · simpa [StoreOp.key, Int32.toInt_inj] using ne'
  · simp [StoreOp.key]

end

/-! ## The log of messages -/

/-- The users that a message names, each once; `macs` has the last one first. -/
def seenInShop (shop_id : Int32) (now : Int64) (macs : List UInt64) :
    List (Seen (Int32 × UInt64)) :=
  macs.dedup.map fun mac => ⟨(shop_id, mac), now.toInt, false⟩

/-- What the store knows of the messages so far; `vip` tells the VIPs of the shops. -/
structure ShopInv (E : Env) (cfg : Config) (vip : Int32 → UInt64 → Bool)
    (log : List (Seen (Int32 × UInt64))) (w : World) : Prop where
  agrees : Agrees E w
  rows : ∀ s ∈ log, ∃ i : Int32, w.users s.who.2 = some i.toInt
  time : ∀ shop_id, shop_id ≠ 0 → ∀ mac, lastSeen (shop_id, mac) log = none ∧
      w.db (shopTimeKey shop_id mac).text = none ∨
    ∃ t : Int64, lastSeen (shop_id, mac) log = some t.toInt ∧
      w.db (shopTimeKey shop_id mac).text = some (CBaseMdb.encode E.type E.m .time t)
  scores : ∀ shop_id, shop_id ≠ 0 → ∀ b, ∃ z,
    zsetAt (w.db (shopArriveKey b shop_id).text) = some z ∧
    (∀ mac (i : Int32), w.users mac = some i.toInt → vip shop_id mac = b →
      z.lookup (memberOf E i) = (visitStart (Gap cfg) (shop_id, mac) log).map Int.cast) ∧
    ∀ x ∈ z, ∃ mac i, w.users mac = some (Int32.toInt i) ∧ x = memberOf E i

section
variable {vip : Int32 → UInt64 → Bool} {log log' : List (Seen (Int32 × UInt64))}

theorem ShopInv.of_same (inv : ShopInv E cfg vip log w) (db : v.db = w.db)
    (users : v.users = w.users) : ShopInv E cfg vip log v where
  agrees := inv.agrees.of_same db users
  rows := by rw [users]; exact inv.rows
  time := by rw [db]; exact inv.time
  scores := by rw [db, users]; exact inv.scores

/-- Users who are new in PG's table have neither a score nor a sighting. -/
theorem ShopInv.score (inv : ShopInv E cfg vip log w) (agrees : Agrees E v)
    (grows : w.users.Grows v.users) (real : shop_id ≠ 0) {b : Bool}
    {z : AList fun _ : Text => Rat} (hz : zsetAt (w.db (shopArriveKey b shop_id).text) = some z)
    (row : v.users mac = some i.toInt) (flag : vip shop_id mac = b) :
    z.lookup (memberOf E i) = (visitStart (Gap cfg) (shop_id, mac) log).map Int.cast := by
  obtain ⟨z', hz', known, owned⟩ := inv.scores shop_id real b
  obtain rfl := Option.some.inj (hz.symm.trans hz')
  cases old : w.users mac with
  | some id =>
    obtain rfl := Option.some.inj ((grows _ _ old).symm.trans row)
    exact known mac i old flag
  | none =>
    have absent : ∀ s ∈ log, s.who ≠ (shop_id, mac) := by
      intro s hs mine
      obtain ⟨j, hj⟩ := inv.rows s hs
      rw [mine, old] at hj
      cases hj
    rw [visitStart_of_absent absent]
    exact lookup_new owned agrees grows row old

theorem ShopInv.rows_after (inv : ShopInv E cfg vip log w) {os : List StoreOp}
    (known : Knows E NoKey mac i os w v) {starts : Prop} [Decidable starts]
    (sighted : Sighted (Gap cfg) (shop_id, mac) now.toInt starts log log') :
    ∀ s ∈ log', ∃ i : Int32, v.users s.who.2 = some i.toInt := by
  intro s hs
  cases sighted.names s hs with
  | inl old =>
    obtain ⟨j, hj⟩ := inv.rows s old
    exact ⟨j, known.grows _ _ hj⟩
  | inr new => exact ⟨i, by rw [new]; exact known.row⟩

theorem ShopInv.sees (inv : ShopInv E cfg vip log w) (real : shop_id ≠ 0)
    (known : Knows E NoKey mac i (shopOps cfg shop_id i mac last now (vip shop_id mac)) w v)
    (sighted : Sighted (Gap cfg) (shop_id, mac) now.toInt (Gap cfg < now.toInt - last.toInt)
      log log') : ShopInv E cfg vip log' v where
  agrees := known.agrees
  rows := inv.rows_after known sighted
  time shop_id' real' mac' := by
    rw [known.db _ not_false (by simp [IsIdKey])]
    by_cases here : (shop_id', mac') = (shop_id, mac)
    · obtain ⟨rfl, rfl⟩ := Prod.mk.inj here
      exact Or.inr ⟨now, sighted.last, after_shopOps_time⟩
    · rw [after_shopOps_times here, sighted.lasts _ here]
      exact inv.time shop_id' real' mac'
  scores shop_id' real' b := by
    obtain ⟨z, hz, -, owned⟩ := inv.scores shop_id' real' b
    have kept : ∀ x ∈ z, ∃ mac i, v.users mac = some (Int32.toInt i) ∧ x = memberOf E i := by
      intro x hx
      obtain ⟨mac', j, hj, e⟩ := owned x hx
      exact ⟨mac', j, known.grows _ _ hj, e⟩
    have old {mac' : UInt64} {j : Int32} (row : v.users mac' = some j.toInt)
        (flag : vip shop_id' mac' = b) :
        z.lookup (memberOf E j) = (visitStart (Gap cfg) (shop_id', mac') log).map Int.cast :=
      inv.score known.agrees known.grows real' hz row flag
    rw [known.db _ not_false (by simp [IsIdKey])]
    by_cases hit : (b, shop_id') = (vip shop_id mac, shop_id) ∧ Gap cfg < now.toInt - last.toInt
    · obtain ⟨here, gap⟩ := hit
      obtain ⟨rfl, rfl⟩ := Prod.mk.inj here
      refine ⟨z.insert (memberOf E i) now.toInt, ?_, ?_, ?_⟩
      · rw [after_shopOps_arrive, if_pos gap]
        exact CBaseMdb.zsetAt_addScore hz
      · intro mac' j row flag
        by_cases same : mac' = mac
        · subst same
          obtain rfl := Int32.toInt_inj.mp (Option.some.inj (known.row.symm.trans row))
          rw [AList.lookup_insert, sighted.start, if_pos gap]
          rfl
        · have ne : memberOf E j ≠ memberOf E i := by
            rw [Ne, memberOf_inj]
            rintro rfl
            exact same (known.agrees.valid.distinct _ _ _ row known.row)
          rw [AList.lookup_insert_ne ne, old row flag, sighted.starts _ (by simp [same])]
      · intro x hx
        rcases (AList.mem_insert z).mp hx with rfl | hx
        · exact ⟨mac, i, known.row, rfl⟩
        · exact kept x hx
    · refine ⟨z, ?_, ?_, kept⟩
      · by_cases here : (b, shop_id') = (vip shop_id mac, shop_id)
        · obtain ⟨rfl, rfl⟩ := Prod.mk.inj here
          rw [after_shopOps_arrive, if_neg fun gap => hit ⟨rfl, gap⟩]
          exact hz
        · rw [after_shopOps_arrives here]
          exact hz
      · intro mac' j row flag
        rw [old row flag]
        by_cases same : (shop_id', mac') = (shop_id, mac)
        · obtain ⟨rfl, rfl⟩ := Prod.mk.inj same
          rw [sighted.start, if_neg fun gap => hit ⟨by rw [flag], gap⟩]
        · rw [sighted.starts _ same]

/-- Without a shop nothing is recorded. -/
theorem ShopInv.sees_none (inv : ShopInv E cfg vip log w) (known : Knows E NoKey mac i [] w v)
    {starts : Prop} [Decidable starts]
    (sighted : Sighted (Gap cfg) (0, mac) now.toInt starts log log') :
    ShopInv E cfg vip log' v where
  agrees := known.agrees
  rows := inv.rows_after known sighted
  time shop_id real mac' := by
    have other : (shop_id, mac') ≠ (0, mac) := by simp [real]
    rw [known.db _ not_false (by simp [IsIdKey]), sighted.lasts _ other]
    exact inv.time shop_id real mac'
  scores shop_id real b := by
    obtain ⟨z, hz, -, owned⟩ := inv.scores shop_id real b
    refine ⟨z, by rw [known.db _ not_false (by simp [IsIdKey])]; exact hz, ?_, ?_⟩
    · intro mac' j row flag
      rw [sighted.starts _ (by simp [real])]
      exact inv.score known.agrees known.grows real hz row flag
    · intro x hx
      obtain ⟨mac', j, hj, e⟩ := owned x hx
      exact ⟨mac', j, known.grows _ _ hj, e⟩

/-- The time `get_user_location_time` reads. -/
theorem ShopInv.last_eq (inv : ShopInv E cfg vip log w) (real : shop_id ≠ 0) {t : Int64}
    (seen : lastSeen (shop_id, mac) log = some t.toInt) :
    CBaseMdb.get E.type E.m .time (shopTimeKey shop_id mac).text (0 : Int64) w.db = t := by
  rcases inv.time shop_id real mac with ⟨never, -⟩ | ⟨t', last, stored⟩
  · rw [never] at seen
    cases seen
  · rw [CBaseMdb.get_encode rfl stored]
    exact Int64.toInt_inj.mp (Option.some.inj (last.symm.trans seen))

theorem ShopInv.starts_iff (inv : ShopInv E cfg vip log w) (real : shop_id ≠ 0)
    (late : Gap cfg < now.toInt) :
    Gap cfg < now.toInt - (CBaseMdb.get E.type E.m .time (shopTimeKey shop_id mac).text (0 : Int64)
        w.db : Int64).toInt ↔ Starts (Gap cfg) ⟨(shop_id, mac), now.toInt, false⟩ log := by
  rcases inv.time shop_id real mac with ⟨never, none⟩ | ⟨t, last, stored⟩
  · rw [CBaseMdb.get_none none]
    simpa [Starts, never] using late
  · rw [CBaseMdb.get_encode rfl stored]
    simp [Starts, last]

theorem lastSeen_seenInShop {macs : List UInt64} (h : mac ∈ macs) :
    lastSeen (shop_id, mac) (seenInShop shop_id now macs ++ log) = some now.toInt := by
  have named : mac ∈ macs.dedup := List.mem_dedup.mpr h
  revert named
  unfold seenInShop
  induction macs.dedup with
  | nil => simp
  | cons m ms ih =>
    intro named
    simp only [List.map_cons, List.cons_append, lastSeen, Prod.mk.injEq, true_and]
    split
    · rfl
    · rename_i other
      exact ih ((List.mem_cons.mp named).resolve_left (Ne.symm other))

theorem rising_seenInShop (rising : Rising log) (notLater : ∀ s ∈ log, s.time ≤ now.toInt)
    (macs : List UInt64) : Rising (seenInShop shop_id now macs ++ log) := by
  unfold Rising seenInShop
  rw [List.pairwise_append, List.pairwise_map]
  refine ⟨List.pairwise_of_forall fun _ _ => Int.le_refl _, rising, ?_⟩
  intro s hs earlier he
  obtain ⟨m, -, rfl⟩ := List.mem_map.mp hs
  exact notLater earlier he

/-- A user who is named again in a message counts once. -/
theorem sighted_seenInShop {macs : List UInt64} (rising : Rising (seenInShop shop_id now macs ++ log))
    {starts : Prop} [Decidable starts] (again : mac ∈ macs → (starts ↔ Gap cfg < 0))
    (first : mac ∉ macs → (starts ↔ Starts (Gap cfg) ⟨(shop_id, mac), now.toInt, false⟩
      (seenInShop shop_id now macs ++ log))) :
    Sighted (Gap cfg) (shop_id, mac) now.toInt starts (seenInShop shop_id now macs ++ log)
      (seenInShop shop_id now (mac :: macs) ++ log) := by
  by_cases named : mac ∈ macs
  · have same : seenInShop shop_id now (mac :: macs) = seenInShop shop_id now macs := by
      simp [seenInShop, named]
    rw [same]
    exact sighted_again (again named) rising (lastSeen_seenInShop named)
  · have new : seenInShop shop_id now (mac :: macs) =
        ⟨(shop_id, mac), now.toInt, false⟩ :: seenInShop shop_id now macs := by
      simp [seenInShop, named]
    rw [new]
    exact sighted_cons (first named)

theorem wp_apmacCloserSightings (pg : E.pg.KeepsUsers) (answers : E.pg.Answers)
    (answered : ¬E.lossy) (rising : Rising log) {entries : List (Text × UInt64)}
    (notLater : entries ≠ [] → ∀ s ∈ log, s.time ≤ now.toInt)
    (late : entries ≠ [] → Gap cfg < now.toInt) (macs : List UInt64)
    (vips : ∀ e ∈ entries, L.vip (e.1.take 17) shop_id = vip shop_id e.2)
    (inv : ShopInv E cfg vip (seenInShop shop_id now macs ++ log) w) :
    (apmacCloserSightings cfg shop_id now entries).wp (execWith L E pid) (fun x v => ∀ a,
      x = .ok a → ShopInv E cfg vip
        (seenInShop shop_id now ((entries.map (·.2)).reverse ++ macs) ++ log) v) w := by
  induction entries generalizing w macs with
  | nil => exact fun _ _ => inv
  | cons entry entries ih =>
    apply Prog.wp_seq _ (wp_apmacCloserSighting pg answers answered inv.agrees entry)
    · intro _ v done
      obtain ⟨i, known⟩ := done () rfl
      have whole : Rising (seenInShop shop_id now macs ++ log) :=
        rising_seenInShop rising (notLater (by simp)) macs
      have next : ShopInv E cfg vip (seenInShop shop_id now (entry.2 :: macs) ++ log) v := by
        by_cases real : shop_id = 0
        · subst real
          rw [if_neg (by simp)] at known
          by_cases named : entry.2 ∈ macs
          · exact inv.sees_none known
              (sighted_seenInShop whole (fun _ => Iff.rfl) fun new => absurd named new)
          · exact inv.sees_none known
              (sighted_seenInShop whole (fun again => absurd again named) fun _ => Iff.rfl)
        · rw [if_pos real, vips entry (by simp)] at known
          apply inv.sees real known
          apply sighted_seenInShop whole
          · intro named
            rw [inv.last_eq real (lastSeen_seenInShop named)]
            simp
          · exact fun _ => inv.starts_iff real (late (by simp))
      have rest := ih (fun _ => notLater (by simp)) (fun _ => late (by simp)) (entry.2 :: macs)
        (fun e he => vips e (by simp [he])) next
      simpa using rest
    · exact fun e u _ => not_ok_error e

end

/-! ## Runs -/

/-- Nothing is recorded of any shop, and the ids that are cached agree with PG. -/
structure BeforeShops (E : Env) (w : World) : Prop where
  agrees : Agrees E w
  time : ∀ shop_id mac, w.db (shopTimeKey shop_id mac).text = none
  arrive : ∀ b shop_id, w.db (shopArriveKey b shop_id).text = none

/-- Messages of `parse_apmac_closer_msg` that have been worked off, and the users
they have named. `vip` tells the VIPs of the shops, whenever PG is asked. -/
inductive ShopMessages (E : Env) (cfg : Config) (vip : Int32 → UInt64 → Bool) (w0 : World) :
    List (Seen (Int32 × UInt64)) → World → Prop
  | start : ShopMessages E cfg vip w0 [] w0
  | message {log : List (Seen (Int32 × UInt64))} {w w' : World} {pid : Nat} {L : Lookups}
      {apUninit : Mac} {uninit : Nat → Mac} {msg : Text} {now : Int64}
      (before : ShopMessages E cfg vip w0 log w)
      (vips : ∀ e ∈ apmacCloserEntries uninit msg,
        L.vip (e.1.take 17) (L.shop (closerApMac apUninit msg)) =
          vip (L.shop (closerApMac apUninit msg)) e.2)
      (runs : (parseApmacCloserMsg cfg apUninit uninit msg).Runs (execWith L E pid)
        { w with clock := [now] } (.ok ()) w') :
      ShopMessages E cfg vip w0 (seenInShop (L.shop (closerApMac apUninit msg)) now
        ((apmacCloserEntries uninit msg).map (·.2)).reverse ++ log) w'

section
variable {vip : Int32 → UInt64 → Bool} {log : List (Seen (Int32 × UInt64))}

theorem ShopInv.start (before : BeforeShops E w) : ShopInv E cfg vip [] w where
  agrees := before.agrees
  rows s hs := by cases hs
  time shop_id _ mac := Or.inl ⟨rfl, before.time shop_id mac⟩
  scores shop_id _ b := ⟨∅, by rw [before.arrive]; rfl, fun _ _ _ _ => rfl, by simp⟩

theorem ShopInv.message (pg : E.pg.KeepsUsers) (answers : E.pg.Answers) (answered : ¬E.lossy)
    (inv : ShopInv E cfg vip log w) (rising : Rising log) {apUninit : Mac}
    {uninit : Nat → Mac} {msg : Text}
    (notLater : apmacCloserEntries uninit msg ≠ [] → ∀ s ∈ log, s.time ≤ now.toInt)
    (late : apmacCloserEntries uninit msg ≠ [] → Gap cfg < now.toInt)
    (vips : ∀ e ∈ apmacCloserEntries uninit msg,
      L.vip (e.1.take 17) (L.shop (closerApMac apUninit msg)) =
        vip (L.shop (closerApMac apUninit msg)) e.2) {w' : World}
    (runs : (parseApmacCloserMsg cfg apUninit uninit msg).Runs (execWith L E pid)
      { w with clock := [now] } (.ok ()) w') :
    ShopInv E cfg vip (seenInShop (L.shop (closerApMac apUninit msg)) now
      ((apmacCloserEntries uninit msg).map (·.2)).reverse ++ log) w' := by
  apply runs.post (Q := fun x w' => ∀ a, x = .ok a → ShopInv E cfg vip
    (seenInShop (L.shop (closerApMac apUninit msg)) now
      ((apmacCloserEntries uninit msg).map (·.2)).reverse ++ log) w') _ _ () rfl
  intro ok v hinit
  obtain ⟨db, users, clock, -⟩ := exec_init hinit.1
  cases ok with
  | false => exact not_ok_error _
  | true =>
    intro shop_id v' hshop
    obtain rfl : v' = v := hshop.1
    obtain rfl : shop_id = L.shop (closerApMac apUninit msg) := hshop.2
    intro t u htime
    have reading : now = t ∧ [] = u.clock := List.cons.inj (clock.symm.trans htime.1.1)
    obtain rfl := reading.1
    have inv' : ShopInv E cfg vip log u :=
      inv.of_same (by rw [htime.1.2, db]) (by rw [htime.1.2, users])
    apply Prog.wp_mono _
      (wp_apmacCloserSightings pg answers answered rising notLater late [] vips inv')
    intro x u' done a ended
    simpa using done a ended

/-- The store knows of every message that a run has worked off. -/
theorem ShopMessages.inv (pg : E.pg.KeepsUsers) (answers : E.pg.Answers) (answered : ¬E.lossy)
    {w0 : World} (before : BeforeShops E w0) (run : ShopMessages E cfg vip w0 log w)
    (late : ∀ s ∈ log, Gap cfg < s.time) (rising : Rising log) : ShopInv E cfg vip log w := by
  induction run with
  | start => exact .start before
  | @message log w w' pid L apUninit uninit msg now _ vips runs ih =>
    obtain ⟨-, rising', notLater⟩ := List.pairwise_append.mp rising
    have inv := ih (fun s hs => late s (List.mem_append_right _ hs)) rising'
    have named (some : apmacCloserEntries uninit msg ≠ []) :
        ∃ s ∈ seenInShop (L.shop (closerApMac apUninit msg)) now
          ((apmacCloserEntries uninit msg).map (·.2)).reverse, s.time = now.toInt := by
      obtain ⟨e, he⟩ := List.exists_mem_of_ne_nil _ some
      refine ⟨⟨(_, e.2), now.toInt, false⟩, List.mem_map.mpr ⟨e.2, ?_, rfl⟩, rfl⟩
      exact List.mem_dedup.mpr (List.mem_reverse.mpr (List.mem_map_of_mem he))
    apply inv.message pg answers answered rising' _ _ vips runs
    · intro some earlier he
      obtain ⟨s, hs, time⟩ := named some
      rw [← time]
      exact notLater s hs earlier he
    · intro some
      obtain ⟨s, hs, time⟩ := named some
      rw [← time]
      exact late s (List.mem_append_left _ hs)

/-- After each message the score of a user in the set of the shop is the start of
the user's current visit to the shop. -/
theorem shop_arrive_time_is_visit_start (pg : E.pg.KeepsUsers) (answers : E.pg.Answers)
    (answered : ¬E.lossy) {w0 : World} (before : BeforeShops E w0)
    (run : ShopMessages E cfg vip w0 log w) (late : ∀ s ∈ log, Gap cfg < s.time)
    (rising : Rising log) (real : shop_id ≠ 0) (seen : ∃ s ∈ log, s.who = (shop_id, mac)) :
    ∃ (i : Int32) (z : AList fun _ : Text => Rat) (t : Int), w.users mac = some i.toInt ∧
      zsetAt (w.db (shopArriveKey (vip shop_id mac) shop_id).text) = some z ∧
      visitStart (Gap cfg) (shop_id, mac) log = some t ∧ z.lookup (memberOf E i) = some t := by
  have inv := run.inv pg answers answered before late rising
  obtain ⟨s, hs, mine⟩ := seen
  obtain ⟨i, row⟩ := inv.rows s hs
  rw [mine] at row
  obtain ⟨z, hz, known, -⟩ := inv.scores shop_id real (vip shop_id mac)
  cases start : visitStart (Gap cfg) (shop_id, mac) log with
  | none => exact absurd (visitStart_none start) (lastSeen_ne_none hs mine)
  | some t => exact ⟨i, z, t, row, hz, rfl, by rw [known mac i row rfl, start]; rfl⟩

end

/-! ## Messages to compute with -/

/-- Every access point is in shop 9, where everyone is a VIP. -/
def shopNine : Lookups := ⟨fun _ => 9, fun _ _ => true⟩

def answerNine : (c : Cmd) → World → Option (c.Reply × World)
  | .apmacGetShopid mac, w => some (shopNine.shop mac, w)
  | .macIsVip mac_string shop_id, w => some (shopNine.vip mac_string shop_id, w)
  | c, w => answerFull c w

theorem exec_answerNine (c : Cmd) (w : World) (r : c.Reply × World) (h : answerNine c w = some r) :
    execWith shopNine fullEnv 0 c w r.1 r.2 := by
  cases c with
  | apmacGetShopid mac => obtain rfl := Option.some.inj h; exact ⟨rfl, rfl⟩
  | macIsVip mac_string shop_id => obtain rfl := Option.some.inj h; exact ⟨rfl, rfl⟩
  | _ => exact ⟨exec_answerFull _ w r h, trivial⟩

/-- A message that names MAC 5 twice. -/
def closerOfFive : Text :=
  "ApMac-Closer:60:cd:a9:00:9a:3a Macs:[00:00:00:00:00:05,00:00:00:00:00:05,]".toList

def closerAt (now : Int64) (w : World) : Option (Except Exn Unit × World) :=
  (parseApmacCloserMsg firstDay (fun _ => 0) (fun _ _ => 0) closerOfFive).eval answerNine
    { w with clock := [now] }

theorem ShopMessages.closerAt {w0 w w' : World} {log : List (Seen (Int32 × UInt64))}
    (before : ShopMessages fullEnv firstDay (fun _ _ => true) w0 log w) {now : Int64}
    (h : UserMap.closerAt now w = some (.ok (), w')) :
    ShopMessages fullEnv firstDay (fun _ _ => true) w0 (⟨(9, 5), now.toInt, false⟩ :: log) w' := by
  have macs : ((apmacCloserEntries (fun _ _ => 0) closerOfFive).map (·.2)).reverse = [5, 5] := by
    decide +kernel
  have run := before.message (fun _ _ => rfl) (Prog.runs_eval _ exec_answerNine h)
  rw [macs] at run
  exact run

theorem beforeShops_fresh : BeforeShops fullEnv (World.fresh oneUser []) where
  agrees := Agrees.start (World.fresh_is_fresh _ _) oneUser_valid
  time _ _ := rfl
  arrive _ _ := rfl

/-- Three messages, of which the second comes within the visit that the first starts. -/
theorem shop_arrive_time_is_visit_start_two_visits :
    ∃ (w : World) (i : Int32) (z : AList fun _ : Text => Rat), w.users 5 = some i.toInt ∧
      zsetAt (w.db (shopArriveKey true 9).text) = some z ∧
      z.lookup (memberOf fullEnv i) = some 1000 := by
  have runs : (closerAt 300 (World.fresh oneUser [])).bind (fun r => (closerAt 400 r.2).bind fun s =>
      (closerAt 1000 s.2).map fun u => (r.1, s.1, u.1)) = some (.ok (), .ok (), .ok ()) := by
    decide +kernel
  obtain ⟨⟨x, w1⟩, first, rest⟩ := Option.bind_eq_some_iff.mp runs
  obtain ⟨⟨y, w2⟩, second, rest⟩ := Option.bind_eq_some_iff.mp rest
  obtain ⟨⟨z, w3⟩, third, ends⟩ := Option.map_eq_some_iff.mp rest
  simp only [Prod.mk.injEq] at ends
  obtain ⟨rfl, rfl, rfl⟩ := ends
  have run := ((ShopMessages.start.closerAt first).closerAt second).closerAt third
  have late : ∀ s ∈ ([⟨(9, 5), 1000, false⟩, ⟨(9, 5), 400, false⟩, ⟨(9, 5), 300, false⟩] :
      List (Seen (Int32 × UInt64))), Gap firstDay < s.time := by
    intro s hs
    simp only [List.mem_cons, List.not_mem_nil, or_false] at hs
    obtain rfl | rfl | rfl := hs <;> decide
  have seen : ∃ s ∈ ([⟨(9, 5), 1000, false⟩, ⟨(9, 5), 400, false⟩, ⟨(9, 5), 300, false⟩] :
      List (Seen (Int32 × UInt64))), s.who = (9, 5) := ⟨_, List.mem_cons_self .., rfl⟩
  have real : (9 : Int32) ≠ 0 := by decide
  obtain ⟨i, z, t, row, hz, start, score⟩ := shop_arrive_time_is_visit_start fullTable_keepsUsers
    fullTable_answers not_false beforeShops_fresh run late (by decide) real seen
  have here : visitStart (Gap firstDay) ((9 : Int32), (5 : UInt64)) [⟨(9, 5), 1000, false⟩,
      ⟨(9, 5), 400, false⟩, ⟨(9, 5), 300, false⟩] = some 1000 := by decide
  obtain rfl : t = 1000 := Option.some.inj (start.symm.trans here)
  exact ⟨w3, i, z, row, hz, score⟩

end

end UserMap

end SimpleDsp
