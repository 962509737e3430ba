import SimpleDsp.Receivers.ShopVisits
import Mathlib.Algebra.BigOperators.Finprod
import Mathlib.Data.FinEnum

/-!
# Stay times of shops and malls

`shop_user_duration_add` counts an interval three times: for the user in the
shop, for the shop and for the mall.

* `Totals.count`: one interval keeps the totals;
* `Keeps`: the programs that do;
* `stay_times_add_up`: shops and malls are the sums of their parts.
-/

namespace SimpleDsp

open DecimalText Programs

namespace UserMap

open Prog (call)

/-! ## Totals -/

/-- A counter that is not there stands at zero. -/
def stay (db : Db) (k : Key) : Int := (counterAt (db k.text)).getD 0

/-- The sums have finitely many terms, as an `int` has finitely many values. -/
structure Totals (db : Db) : Prop where
  shop : ∀ (date : Stamp) (mall_id shop_id : Int32),
    stay db (.shopDuration date mall_id.toInt shop_id.toInt) =
      ∑ᶠ user_id : Int32,
        stay db (.userShopDuration date mall_id.toInt shop_id.toInt user_id.toInt)
  mall : ∀ (date : Stamp) (mall_id : Int32), stay db (.mallDuration date mall_id.toInt) =
    ∑ᶠ shop_id : Int32, stay db (.shopDuration date mall_id.toInt shop_id.toInt)

/-- The records that `Totals` is about. -/
def IsStay (k : Key) : Prop :=
  (∃ date mall shop user, k = .userShopDuration date mall shop user) ∨
    (∃ date mall shop, k = .shopDuration date mall shop) ∨ ∃ date mall, k = .mallDuration date mall

theorem Totals.of_same {db db' : Db} (totals : Totals db)
    (same : ∀ k, IsStay k → db' k.text = db k.text) : Totals db' := by
  have stays (k : Key) (h : IsStay k) : stay db' k = stay db k := by rw [stay, same k h, stay]
  have users (date : Stamp) (mall shop user : Int) := stays (.userShopDuration date mall shop user)
    (Or.inl ⟨date, mall, shop, user, rfl⟩)
  have shops (date : Stamp) (mall shop : Int) := stays (.shopDuration date mall shop)
    (Or.inr (Or.inl ⟨date, mall, shop, rfl⟩))
  have malls (date : Stamp) (mall : Int) := stays (.mallDuration date mall)
    (Or.inr (Or.inr ⟨date, mall, rfl⟩))
  constructor
  · intro date mall_id shop_id
    simp only [users, shops, totals.shop date mall_id shop_id]
  · intro date mall_id
    simp only [shops, malls, totals.mall date mall_id]

/-- A sum in which one term grows by `n`. -/
theorem finsum_count {α : Type} [Finite α] [DecidableEq α] (f : α → Int) (a : α) (n : Int) :
    ∑ᶠ x, (f x + if x = a then n else 0) = (∑ᶠ x, f x) + n := by
  rw [finsum_add_distrib (Set.toFinite _) (Set.toFinite _),
    finsum_eq_single (fun x => if x = a then n else 0) a fun x ne => if_neg ne, if_pos rfl]

/-- The same interval for the user, the shop and the mall. -/
theorem Totals.count {db db' : Db} (totals : Totals db) (date : Stamp)
    (mall_id shop_id user_id : Int32) (n : Int)
    (user : ∀ d m s u, stay db' (.userShopDuration d m s u) =
      stay db (.userShopDuration d m s u) + if d = date ∧ m = mall_id.toInt ∧ s = shop_id.toInt ∧
        u = user_id.toInt then n else 0)
    (shop : ∀ d m s, stay db' (.shopDuration d m s) =
      stay db (.shopDuration d m s) + if d = date ∧ m = mall_id.toInt ∧ s = shop_id.toInt then n
        else 0)
    (mall : ∀ d m, stay db' (.mallDuration d m) =
      stay db (.mallDuration d m) + if d = date ∧ m = mall_id.toInt then n else 0) :
    Totals db' := by
  constructor
  · intro d m s
    rw [shop, totals.shop]
    simp only [user, Int32.toInt_inj]
    by_cases here : d = date ∧ m = mall_id ∧ s = shop_id
    · simp only [here, true_and, and_self, if_true]
      exact (finsum_count _ user_id n).symm
    · have elsewhere (u : Int32) : ¬(d = date ∧ m = mall_id ∧ s = shop_id ∧ u = user_id) :=
        fun h => here ⟨h.1, h.2.1, h.2.2.1⟩
      simp only [here, elsewhere, if_false, add_zero]
  · intro d m
    rw [mall, totals.mall]
    simp only [shop, Int32.toInt_inj]
    by_cases here : d = date ∧ m = mall_id
    · simp only [here, true_and, and_self, if_true]
      exact (finsum_count _ shop_id n).symm
    · have elsewhere (s : Int32) : ¬(d = date ∧ m = mall_id ∧ s = shop_id) :=
        fun h => here ⟨h.1, h.2.1⟩
      simp only [here, elsewhere, if_false, add_zero]

/-! ## Programs that keep the totals -/

/-- An increment adds its number to the counter. -/
def Cmd.Counts : Cmd → World → World → Prop
  | .store (.incr k integer), w, w' =>
    (counterAt (w.db k.text)).isSome ∧
      counterAt (w'.db k.text) = (counterAt (w.db k.text)).map (· + integer.toInt)
  | _, _, _ => True

instance (c : Cmd) (w w' : World) : Decidable (c.Counts w w') :=
  match c with
  | .store (.incr ..) => inferInstanceAs (Decidable (_ ∧ _))
  | .store (.set ..) | .store (.get ..) | .store (.zadd ..) | .store (.sadd ..)
  | .store (.hset ..) | .store (.zrangebyscore ..) | .time | .addUser _ | .queryUserId _ | .addUserLocation ..
  | .apmacGetShopid _ | .macIsVip .. | .lastDateTime _ | .setLastDateTime .. | .init | .lock
  | .unlock => inferInstanceAs (Decidable True)

/-- `exec` when increments succeed. -/
def execCounting (E : Env) (pid : Nat) (c : Cmd) (w : World) (r : c.Reply) (w' : World) : Prop :=
  exec E pid c w r w' ∧ c.Counts w w'

section
variable {E : Env} {pid : Nat} {cfg : Config}

def Keeps (E : Env) (pid : Nat) {α : Type} (p : UserM α) : Prop :=
  ∀ w, Totals w.db → p.wp (execCounting E pid) (fun _ v => Totals v.db) w

theorem Keeps.bind {α β : Type} {p : UserM α} {f : α → UserM β} (hp : Keeps E pid p)
    (hf : ∀ a, Keeps E pid (f a)) : Keeps E pid (p >>= f) := fun w totals =>
  Prog.wp_seq _ (hp w totals) (fun a v kept => hf a v kept) fun _ _ kept => kept

theorem keeps_op {α : Type} {c : Cmd} {k : c.Reply → UserM α}
    (quiet : ∀ k, IsStay k → ¬c.Touches k) (hk : ∀ r, Keeps E pid (k r)) :
    Keeps E pid (Prog.op c k) := by
  intro w totals r v hx
  exact hk r v (totals.of_same fun k hk => exec_frame hx.1 (quiet k hk))

theorem keeps_within {α : Type} {p : UserM α} (h : p.Every (Within fun k => ¬IsStay k)) :
    Keeps E pid p := by
  intro w totals
  apply Prog.wp_mono _ (Prog.wp_weaken (fun _ _ _ _ hx => hx.1) (wp_frame (E := E) h w))
  exact fun _ v same => totals.of_same fun k hk => same.db k (not_not_intro hk)

theorem keeps_whenM {c : Prop} [Decidable c] {p : UserM Unit} (h : Keeps E pid p) :
    Keeps E pid (whenM c p) := by
  unfold whenM
  split
  · exact h
  · exact fun w totals => totals

/-- What an increment does to the counters. -/
theorem stay_incr {w v : World} {k : Key} {integer r : Int32}
    (h : execCounting E pid (.store (.incr k integer)) w r v) (k' : Key) :
    stay v.db k' = stay w.db k' + if k' = k then integer.toInt else 0 := by
  split
  · rename_i here
    obtain ⟨number, behind⟩ := h.2
    obtain ⟨c, before⟩ := Option.isSome_iff_exists.mp number
    subst here
    rw [stay, stay, behind, before]
    rfl
  · rename_i elsewhere
    rw [stay, exec_frame h.1 fun touches => elsewhere touches.symm, stay, add_zero]

/-- The three counters follow each other with nothing between them. -/
theorem keeps_shopUserDurationAdd {mall_id shop_id user_id : Int32} {date : Stamp}
    {interval : Int32} :
    Keeps E pid (shopUserDurationAdd cfg mall_id shop_id user_id date interval) := by
  intro w totals r u hu r' s hs r'' v hv
  have counters (k : Key) := (stay_incr hv k).trans
    (congrArg (· + _) ((stay_incr hs k).trans (congrArg (· + _) (stay_incr hu k))))
  apply totals.count date mall_id shop_id user_id (clampInterval cfg interval).toInt
  · intro d m s u
    simpa using counters (.userShopDuration d m s u)
  · intro d m s
    simpa using counters (.shopDuration d m s)
  · intro d m
    simpa using counters (.mallDuration d m)

theorem keeps_recordInShop {shop_id user_id : Int32} {mac : UInt64} {now : Int64} {is_vip : Bool} :
    Keeps E pid (recordInShop cfg shop_id user_id mac now is_vip) := by
  have last : Keeps E pid (getUserLocationTime 2 shop_id mac) := by
    apply keeps_within
    exact every_userMapInit.bind fun _ => every_get (by simp [IsStay])
  have times : Keeps E pid (updateUserLocationTime cfg 2 shop_id mac now) := by
    apply keeps_within
    exact every_userMapInit.bind fun _ => (every_set (by simp [IsStay])).bind fun _ =>
      every_zadd (by simp [IsStay])
  have arrive (last_time : Int64) :
      Keeps E pid (updateUserArriveTime cfg 2 shop_id user_id last_time now is_vip) := by
    apply keeps_within
    exact every_userMapInit.bind fun _ => every_whenM fun _ => every_zadd (by simp [IsStay])
  have place : Keeps E pid (updateShopidOfUserLocation cfg user_id shop_id now) :=
    keeps_within (every_set (by simp [IsStay]))
  exact last.bind fun last_time => times.bind fun _ => keeps_shopUserDurationAdd.bind fun _ =>
    (arrive last_time).bind fun _ => place

theorem keeps_apmacCloserSightings {shop_id : Int32} {now : Int64} (entries : List (Text × UInt64)) :
    Keeps E pid (apmacCloserSightings cfg shop_id now entries) := by
  induction entries with
  | nil => exact fun w totals => totals
  | cons entry entries ih =>
    have vip : Keeps E pid (macIsVip entry.1 shop_id) :=
      (keeps_within every_userMapInit).bind fun _ =>
        keeps_op (fun _ _ => not_false) fun _ _ totals => totals
    have id : Keeps E pid (userGetId entry.2) :=
      keeps_within (every_userGetId (by simp [IsStay]) (by simp [IsStay]))
    have sighting : Keeps E pid (apmacCloserSighting cfg shop_id now entry) :=
      vip.bind fun _ => id.bind fun _ => keeps_whenM keeps_recordInShop
    exact sighting.bind fun _ => ih

theorem keeps_parseApmacCloserMsg {apUninit : Mac} {uninit : Nat → Mac} {msg : Text} :
    Keeps E pid (parseApmacCloserMsg cfg apUninit uninit msg) := by
  have shop : Keeps E pid (apmacGetShopid (closerApMac apUninit msg)) :=
    (keeps_within every_userMapInit).bind fun _ =>
      keeps_op (fun _ _ => not_false) fun _ _ totals => totals
  exact shop.bind fun _ => keeps_op (c := .time) (fun _ _ => not_false) fun _ =>
    keeps_apmacCloserSightings _

/-! ## Sequences of messages -/

/-- Messages one after the other; each may end with an exception. -/
inductive CloserMessages (E : Env) (cfg : Config) (w0 : World) : World → Prop
  | start : CloserMessages E cfg w0 w0
  | message {w w' : World} {pid : Nat} {apUninit : Mac} {uninit : Nat → Mac} {msg : Text}
      {now : Int64} {x : Except Exn Unit} (before : CloserMessages E cfg w0 w)
      (runs : (parseApmacCloserMsg cfg apUninit uninit msg).Runs (execCounting E pid)
        { w with clock := [now] } x w') : CloserMessages E cfg w0 w'

/-- Nothing has been counted. -/
theorem totals_of_none {db : Db} (none : ∀ k, IsStay k → db k.text = none) : Totals db := by
  have zero (k : Key) (h : IsStay k) : stay db k = 0 := by rw [stay, none k h]; rfl
  constructor
  · intro date mall_id shop_id
    have users (u : Int32) : stay db (.userShopDuration date mall_id.toInt shop_id.toInt u.toInt) =
      0 := zero _ (Or.inl ⟨_, _, _, _, rfl⟩)
    rw [zero _ (Or.inr (Or.inl ⟨_, _, _, rfl⟩))]
    simp only [users, finsum_zero]
  · intro date mall_id
    have shops (s : Int32) : stay db (.shopDuration date mall_id.toInt s.toInt) = 0 :=
      zero _ (Or.inr (Or.inl ⟨_, _, _, rfl⟩))
    rw [zero _ (Or.inr (Or.inr ⟨_, _, rfl⟩))]
    simp only [shops, finsum_zero]

theorem CloserMessages.totals {w0 w : World} (run : CloserMessages E cfg w0 w)
    (totals : Totals w0.db) : Totals w.db := by
  induction run with
  | start => exact totals
  | message before runs ih => exact runs.post _ (keeps_parseApmacCloserMsg _ ih)

/-- After any messages the total of a shop is the sum over its users, and the
total of a mall the sum over its shops. -/
theorem stay_times_add_up {w0 w : World} (fresh : ∀ k, IsStay k → w0.db k.text = none)
    (run : CloserMessages E cfg w0 w) (date : Stamp) (mall_id : Int32) :
    (∀ shop_id : Int32, stay w.db (.shopDuration date mall_id.toInt shop_id.toInt) =
      ∑ᶠ user_id : Int32,
        stay w.db (.userShopDuration date mall_id.toInt shop_id.toInt user_id.toInt)) ∧
    stay w.db (.mallDuration date mall_id.toInt) =
      ∑ᶠ shop_id : Int32, stay w.db (.shopDuration date mall_id.toInt shop_id.toInt) := by
  have totals := run.totals (totals_of_none fresh)
  exact ⟨totals.shop date mall_id, totals.mall date mall_id⟩

/-! ## Two users in two shops -/

def twoUsers : Users := fun mac => if mac = 5 then some 7 else if mac = 6 then some 8 else none

/-- One access point stands in the shop 9, any other in the shop 10. -/
def answerShops : (c : Cmd) → World → Option (c.Reply × World)
  | .apmacGetShopid mac, w => some (if mac = 0x60cda9009a3a then (9 : Int32) else (10 : Int32), w)
  | c, w => answerFull c w

theorem exec_answerShops (c : Cmd) (w : World) (r : c.Reply × World)
    (h : answerShops c w = some r) : exec fullEnv 0 c w r.1 r.2 := by
  cases c with
  | apmacGetShopid mac => obtain rfl := Option.some.inj h; rfl
  | _ => exact exec_answerFull _ w r h

/-- The same as long as increments succeed. -/
def answerCounting (c : Cmd) (w : World) : Option (c.Reply × World) :=
  (answerShops c w).filter fun r => c.Counts w r.2

theorem exec_answerCounting (c : Cmd) (w : World) (r : c.Reply × World)
    (h : answerCounting c w = some r) : execCounting fullEnv 0 c w r.1 r.2 := by
  obtain ⟨answered, counts⟩ := Option.filter_eq_some_iff.mp h
  exact ⟨exec_answerShops c w r answered, of_decide_eq_true counts⟩

/-- Messages and the times at which they come. -/
def closersOf : List (Text × Int64) → World → Option World
  | [], w => some w
  | (msg, now) :: msgs, w =>
    ((parseApmacCloserMsg firstDay (fun _ => 0) (fun _ _ => 0) msg).eval answerCounting
      { w with clock := [now] }).bind fun r => closersOf msgs r.2

theorem CloserMessages.closersOf {w0 : World} {msgs : List (Text × Int64)} {w w' : World}
    (before : CloserMessages fullEnv firstDay w0 w) (h : UserMap.closersOf msgs w = some w') :
    CloserMessages fullEnv firstDay w0 w' := by
  induction msgs generalizing w with
  | nil =>
    obtain rfl := Option.some.inj h
    exact before
  | cons msg msgs ih =>
    obtain ⟨r, runs, rest⟩ := Option.bind_eq_some_iff.mp h
    exact ih (before.message (Prog.runs_eval _ exec_answerCounting runs)) rest

/-- Both users are in the shop 9 twice, then the second of them in the shop 10. -/
def fourClosers : List (Text × Int64) :=
  let here := "ApMac-Closer:60:cd:a9:00:9a:3a Macs:[00:00:00:00:00:05,00:00:00:00:00:06,]".toList
  let there := "ApMac-Closer:60:cd:a9:00:9a:3b Macs:[00:00:00:00:00:06,]".toList
  [(here, 300), (here, 340), (there, 420), (there, 450)]

theorem stay_times_add_up_once : ∃ w : World,
    stay w.db (.shopDuration (getDateStr utcFirstDay 300) 2 9) = 320 ∧
      ∑ᶠ user_id : Int32,
        stay w.db (.userShopDuration (getDateStr utcFirstDay 300) 2 9 user_id.toInt) = 320 ∧
      stay w.db (.mallDuration (getDateStr utcFirstDay 300) 2) = 470 ∧
      ∑ᶠ shop_id : Int32,
        stay w.db (.shopDuration (getDateStr utcFirstDay 300) 2 shop_id.toInt) = 470 := by
  have runs : (closersOf fourClosers (World.fresh twoUsers [])).map
      (fun w => (stay w.db (.shopDuration (getDateStr utcFirstDay 300) 2 9),
        stay w.db (.mallDuration (getDateStr utcFirstDay 300) 2))) = some (320, 470) := by
    decide +kernel
  obtain ⟨w, run, ends⟩ := Option.map_eq_some_iff.mp runs
  obtain ⟨shop, mall⟩ := Prod.mk.inj ends
  have messages := CloserMessages.start.closersOf run
  have fresh : ∀ k, IsStay k → (World.fresh twoUsers []).db k.text = none := fun _ _ => rfl
  obtain ⟨shops, malls⟩ := stay_times_add_up fresh messages (getDateStr utcFirstDay 300) 2
  exact ⟨w, shop, (shops 9).symm.trans shop, mall, malls.symm.trans mall⟩

end

end UserMap

end SimpleDsp
