import SimpleDsp.AdMap.Bidding
import SimpleDsp.Lib.Monitors

/-!
# ad_map, one operation at a time

The functions of `ad_map.cpp` as programs over the operations of `g_baseMdb_ad`, the clock
and `exec`, in the order of the source, and the calls of them that a process of `ad_op` makes
in its loop. `exec` says what each operation does to the store and the charges.
-/

namespace SimpleDsp

open DecimalText Programs
open AdMap (Globals UserPosition Tally Highest Bid AdNode Ret Charge AdState)

namespace AdServer

open Prog (call)

inductive Cmd
  | get (τ : Ty) (k : Key) (default_v : τ.Val)
  | smembers (τ : Ty) (k : Key)
  | zmembers (τ : Ty) (k : Key)
  /-- `hget`, of which the names of the fields are used. -/
  | hget (k : Key)
  /-- `incr` by one -/
  | incr (k : Key)
  /-- `time(0)` -/
  | time
  /-- `exec` of the command of a charge -/
  | exec (charge : Charge)

abbrev Cmd.Reply : Cmd → Type
  | get τ _ _ => τ.Val
  | smembers τ _ => List τ.Val
  | zmembers τ _ => List τ.Val
  | hget _ => List Text
  | incr _ => Int32
  | time => Int64
  | exec _ => Unit

/-- No exception leaves a function of `ad_map`. -/
abbrev AdM := Prog Cmd Cmd.Reply Empty

def get (τ : Ty) (k : Key) (default_v : τ.Val) : AdM τ.Val := call (Cmd.get τ k default_v)

def smembers (τ : Ty) (k : Key) : AdM (List τ.Val) := call (Cmd.smembers τ k)

def zmembers (τ : Ty) (k : Key) : AdM (List τ.Val) := call (Cmd.zmembers τ k)

/-! ## Candidates -/

def getAdGroupSetOfSpace (mall_id space_id : Int32) : AdM (List Int32) :=
  zmembers .int (.adSpace mall_id.toInt space_id.toInt)

def getAdGroupSetOfLocation (G : Globals) (mall_id : Int32) (pos : UserPosition) :
    AdM (List Int32) :=
  zmembers .int (.adLocation mall_id.toInt (AdMap.cellOf pos.position.x G.slice_x).toInt
    (AdMap.cellOf pos.position.y G.slice_y).toInt pos.position.z.toInt)

def adGroupList (G : Globals) (pos : UserPosition) (user_id space_id mall_id : Int32) :
    AdM (List Int32) := do
  let ad_group_set_of_space ← getAdGroupSetOfSpace mall_id space_id
  if 0 < user_id then do
    let ad_group_set_of_location ← getAdGroupSetOfLocation G mall_id pos
    pure (AdMap.setIntersection ad_group_set_of_space ad_group_set_of_location)
  else pure ad_group_set_of_space

def userLabelSet (user_id : Int32) : AdM (List Text) :=
  if 0 < user_id then call (Cmd.hget (.userLabelSet user_id.toInt)) else pure []

/-! ## Filters -/

/-- `user_map::get_shopid_of_user_location` -/
def getShopidOfUserLocation (G : Globals) (user_id : Int32) : AdM Int32 := do
  let t_now ← call Cmd.time
  get .int (.userShopId (getDateStr G.localtime t_now.toInt) user_id.toInt) (0 : Int32)

def checkMarketShop (G : Globals) (user_id group_id mall_id : Int32) : AdM Bool := do
  let shop_id_list ← smembers .int (.adGroup mall_id.toInt group_id.toInt .marketShopSet)
  match (shop_id_list : List Int32) with
  | [] => pure true
  | first :: rest =>
    if 0 < user_id then do
      let shop_id ← getShopidOfUserLocation G user_id
      if 0 ≤ first then pure (decide (0 < shop_id) && (first :: rest).contains shop_id)
      else pure !(decide (0 < shop_id) && (first :: rest).contains (-shop_id))
    else pure !(decide (0 ≤ first))

def checkTimeRange (mall_id : Int32) (time : Int64) (ad_group_id : Int32) : AdM Bool := do
  let s_start ← get .string (.adGroup mall_id.toInt ad_group_id.toInt .marketStart) []
  let s_end ← get .string (.adGroup mall_id.toInt ad_group_id.toInt .marketEnd) []
  if (s_start : Text) = [] ∨ (s_end : Text) = [] then pure true
  else
    match AdMap.stoll s_start, AdMap.stoll s_end with
    | some start, some end_ => pure (decide (start ≤ time.toInt) && decide (time.toInt ≤ end_))
    | _, _ => pure true

def checkCronTimeSet (G : Globals) (mall_id : Int32) (time : Int64) (ad_group_id : Int32) :
    AdM Bool := do
  let time_range_set ← smembers .string (.adGroup mall_id.toInt ad_group_id.toInt .cronTimeSet)
  pure ((time_range_set : List Text).isEmpty ||
    (time_range_set : List Text).any fun s =>
      checkCronTiming G.localtime time (.ofMemory (s ++ nul :: G.m.beyond s)))

def checkLabels (user_id mall_id : Int32) (user_label_set : List Text) (it : Int32) : AdM Bool := do
  let ad_group_label_set ← smembers .string (.adGroup mall_id.toInt it.toInt .targetLabelSet)
  pure !(decide (0 < user_id) && !(ad_group_label_set : List Text).isEmpty
    && !AdMap.checkIntersection user_label_set ad_group_label_set)

/-- The filters in the loop of `bidding`; each `continue` is a `false`. -/
def passes (G : Globals) (user_id mall_id : Int32) (user_label_set : List Text) (it : Int32) :
    AdM Bool := do
  if ← checkMarketShop G user_id it mall_id then do
    let valid ← get .int (.adGroup mall_id.toInt it.toInt .valid) (1 : Int32)
    if (valid : Int32) = 0 then pure false
    else do
      let t_now ← call Cmd.time
      if ← checkTimeRange mall_id t_now it then do
        if ← checkCronTimeSet G mall_id t_now it then checkLabels user_id mall_id user_label_set it
        else pure false
      else pure false
  else pure false

/-! ## eCPM -/

def checkAdValid (mall_id ad_id : Int32) : AdM Bool := do
  let valid ← get .int (.ad mall_id.toInt ad_id.toInt .valid) (1 : Int32)
  pure (decide ((0 : Int32) < valid))

/-- What the loop of `get_eCPM` does with what it has read. -/
def tally (show_price click_price : Rat) (show_counter click_counter weight : Int32) (s : Tally)
    (ad_id : Int32) : Tally :=
  let eCPM : Rat :=
    if show_counter < AdMap.NEW_AD_MIN_SHOW_COUNT then
      1000 * show_price + 1000 * click_price * AdMap.NEW_AD_CTR
    else
      1000 * show_price + 1000 * click_price * (click_counter.toInt : Rat) / (show_counter.toInt : Rat)
  let show_weight : Rat := (show_counter.toInt + 1 : Rat) / (weight.toInt : Rat)
  let less : Bool := decide (show_weight < s.min_show_weight)
  { sum_weight := s.sum_weight + weight
    sum_eCPM := s.sum_eCPM + eCPM * (weight.toInt : Rat)
    min_show_weight := if less then show_weight else s.min_show_weight
    next_ad_id := if less then ad_id else s.next_ad_id }

def tallyAd (show_price click_price : Rat) (mall_id : Int32) (s : Tally) (ad_id : Int32) :
    AdM Tally := do
  if ← checkAdValid mall_id ad_id then do
    let s_show_counter ← get .string (.ad mall_id.toInt ad_id.toInt (.counter .show)) "0".toList
    let s_click_counter ← get .string (.ad mall_id.toInt ad_id.toInt (.counter .click)) "0".toList
    let weight ← get .int (.ad mall_id.toInt ad_id.toInt .weight) (0 : Int32)
    pure (tally show_price click_price (atoi s_show_counter) (atoi s_click_counter)
      (if (weight : Int32) = 0 then 1 else weight) s ad_id)
  else pure s

def getECPM (mall_id ad_group_id next_ad_id : Int32) : AdM (Rat × Int32) := do
  let ad_id_set ← smembers .int (.adGroup mall_id.toInt ad_group_id.toInt .adSet)
  let show_price ← get .double (.adGroup mall_id.toInt ad_group_id.toInt (.price .show)) (0 : Rat)
  let click_price ← get .double (.adGroup mall_id.toInt ad_group_id.toInt (.price .click)) (0 : Rat)
  let s ← (ad_id_set : List Int32).foldlM (tallyAd show_price click_price mall_id)
    ⟨0, 0, AdMap.DBL_MAX, next_ad_id⟩
  pure (if s.sum_weight = 0 then 0 else s.sum_eCPM / (s.sum_weight.toInt : Rat), s.next_ad_id)

/-! ## Answers and charges -/

def increaseAdTime (mall_id show_ad_id : Int32) (type : ChargeType) : AdM Unit := do
  let _ ← call (Cmd.incr (.ad mall_id.toInt show_ad_id.toInt (.counter type)))
  pure ()

def getAd (mall_id show_ad_group_id show_ad_id : Int32) : AdM AdNode := do
  let content ← get .string (.ad mall_id.toInt show_ad_id.toInt .content) []
  let jump_url ← get .string (.ad mall_id.toInt show_ad_id.toInt .jumpUrl) []
  pure ⟨content, jump_url, show_ad_id, show_ad_group_id⟩

def getChargeCmd (mall_id ad_id ad_group_id : Int32) (type : ChargeType) : AdM Charge := do
  let price ← get .double (.adGroup mall_id.toInt ad_group_id.toInt (.price type)) (0 : Rat)
  let owner_id ← get .int (.adGroup mall_id.toInt ad_group_id.toInt .owner) (0 : Int32)
  pure ⟨owner_id, if 0 ≤ (price : Rat) then -(price : Rat) else price,
    ⟨AdMap.getEngineId, ad_id, ad_group_id, type⟩, mall_id⟩

def chargeAd (mall_id ad_id ad_group_id : Int32) (type : ChargeType) : AdM Unit := do
  let cmd ← getChargeCmd mall_id ad_id ad_group_id type
  call (Cmd.exec cmd)

def showBid (mall_id : Int32) (b : Bid) : AdM AdNode := do
  let ad ← getAd mall_id b.group b.ad
  increaseAdTime mall_id b.ad .show
  chargeAd mall_id b.ad b.group .show
  pure ad

/-- The loop that answers. -/
def showBids (mall_id : Int32) : List Bid → AdM (List AdNode)
  | [] => pure []
  | b :: rest =>
    if b.eCPM ≠ 0 then do
      let ad ← showBid mall_id b
      let ads ← showBids mall_id rest
      pure (ad :: ads)
    else pure []

/-! ## Requests and clicks -/

def bidFor (G : Globals) (user_id mall_id : Int32) (user_label_set : List Text) {n : Nat}
    (lists : Highest n) (it : Int32) : AdM (Highest n) := do
  if ← passes G user_id mall_id user_label_set it then do
    let e ← getECPM mall_id it (-1)
    pure (lists.insert it e.1 e.2 n (Nat.le_refl n))
  else pure lists

def bidding (G : Globals) (pos : UserPosition) (user_id space_id mall_id : Int32) (n : Nat) :
    AdM Ret := do
  let ad_group_list ← adGroupList G pos user_id space_id mall_id
  let user_label_set ← userLabelSet user_id
  let lists ← ad_group_list.foldlM (bidFor G user_id mall_id user_label_set) (Highest.zero n)
  let ad ← showBids mall_id (List.ofFn lists.bid)
  pure ⟨ad, some (if ad ≠ [] then "ok".toList else "no valid ad".toList)⟩

/-- `user_map::user_query` -/
def userQuery (mac : UInt64) (mall_id : Int32) : AdM UserPosition := do
  let x ← get .double (.location mall_id.toInt mac .x) (0 : Rat)
  let y ← get .double (.location mall_id.toInt mac .y) (0 : Rat)
  let z ← get .int (.location mall_id.toInt mac .z) (0 : Int32)
  pure ⟨mac, ⟨x, y, z⟩⟩

def adRequest (G : Globals) (mac : UInt64) (user_id space_id mall_id : Int32) (n : Nat) :
    AdM Ret := do
  let pos ← userQuery mac mall_id
  bidding G pos user_id space_id mall_id n

def adClick (ad_id mall_id : Int32) : AdM Ret := do
  let group_id ← get .int (.ad mall_id.toInt ad_id.toInt .group) (-1 : Int32)
  if (group_id : Int32) = -1 then pure ⟨[], some "no such ad".toList⟩
  else do
    increaseAdTime mall_id ad_id .click
    chargeAd mall_id ad_id group_id .click
    pure ⟨[], some "ok".toList⟩

/-- A call that `ad_op` makes of `ad_map`, with the user id and the MAC it passes on. -/
inductive Request
  | request (mac : UInt64) (user_id space_id mall_id : Int32) (n : Nat)
  | click (ad_id mall_id : Int32)

def Request.answer (G : Globals) : Request → AdM Ret
  | .request mac user_id space_id mall_id n => adRequest G mac user_id space_id mall_id n
  | .click ad_id mall_id => adClick ad_id mall_id

/-- The calls of `ad_map` in the loop in `main` of `ad_op`, one after the other; what `ad_op`
looks up before a call is left to `user_map`. -/
def main (G : Globals) : List Request → AdM (List Ret)
  | [] => pure []
  | request :: later => do
    let ret ← request.answer G
    let rets ← main G later
    pure (ret :: rets)

/-! ## What the operations do -/

/-- The store answers; the clock may show anything. -/
def exec (G : Globals) : (c : Cmd) → AdState → c.Reply → AdState → Prop
  | .get τ k default_v, s, r, s' => r = AdMap.get G s.db τ k default_v ∧ s' = s
  | .smembers τ k, s, r, s' => r = AdMap.smembers G s.db τ k ∧ s' = s
  | .zmembers τ k, s, r, s' => r = AdMap.zmembers G s.db τ k ∧ s' = s
  | .hget k, s, r, s' => r = AdMap.hgetFields G s.db k ∧ s' = s
  | .incr k, s, r, s' =>
    r = (CBaseMdb.incr G.type G.m k.text 1 s.db).1 ∧
      s' = { s with db := (CBaseMdb.incr G.type G.m k.text 1 s.db).2 }
  | .time, s, _, s' => s' = s
  | .exec charge, s, _, s' => s' = { s with charges := s.charges ++ [charge] }

/-- The operations as a function, with a clock that stands still. -/
def answers (G : Globals) (now : Int64) : (c : Cmd) → AdState → Option (c.Reply × AdState)
  | .get τ k default_v, s => some (AdMap.get G s.db τ k default_v, s)
  | .smembers τ k, s => some (AdMap.smembers G s.db τ k, s)
  | .zmembers τ k, s => some (AdMap.zmembers G s.db τ k, s)
  | .hget k, s => some (AdMap.hgetFields G s.db k, s)
  | .incr k, s =>
    let r := CBaseMdb.incr G.type G.m k.text 1 s.db
    some (r.1, { s with db := r.2 })
  | .time, s => some (now, s)
  | .exec charge, s => some ((), { s with charges := s.charges ++ [charge] })

theorem exec_answers {G : Globals} {now : Int64} (c : Cmd) (s : AdState) (r : c.Reply × AdState)
    (h : answers G now c s = some r) : exec G c s r.1 r.2 := by
  cases c with
  | get | smembers | zmembers | hget | incr =>
    obtain rfl := Option.some.inj h
    exact ⟨rfl, rfl⟩
  | time | exec =>
    obtain rfl := Option.some.inj h
    rfl

end AdServer

end SimpleDsp
