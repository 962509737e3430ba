import SimpleDsp.AdMap.Filters

/-!
# The auction

`bidding`, `ad_request` and `ad_click`, as `ad_map.cpp` has them, on the store
and the commands handed to `exec`. Doubles are exact.
-/

namespace SimpleDsp

open DecimalText

namespace AdMap

variable (G : Globals)

/-! ## eCPM -/

def NEW_AD_MIN_SHOW_COUNT : Int32 := 100

def NEW_AD_CTR : Rat := 5 / 100

/-- `std::numeric_limits<double>::max()` -/
def DBL_MAX : Rat := ((2 ^ 1024 - 2 ^ 971 : Nat) : Rat)

section
variable (db : Db)

def checkAdValid (mall_id ad_id : Int32) : Bool :=
  decide ((0 : Int32) < get G db .int (.ad mall_id.toInt ad_id.toInt .valid) (1 : Int32))

def adIdSet (mall_id ad_group_id : Int32) : List Int32 :=
  smembers G db .int (.adGroup mall_id.toInt ad_group_id.toInt .adSet)

def counterOf (mall_id ad_id : Int32) (type : ChargeType) : Int32 :=
  atoi (get G db .string (.ad mall_id.toInt ad_id.toInt (.counter type)) "0".toList)

def priceOf (mall_id ad_group_id : Int32) (type : ChargeType) : Rat :=
  get G db .double (.adGroup mall_id.toInt ad_group_id.toInt (.price type)) (0 : Rat)

/-- A weight that is not set counts as one. -/
def weightOf (mall_id ad_id : Int32) : Int32 :=
  let weight : Int32 := get G db .int (.ad mall_id.toInt ad_id.toInt .weight) (0 : Int32)
  if weight = 0 then 1 else weight

/-- The variables of the loop in `get_eCPM`. -/
structure Tally where
  sum_weight : Int32
  sum_eCPM : Rat
  min_show_weight : Rat
  next_ad_id : Int32

def showWeight (mall_id ad_id : Int32) : Rat :=
  ((counterOf G db mall_id ad_id .show).toInt + 1 : Rat) / ((weightOf G db mall_id ad_id).toInt : Rat)

/-- The thousand shows of one ad. -/
def adECPM (mall_id ad_group_id ad_id : Int32) : Rat :=
  let show_price := priceOf G db mall_id ad_group_id .show
  let click_price := priceOf G db mall_id ad_group_id .click
  let show_counter := counterOf G db mall_id ad_id .show
  let click_counter := counterOf G db mall_id ad_id .click
  if show_counter < NEW_AD_MIN_SHOW_COUNT then
    1000 * show_price + 1000 * click_price * NEW_AD_CTR
  else
    1000 * show_price + 1000 * click_price * (click_counter.toInt : Rat) / (show_counter.toInt : Rat)

def tallyAd (mall_id ad_group_id : Int32) (s : Tally) (ad_id : Int32) : Tally :=
  if checkAdValid G db mall_id ad_id then
    let weight := weightOf G db mall_id ad_id
    let show_weight := showWeight G db mall_id ad_id
    let less : Bool := decide (show_weight < s.min_show_weight)
    { sum_weight := s.sum_weight + weight
      sum_eCPM := s.sum_eCPM + adECPM G db mall_id ad_group_id ad_id * (weight.toInt : Rat)
      min_show_weight := if less then show_weight else s.min_show_weight
      next_ad_id := if less then ad_id else s.next_ad_id }
  else s

/-- The sum over the ads of the group; `next_ad_id` is what the caller's variable
holds before. -/
def tallyAds (mall_id ad_group_id next_ad_id : Int32) : Tally :=
  (adIdSet G db mall_id ad_group_id).foldl (tallyAd G db mall_id ad_group_id)
    ⟨0, 0, DBL_MAX, next_ad_id⟩

/-- The eCPM and the ad to show next. -/
def getECPM (mall_id ad_group_id next_ad_id : Int32) : Rat × Int32 :=
  let s := tallyAds G db mall_id ad_group_id next_ad_id
  (if s.sum_weight = 0 then 0 else s.sum_eCPM / (s.sum_weight.toInt : Rat), s.next_ad_id)

end

/-! ## The highest bids -/

/-- The three arrays of `bidding`. -/
structure Highest (n : Nat) where
  highest_ad_group_list : Fin n → Int32
  highest_eCPM_list : Fin n → Rat
  next_ad_list : Fin n → Int32

namespace Highest

variable {n : Nat}

/-- `new T[n] {}` -/
def zero (n : Nat) : Highest n := ⟨fun _ => 0, fun _ => 0, fun _ => 0⟩

def set (lists : Highest n) (j : Fin n) (it : Int32) (eCPM : Rat) (next_ad_id : Int32) :
    Highest n where
  highest_ad_group_list := Function.update lists.highest_ad_group_list j it
  highest_eCPM_list := Function.update lists.highest_eCPM_list j eCPM
  next_ad_list := Function.update lists.next_ad_list j next_ad_id

/-- The inner loop, from `j - 1` down to zero. -/
def insert (it : Int32) (eCPM : Rat) (next_ad_id : Int32) :
    (j : Nat) → j ≤ n → Highest n → Highest n
  | 0, _, lists => lists
  | j + 1, h, lists =>
    let here : Fin n := ⟨j, h⟩
    if lists.highest_eCPM_list here < eCPM then
      let moved :=
        if h' : j + 1 < n then
          lists.set ⟨j + 1, h'⟩ (lists.highest_ad_group_list here) (lists.highest_eCPM_list here)
            (lists.next_ad_list here)
        else lists
      insert it eCPM next_ad_id j (Nat.le_of_succ_le h) (moved.set here it eCPM next_ad_id)
    else lists

end Highest

/-- A group that bids, and the ad it wants to show. -/
structure Bid where
  group : Int32
  eCPM : Rat
  ad : Int32

def Highest.bid {n : Nat} (lists : Highest n) (i : Fin n) : Bid :=
  ⟨lists.highest_ad_group_list i, lists.highest_eCPM_list i, lists.next_ad_list i⟩

/-! ## Answers and charges -/

structure AdNode where
  content : Text
  jump_url : Text
  id : Int32
  group_id : Int32
  deriving DecidableEq

/-- The answer to the page. -/
structure Ret where
  ad : List AdNode
  result : Option Text

def Ret.empty : Ret := ⟨[], none⟩

structure Remark where
  engine_id : Int32
  ad_id : Int32
  ad_group_id : Int32
  charge_type : ChargeType
  deriving DecidableEq

/-- The values put into `charge_ad_sql`; the type of the transaction is always
`adv_consume`. -/
structure Charge where
  owner_id : Int32
  change : Rat
  remark : Remark
  mall_id : Int32
  deriving DecidableEq

/-- The store, and the commands executed so far. -/
structure AdState where
  db : Db
  charges : List Charge

def increaseAdTime (mall_id show_ad_id : Int32) (type : ChargeType) (s : AdState) : AdState :=
  { s with
    db := (CBaseMdb.incr G.type G.m (Key.ad mall_id.toInt show_ad_id.toInt (.counter type)).text 1
      s.db).2 }

def getAd (db : Db) (mall_id show_ad_group_id show_ad_id : Int32) : AdNode where
  content := get G db .string (.ad mall_id.toInt show_ad_id.toInt .content) []
  jump_url := get G db .string (.ad mall_id.toInt show_ad_id.toInt .jumpUrl) []
  id := show_ad_id
  group_id := show_ad_group_id

def getEngineId : Int32 := 1

def ownerOf (db : Db) (mall_id ad_group_id : Int32) : Int32 :=
  get G db .int (.adGroup mall_id.toInt ad_group_id.toInt .owner) (0 : Int32)

def getChargeCmd (db : Db) (mall_id ad_id ad_group_id : Int32) (type : ChargeType) : Charge where
  owner_id := ownerOf G db mall_id ad_group_id
  change :=
    let change := priceOf G db mall_id ad_group_id type
    if 0 ≤ change then -change else change
  remark := ⟨getEngineId, ad_id, ad_group_id, type⟩
  mall_id := mall_id

def chargeAd (mall_id ad_id ad_group_id : Int32) (type : ChargeType) (s : AdState) : AdState :=
  { s with charges := s.charges ++ [getChargeCmd G s.db mall_id ad_id ad_group_id type] }

/-- One round of the loop that answers. -/
def showBid (mall_id : Int32) (b : Bid) (a : Ret × AdState) : Ret × AdState :=
  ({ a.1 with ad := a.1.ad ++ [getAd G a.2.db mall_id b.group b.ad] },
    chargeAd G mall_id b.ad b.group .show (increaseAdTime G mall_id b.ad .show a.2))

/-- The loop that answers, and the number of its rounds. -/
def showBids (mall_id : Int32) : List Bid → Ret × AdState → Nat × Ret × AdState
  | [], a => (0, a)
  | b :: rest, a =>
    if b.eCPM ≠ 0 then
      let r := showBids mall_id rest (showBid G mall_id b a)
      (r.1 + 1, r.2)
    else (0, a)

/-! ## Requests and clicks -/

def userLabelSet (db : Db) (user_id : Int32) : List Text :=
  if 0 < user_id then hgetFields G db (.userLabelSet user_id.toInt) else []

/-- The filters in the loop over the candidates; `p.2` counts the rounds. -/
def passesIn (db : Db) (user_id mall_id : Int32) (looks : Nat → Look) (p : Int32 × Nat) : Bool :=
  passes G db user_id mall_id (userLabelSet G db user_id) (looks p.2) p.1

def bidFor (db : Db) (user_id mall_id : Int32) (looks : Nat → Look) {n : Nat} (lists : Highest n)
    (p : Int32 × Nat) : Highest n :=
  if passesIn G db user_id mall_id looks p then
    let e := getECPM G db mall_id p.1 (-1)
    lists.insert p.1 e.1 e.2 n (Nat.le_refl n)
  else lists

/-- `looks` has the readings of the clock; `ad_op` makes `n` at least one. -/
def bidding (pos : UserPosition) (user_id space_id mall_id : Int32) (n : Nat) (looks : Nat → Look)
    (a : Ret × AdState) : Ret × AdState :=
  let db := a.2.db
  let ad_group_list := adGroupList G db pos user_id space_id mall_id
  let lists := ad_group_list.zipIdx.foldl (bidFor G db user_id mall_id looks) (Highest.zero n)
  let r := showBids G mall_id (List.ofFn lists.bid) a
  ({ r.2.1 with result := some (if r.1 ≠ 0 then "ok".toList else "no valid ad".toList) }, r.2.2)

/-- `user_map::user_query` -/
def userQuery (db : Db) (mac : UInt64) (mall_id : Int32) : UserPosition where
  mac := mac
  position := {
    x := get G db .double (.location mall_id.toInt mac .x) (0 : Rat)
    y := get G db .double (.location mall_id.toInt mac .y) (0 : Rat)
    z := get G db .int (.location mall_id.toInt mac .z) (0 : Int32) }

/-- It always returns -1. -/
def adRequest (mac : UInt64) (user_id space_id mall_id : Int32) (n : Nat) (looks : Nat → Look)
    (a : Ret × AdState) : Ret × AdState :=
  bidding G (userQuery G a.2.db mac mall_id) user_id space_id mall_id n looks a

/-- The group in the record of the ad. -/
def groupOf (db : Db) (mall_id ad_id : Int32) : Int32 :=
  get G db .int (.ad mall_id.toInt ad_id.toInt .group) (-1 : Int32)

def adClick (ad_id mall_id : Int32) (a : Ret × AdState) : Int32 × Ret × AdState :=
  let group_id := groupOf G a.2.db mall_id ad_id
  if group_id = -1 then (-1, { a.1 with result := some "no such ad".toList }, a.2)
  else
    (0, { a.1 with result := some "ok".toList },
      chargeAd G mall_id ad_id group_id .click (increaseAdTime G mall_id ad_id .click a.2))

end AdMap

end SimpleDsp
