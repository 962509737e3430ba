import SimpleDsp.Store.IntSets
import Mathlib.Algebra.Order.Field.Rat

/-!
# Candidates and filters

What `bidding` asks of the store before the auction, as `ad_map.cpp` has it: the
groups of a space and of a cell of the mall, and for each group whether it may
be shown (`passes`). Nothing here changes the store.
-/

namespace SimpleDsp

open DecimalText

/-! ## Cron timings -/

structure CronTiming where
  minute : Text
  hour : Text
  dom : Text
  month : Text
  dow : Text
  year : Int32
  flags : Int32

def intAt (mem : Text) (offset : Nat) : Int32 :=
  (UInt32.ofNat (ofRaw ((mem.drop offset).take 4))).toInt32

/-- The structure that lies at the beginning of a memory; two bytes before the
year are padding. -/
def CronTiming.ofMemory (mem : Text) : CronTiming where
  minute := mem.take 8
  hour := (mem.drop 8).take 3
  dom := (mem.drop 11).take 4
  month := (mem.drop 15).take 2
  dow := (mem.drop 17).take 1
  year := intAt mem 20
  flags := intAt mem 24

def DOM_STAR : Int32 := 0x01

def DOW_STAR : Int32 := 0x02

def YEAR_STAR : Int32 := 0x20

def bitTest (name : Text) (bit : Nat) : Bool := (name.getD (bit / 8) nul).toNat.testBit (bit % 8)

def checkCronTiming (localtime : Localtime) (time : Int64) (time_range : CronTiming) : Bool :=
  let timeinfo := localtime time.toInt
  bitTest time_range.minute timeinfo.tm_min
    && bitTest time_range.hour timeinfo.tm_hour
    && bitTest time_range.month timeinfo.tm_mon
    && (if time_range.flags &&& YEAR_STAR ≠ 0 then true
      else decide (time_range.year.toInt = timeinfo.tm_year))
    && (if time_range.flags &&& DOM_STAR ≠ 0 ∨ time_range.flags &&& DOW_STAR ≠ 0 then
        bitTest time_range.dow timeinfo.tm_wday && bitTest time_range.dom timeinfo.tm_mday
      else bitTest time_range.dow timeinfo.tm_wday || bitTest time_range.dom timeinfo.tm_mday)

namespace AdMap

/-- The variables of `ad_map.cpp` that stay as they are, and what the machine
leaves open. -/
structure Globals where
  type : TypeDb
  m : Machine
  localtime : Localtime
  slice_x : Int32
  slice_y : Int32

/-- The members of a set come in the order `o`. -/
def Globals.listedBy (G : Globals) (o : Order) : Globals := { G with m := G.m.listedBy o }

structure GeoInfo where
  x : Rat
  y : Rat
  z : Int32

/-- A user's place; floats are exact. -/
structure UserPosition where
  mac : UInt64
  position : GeoInfo

variable (G : Globals) (db : Db)

/-! ## The operations of g_baseMdb_ad -/

def get (τ : Ty) (k : Key) (default_v : τ.Val) : τ.Val :=
  CBaseMdb.get G.type G.m τ k.text default_v db

def smembers (τ : Ty) (k : Key) : List τ.Val := CBaseMdb.smembers G.type G.m τ k.text db

def zmembers (τ : Ty) (k : Key) : List τ.Val := CBaseMdb.zmembers G.type G.m τ k.text db

/-- The names of the fields; the map that `hget` fills has them in order, which
only `check_intersection` gets to see. -/
def hgetFields (k : Key) : List Text := (CBaseMdb.hget G.type G.m .double k.text db).map (·.1)

/-! ## Candidates -/

def getAdGroupSetOfSpace (mall_id space_id : Int32) : List Int32 :=
  zmembers G db .int (.adSpace mall_id.toInt space_id.toInt)

/-- `int(x / slice)` -/
def cellOf (x : Rat) (slice : Int32) : Int32 :=
  let q := x / (slice.toInt : Rat)
  Int32.ofInt (q.num.tdiv q.den)

def getAdGroupSetOfLocation (mall_id : Int32) (pos : UserPosition) : List Int32 :=
  zmembers G db .int (.adLocation mall_id.toInt (cellOf pos.position.x G.slice_x).toInt
    (cellOf pos.position.y G.slice_y).toInt pos.position.z.toInt)

/-- The step of `std::set_intersection` that looks for `a`; `rest` goes on
behind `a`. -/
def intersectAt (a : Int32) (rest : List Int32 → List Int32) : List Int32 → List Int32
  | [] => []
  | b :: bs =>
    if a < b then rest (b :: bs)
    else if b < a then intersectAt a rest bs
    else a :: rest bs

/-- `std::set_intersection`, on ranges that need not be sorted. -/
def setIntersection : List Int32 → List Int32 → List Int32
  | [], _ => []
  | a :: as, bs => intersectAt a (setIntersection as) bs

def adGroupList (pos : UserPosition) (user_id space_id mall_id : Int32) : List Int32 :=
  let ad_group_set_of_space := getAdGroupSetOfSpace G db mall_id space_id
  if 0 < user_id then
    setIntersection ad_group_set_of_space (getAdGroupSetOfLocation G db mall_id pos)
  else ad_group_set_of_space

/-! ## Filters -/

/-- The two readings of the clock while the loop looks at one candidate. -/
structure Look where
  shop : Int64
  now : Int64

/-- `user_map::get_shopid_of_user_location` -/
def getShopidOfUserLocation (user_id : Int32) (t_now : Int64) : Int32 :=
  get G db .int (.userShopId (getDateStr G.localtime t_now.toInt) user_id.toInt) (0 : Int32)

def checkMarketShop (user_id group_id mall_id : Int32) (t_now : Int64) : Bool :=
  let shop_id_list : List Int32 := smembers G db .int (.adGroup mall_id.toInt group_id.toInt .marketShopSet)
  match shop_id_list with
  | [] => true
  | first :: _ =>
    let shop_id := getShopidOfUserLocation G db user_id t_now
    if 0 ≤ first then
      decide (0 < user_id) && decide (0 < shop_id) && shop_id_list.contains shop_id
    else
      -- The selection is reversed.
      !(decide (0 < user_id) && decide (0 < shop_id) && shop_id_list.contains (-shop_id))

/-- `std::stoll`; `none` when it throws. -/
def stoll (s : Text) : Option Int :=
  (scanInt s).bind fun p => if -2 ^ 63 ≤ p.1 ∧ p.1 < 2 ^ 63 then some p.1 else none

def checkTimeRange (mall_id : Int32) (time : Int64) (ad_group_id : Int32) : Bool :=
  let s_start : Text := get G db .string (.adGroup mall_id.toInt ad_group_id.toInt .marketStart) []
  let s_end : Text := get G db .string (.adGroup mall_id.toInt ad_group_id.toInt .marketEnd) []
  if s_start = [] ∨ s_end = [] then true
  else
    match stoll s_start, stoll s_end with
    | some start, some end_ => decide (start ≤ time.toInt) && decide (time.toInt ≤ end_)
    | _, _ => true

/-- The characters of each member are taken for a `cron_timing`. -/
def checkCronTimeSet (mall_id : Int32) (time : Int64) (ad_group_id : Int32) : Bool :=
  let time_range_set : List Text :=
    smembers G db .string (.adGroup mall_id.toInt ad_group_id.toInt .cronTimeSet)
  time_range_set.isEmpty ||
    time_range_set.any fun s =>
      checkCronTiming G.localtime time (.ofMemory (s ++ nul :: G.m.beyond s))

def checkIntersection (set1 set2 : List Text) : Bool := set2.any fun label => set1.contains label

/-- The filters of the loop in `bidding`, in their order. -/
def passes (user_id mall_id : Int32) (user_label_set : List Text) (look : Look) (it : Int32) : Bool :=
  let ad_group_label_set : List Text :=
    smembers G db .string (.adGroup mall_id.toInt it.toInt .targetLabelSet)
  checkMarketShop G db user_id it mall_id look.shop
    && decide ((get G db .int (.adGroup mall_id.toInt it.toInt .valid) (1 : Int32) : Int32) ≠ 0)
    && checkTimeRange G db mall_id look.now it
    && checkCronTimeSet G db mall_id look.now it
    && !(decide (0 < user_id) && !ad_group_label_set.isEmpty
      && !checkIntersection user_label_set ad_group_label_set)

end AdMap

end SimpleDsp
