import SimpleDsp.UserMap.Machine

/-!
# The functions of user_map

As `user_map.cpp` has them. A key that the source puts together with
`get_data_entry` and takes back with `get_value<std::string>` is the text of the
record's `Key`, which has no NUL to cut it at.
-/

namespace SimpleDsp

open DecimalText Programs

/-- The settings read by `user_map_init`. -/
structure Config where
  localtime : Localtime
  /-- In minutes. -/
  time_slice : Nat
  time_slice_pos : 1 ≤ time_slice
  max_duration_gap : Int32
  max_in_shop_gap : Int32
  check_vip : Int32

/-- The settings of `etc/config.ini`. -/
def Config.ini (localtime : Localtime) : Config := ⟨localtime, 10, by decide, 120, 240, 1⟩

/-- `std::stoi` -/
def stoi (s : Text) : Except UserMap.Exn Int32 :=
  match scanInt s with
  | none => .error .invalidArgument
  | some (v, _) => if -2 ^ 31 ≤ v ∧ v < 2 ^ 31 then .ok (Int32.ofInt v) else .error .outOfRange

/-- `std::stoull` -/
def stoull (s : Text) : Except UserMap.Exn UInt64 :=
  match scanSigned s with
  | none => .error .invalidArgument
  | some (p, _) => if p.2 < 2 ^ 64 then .ok (clampUInt64 p) else .error .outOfRange

namespace UserMap

open Prog (call)

def INT_MIN : Int32 := Int32.minValue

def liftExcept {α : Type} : Except Exn α → UserM α
  | .ok a => .ret a
  | .error e => .throw e

def whenM (c : Prop) [Decidable c] (p : UserM Unit) : UserM Unit := if c then p else pure ()

/-! ## The operations of g_baseMdb -/

/-- No caller looks at what `set`, `zadd` and `sadd` return. -/
def set (τ : Ty) (k : Key) (v : τ.Val) : UserM Unit := do
  let _ ← call (.store (.set τ k v))
  pure ()

def get (τ : Ty) (k : Key) (default_v : τ.Val) : UserM τ.Val := call (Cmd.store (.get τ k default_v))

def incr (k : Key) (integer : Int32) : UserM Int32 := call (Cmd.store (.incr k integer))

/-- `double score = t` -/
def zadd (k : Key) (t : Int64) (v : Text) : UserM Unit := do
  let _ ← call (.store (.zadd k t v))
  pure ()

def sadd (k : Key) (v : Text) : UserM Unit := do
  let _ ← call (.store (.sadd k v))
  pure ()

def hset (k : Key) (field v : Text) : UserM Int32 := call (Cmd.store (.hset k field v))

def userMapInit : UserM Unit := do
  let ok ← call .init
  if ok then pure () else .throw .initFailed

/-! ## Properties of users and log entries -/

def tairSetUserProp (τ : Ty) (mall_id : Int32) (mac : UInt64) (prop : LocationProp)
    (value : τ.Val) : UserM Unit :=
  set τ (.location mall_id.toInt mac prop) value

def tairGetUserProp (τ : Ty) (mall_id : Int32) (mac : UInt64) (prop : LocationProp)
    (default_v : τ.Val) : UserM τ.Val :=
  get τ (.location mall_id.toInt mac prop) default_v

def tairSetLogProp (τ : Ty) (mall_id : Int32) (s_date_time : Stamp) (log_id : Int32)
    (prop : LogProp) (value : τ.Val) : UserM Unit :=
  set τ (.logEntry mall_id.toInt s_date_time log_id.toInt prop) value

/-- Called with the MAC address in the form of `uint64_to_str`, of which `mac` is
the number. -/
def tairGetUserTime (mall_id : Int32) (mac : BitVec 48) (prop : LocationProp) : UserM Int64 :=
  get .time (.locationHex mall_id.toInt mac prop) 0

/-! ## User ids -/

/-- Up to `n` attempts, until there is output. -/
def runAddUser (mac : UInt64) : Nat → UserM Text
  | 0 => pure []
  | n + 1 => do
    let s_id ← call (.addUser mac)
    if s_id ≠ [] then pure s_id else runAddUser mac n

/-- The part of `user_get_id` for a MAC that is not cached. -/
def userIdFromPg (mac : UInt64) : UserM Int32 := do
  let s_id ← runAddUser mac 10
  let user_id ← (if s_id ≠ [] then liftExcept (stoi s_id) else pure 0)
  whenM (0 < user_id) (do
    set .int (.userId mac) user_id
    set .ull (.userMac user_id.toInt) mac)
  pure user_id

/-- An exception leaves the mutex locked. -/
def userGetId (mac : UInt64) : UserM Int32 := do
  let _ ← call .lock
  userMapInit
  let cached ← get .int (.userId mac) 0
  let user_id ← (if cached = 0 then userIdFromPg mac else pure cached)
  let _ ← call .unlock
  pure user_id

/-- The part of `user_get_mac` for an id that is not cached. -/
def userMacFromPg (user_id : Int32) : UserM UInt64 := do
  let s_mac ← call (.queryUserId user_id)
  if s_mac ≠ [] then do
    let mac ← liftExcept (stoull s_mac)
    set .int (.userId mac) user_id
    set .ull (.userMac user_id.toInt) mac
    pure mac
  else pure 0

def userGetMac (user_id : Int32) : UserM UInt64 := do
  userMapInit
  let mac ← get .ull (.userMac user_id.toInt) 0
  if mac ≠ 0 then pure mac else userMacFromPg user_id

/-! ## Recording a sighting -/

section
variable (cfg : Config)

/-- `int delta=t_now-t_pre_time;`, cut off at `max_duration_gap` -/
def durationDelta (t_pre_time t_now : Int64) : Int32 :=
  let delta := Int32.ofInt (t_now.toInt - t_pre_time.toInt)
  if cfg.max_duration_gap < delta then cfg.max_duration_gap else delta

def userDurationAdd (user_id mall_id : Int32) (t_pre_time t_now : Int64) : UserM Unit := do
  let s_date := getDateStr cfg.localtime t_now.toInt
  let _ ← incr (.userDuration s_date mall_id.toInt user_id.toInt) (durationDelta cfg t_pre_time t_now)
  pure ()

/-- The bytes of `t_time` as a string, cut at the first that is zero. -/
def timeMember (t_time : Int64) : Text := cString (rawBytes 8 t_time.toUInt64.toNat)

/-- Registers the slice of `t_time` unless this process did so last. -/
def registerTimeSlice (mall_id : Int32) (s_date_time : Stamp) (t_time : Int64) : UserM Unit := do
  let last ← call (.lastDateTime mall_id)
  whenM (last ≠ some s_date_time) (do
    zadd (.logDataTimeSet mall_id.toInt) t_time (timeMember t_time)
    call (Cmd.setLastDateTime mall_id s_date_time))

/-- The part of `user_location_log_add` from `mac.set` on. -/
def indexSighting (mac : UInt64) (x y : Rat) (z mall_id : Int32) (t_time : Int64)
    (s_date_time : Stamp) (log_id : Int32) : UserM Unit := do
  sadd (.logMacSet mall_id.toInt s_date_time) (Key.macText mac)
  zadd (.logLocLogSet mall_id.toInt s_date_time mac) t_time (decimal log_id.toInt)
  tairSetLogProp .ull mall_id s_date_time log_id .mac mac
  tairSetLogProp .time mall_id s_date_time log_id .time t_time
  tairSetLogProp .double mall_id s_date_time log_id .x x
  tairSetLogProp .double mall_id s_date_time log_id .y y
  whenM (z ≠ INT_MIN) (tairSetLogProp .int mall_id s_date_time log_id .z z)

/-- The part of `user_location_log_add` after the log id is drawn. -/
def saveSighting (mac : UInt64) (x y : Rat) (z mall_id : Int32) (t_time : Int64)
    (s_date_time : Stamp) (log_id : Int32) : UserM Unit := do
  let _ ← call (.addUserLocation log_id mac x y (if z ≠ INT_MIN then z else 0) t_time)
  registerTimeSlice mall_id s_date_time t_time
  indexSighting mac x y z mall_id t_time s_date_time log_id

/-- The offset in Kafka is passed in and not used. -/
def userLocationLogAdd (mac : UInt64) (x y : Rat) (z mall_id : Int32) (t_time : Int64) :
    UserM Unit := do
  let s_date_time := getDateTimeStr cfg.localtime t_time.toInt cfg.time_slice
  let log_id ← incr (.logCounter mall_id.toInt s_date_time) 1
  saveSighting mac x y z mall_id t_time s_date_time log_id

def isMallVip (user_id mall_id : Int32) : UserM Bool := do
  let v ← get .int (.isMallVip mall_id.toInt user_id.toInt) 0
  pure (v ≠ 0)

def vipArriveTimeRecord (user_id mall_id : Int32) (t_pre t_now : Int64) : UserM Unit :=
  whenM (cfg.max_in_shop_gap.toInt < t_now.toInt - t_pre.toInt) (do
    let vip ← (if cfg.check_vip = 0 then pure true else isMallVip user_id mall_id)
    whenM (vip = true) (zadd (.vipArriveTime mall_id.toInt) t_now (decimal user_id.toInt)))

def macSetRecord (mac : UInt64) (mall_id : Int32) (t_now : Int64) : UserM Unit :=
  sadd (.macSetDaily (getDateStr cfg.localtime t_now.toInt) mall_id.toInt) (Key.macText mac)

def updateMacLocationTime (mall_id : Int32) (mac : UInt64) (time : Int64) : UserM Unit :=
  set .time (.location mall_id.toInt mac .time) time

def updateLocationUpdateTime (mall_id : Int32) (mac : UInt64) (time : Int64) : UserM Unit :=
  zadd (.locationUpdateTime (getDateStr cfg.localtime time.toInt) mall_id.toInt) time
    (Key.macText mac)

/-- The part of `user_add` that is about the user. -/
def creditUser (mac : UInt64) (mall_id : Int32) (t_pre_time t_now : Int64) : UserM Int32 := do
  let user_id ← userGetId mac
  userDurationAdd cfg user_id mall_id t_pre_time t_now
  vipArriveTimeRecord cfg user_id mall_id t_pre_time t_now
  macSetRecord cfg mac mall_id t_now
  pure 0

/-- `user_add` from the reading of the clock on. -/
def recordSighting (mac : UInt64) (x y : Rat) (z mall_id : Int32) (t_now : Int64) :
    UserM Int32 := do
  tairSetUserProp .double mall_id mac .x x
  tairSetUserProp .double mall_id mac .y y
  whenM (z ≠ INT_MIN) (tairSetUserProp .int mall_id mac .z z)
  let t_pre_time ← tairGetUserProp .time mall_id mac .time 0
  tairSetUserProp .time mall_id mac .time t_now
  updateLocationUpdateTime cfg mall_id mac t_now
  userLocationLogAdd cfg mac x y z mall_id t_now
  creditUser cfg mac mall_id t_pre_time t_now

def userAdd (mac : UInt64) (x y : Rat) (z mall_id : Int32) : UserM Int32 := do
  userMapInit
  let t_now ← call .time
  recordSighting cfg mac x y z mall_id t_now

/-! ## Shops -/

/-- The answer for the first 17 characters; a failing query counts as a no. -/
def macIsVip (mac_str : Text) (shop_id : Int32) : UserM Bool := do
  userMapInit
  call (Cmd.macIsVip (mac_str.take 17) shop_id)

def getUserLocationTime (mall_id shop_id : Int32) (mac : UInt64) : UserM Int64 := do
  userMapInit
  get .time (.locationShop mall_id.toInt shop_id.toInt mac) 0

/-- The user id is passed in and not used. -/
def updateUserLocationTime (mall_id shop_id : Int32) (mac : UInt64) (now : Int64) : UserM Unit := do
  userMapInit
  set .time (.locationShop mall_id.toInt shop_id.toInt mac) now
  let s_date := getDateStr cfg.localtime now.toInt
  zadd (.locationUpdateTimeShop s_date mall_id.toInt shop_id.toInt) now (Key.macText mac)

def shopAllUsersDurationAdd (mall_id shop_id : Int32) (datetime : Stamp) (interval : Int32) :
    UserM Unit := do
  let _ ← incr (.shopDuration datetime mall_id.toInt shop_id.toInt) interval
  pure ()

def mallAllUsersDurationAdd (mall_id : Int32) (datetime : Stamp) (interval : Int32) :
    UserM Unit := do
  let _ ← incr (.mallDuration datetime mall_id.toInt) interval
  pure ()

/-- `if(interval>max_duration_gap) interval=max_duration_gap;` -/
def clampInterval (interval : Int32) : Int32 :=
  if cfg.max_duration_gap < interval then cfg.max_duration_gap else interval

def shopUserDurationAdd (mall_id shop_id user_id : Int32) (datetime : Stamp) (interval : Int32) :
    UserM Unit := do
  let interval := clampInterval cfg interval
  let _ ← incr (.userShopDuration datetime mall_id.toInt shop_id.toInt user_id.toInt) interval
  shopAllUsersDurationAdd mall_id shop_id datetime interval
  mallAllUsersDurationAdd mall_id datetime interval

def updateUserArriveTime (mall_id shop_id user_id : Int32) (pre now : Int64) (is_vip : Bool) :
    UserM Unit := do
  userMapInit
  whenM (cfg.max_in_shop_gap.toInt < now.toInt - pre.toInt)
    (zadd (.shopArriveTime is_vip mall_id.toInt shop_id.toInt) now (decimal user_id.toInt))

def updateShopidOfUserLocation (user_id shop_id : Int32) (time : Int64) : UserM Unit :=
  set .int (.userShopId (getDateStr cfg.localtime time.toInt) user_id.toInt) shop_id

end

/-! ## Labels -/

/-- `user_tag_save_on_tair` is a setting; where it is off the function ends
without a value. -/
def userTagUpdate (doubles : Doubles) (user_tag_save_on_tair : Bool) (mac : UInt64)
    (user_tag : Text) (user_value : Rat) : UserM (Option Int32) := do
  userMapInit
  if user_tag_save_on_tair then do
    let user_id ← userGetId mac
    let ret ← hset (.userLabelSet user_id.toInt) user_tag (doubles.print user_value)
    pure (some (if ret = 0 then 1 else 0))
  else pure none

end UserMap

end SimpleDsp
