import SimpleDsp.Receivers.ShopVisits
import SimpleDsp.Receivers.StayCredits

/-!
# Uninitialised variables

`sscanf` may stop before it has stored all it is asked for, and
`apmac_get_shopid` ends without a value when PG fails. What the variables held
before may then reach the store.

* `Determined`: two runs that differ only in such contents write the same;
* `handling_determined_iff`: the messages that are handled so.
-/

namespace SimpleDsp

open DecimalText FormatScan Programs

namespace UserMap

def msgStartWith : Text → Text → Bool
  | _, [] => true
  | [], _ :: _ => false
  | c :: msg, p :: rest => c == p && msgStartWith msg rest

namespace ApSignalReceiver

/-- A message without an error. -/
def msgConsume (cfg : Config) (coordinates : Nat → Int32) (apUninit : Mac) (uninit : Nat → Mac)
    (msg : Text) : UserM Unit :=
  if msgStartWith msg "Mac:".toList then macMsg cfg coordinates msg
  else if msgStartWith msg "ApMac:".toList then parseApmacMsg cfg apUninit uninit msg
  else if msgStartWith msg "ApMac-Closer:".toList then parseApmacCloserMsg cfg apUninit uninit msg
  else pure ()

end ApSignalReceiver

namespace UserTagReceiver

/-- A message without an error. -/
def msgConsume (doubles : Doubles) (user_tag_save_on_tair : Bool) (uninit : Mac) (msg : Text) :
    UserM Unit := do
  let m := parseTagMsg uninit msg
  let _ ← userTagUpdate doubles user_tag_save_on_tair m.mac m.usertag 1
  pure ()

end UserTagReceiver

/-! ## Two runs -/

/-- The operations that write to the store. -/
def Cmd.write : Cmd → Option StoreOp
  | .store (.get ..) => none
  | .store (.zrangebyscore ..) => none
  | .store o => some o
  | _ => none

def writes {W : Type} (answer : (c : Cmd) → W → c.Reply × W) (w : W) (p : UserM Unit) :
    List StoreOp :=
  (p.trace answer w).filterMap Cmd.write

/-- The surroundings when PG finds `shop` for the access point or fails, which
leaves `stale` to be returned. -/
def withShop {W : Type} (answer : (c : Cmd) → W → c.Reply × W) (shop : Option Int32)
    (stale : Int32) : (c : Cmd) → W → c.Reply × W
  | .apmacGetShopid mac, w => (shop.getD stale, (answer (.apmacGetShopid mac) w).2)
  | c, w => answer c w

/-- What variables hold before anything is assigned to them. -/
structure Leftovers where
  /-- `x`, `y`, `width` and `height` -/
  coordinates : Nat → Int32
  /-- The union of `user_tag_receiver` -/
  mac : Mac
  /-- What `apmac_get_shopid` yields without a `return` -/
  shop_id : Int32

/-- In any surroundings, the same is written whatever the leftovers are. -/
def Determined (shop : Option Int32) (handle : Leftovers → UserM Unit) : Prop :=
  ∀ (W : Type) (answer : (c : Cmd) → W → c.Reply × W) (w : W) (a b : Leftovers),
    writes (withShop answer shop a.shop_id) w (handle a) =
      writes (withShop answer shop b.shop_id) w (handle b)

/-! ## The conversions of a camera's message -/

def cameraArgs (msg : Text) : List Arg :=
  scanf "Mac:%hhx:%hhx:%hhx:%hhx:%hhx:%hhx Rect:%d,%d,%d,%d Group:%d".toList msg

/-- `sscanf` stores all four coordinates, or no byte of the address but zeros. -/
def RectRead (msg : Text) : Prop :=
  4 ≤ (storedInts (cameraArgs msg)).length ∨ ∀ b, Arg.byte b ∈ (cameraArgs msg).take 6 → b = 0

variable {cfg : Config} {msg : Text} {shop : Option Int32}

theorem parseMacMsg_mac_eq (uninit : Nat → Int32) (msg : Text) :
    (parseMacMsg uninit msg).mac = ((Mac.ofNumber 0).store (cameraArgs msg)).number := rfl

theorem parseMacMsg_of_le (h : 4 ≤ (storedInts (cameraArgs msg)).length)
    (uninit uninit' : Nat → Int32) : parseMacMsg uninit msg = parseMacMsg uninit' msg := by
  have stored (i : Nat) (hi : i < 4) : (storedInts (cameraArgs msg))[i]?.getD (uninit i) =
      (storedInts (cameraArgs msg))[i]?.getD (uninit' i) := by
    rw [List.getElem?_eq_getElem (lt_of_lt_of_le hi h)]
    rfl
  rw [cameraArgs] at stored
  simp only [parseMacMsg, stored 0 (by decide), stored 1 (by decide), stored 2 (by decide),
    stored 3 (by decide)]

/-! ## Programs that ask for no shop -/

def Cmd.Shopless : Cmd → Prop
  | .apmacGetShopid _ => False
  | _ => True

section
variable {mac : UInt64} {user_id mall_id : Int32} {t_pre t : Int64}

theorem shopless_userMapInit : userMapInit.Every Cmd.Shopless := by
  refine ⟨trivial, fun ok => ?_⟩
  cases ok <;> trivial

theorem shopless_userGetId : (userGetId mac).Every Cmd.Shopless :=
  ofLookup_userGetId.mono fun _ own => by cases own <;> trivial

theorem shopless_vipArriveTimeRecord :
    (vipArriveTimeRecord cfg user_id mall_id t_pre t).Every Cmd.Shopless := by
  apply every_whenM
  intro _
  have vip : (if cfg.check_vip = 0 then pure true else isMallVip user_id mall_id :
      UserM Bool).Every Cmd.Shopless := by
    split
    · trivial
    · exact ⟨trivial, fun _ => trivial⟩
  exact vip.bind fun _ => every_whenM fun _ => ⟨trivial, fun _ => trivial⟩

theorem shopless_creditUser : (creditUser cfg mac mall_id t_pre t).Every Cmd.Shopless := by
  apply shopless_userGetId.bind
  intro user_id
  refine ⟨trivial, fun _ => ?_⟩
  exact shopless_vipArriveTimeRecord.bind fun _ => ⟨trivial, fun _ => trivial⟩

theorem shopless_userLocationLogAdd {x y : Rat} {z : Int32} :
    (userLocationLogAdd cfg mac x y z mall_id t).Every Cmd.Shopless := by
  refine ⟨trivial, fun log_id => ⟨trivial, fun _ => ?_⟩⟩
  have register (s : Stamp) : (registerTimeSlice mall_id s t).Every Cmd.Shopless :=
    ⟨trivial, fun _ => every_whenM fun _ => ⟨trivial, fun _ => ⟨trivial, fun _ => trivial⟩⟩⟩
  apply (register _).bind
  intro _
  refine ⟨trivial, fun _ => ⟨trivial, fun _ => ⟨trivial, fun _ => ⟨trivial, fun _ => ⟨trivial,
    fun _ => ⟨trivial, fun _ => ?_⟩⟩⟩⟩⟩⟩
  exact every_whenM fun _ => ⟨trivial, fun _ => trivial⟩

theorem shopless_userAdd {x y : Rat} {z : Int32} :
    (userAdd cfg mac x y z mall_id).Every Cmd.Shopless := by
  apply shopless_userMapInit.bind
  intro _
  refine ⟨trivial, fun t_now => ⟨trivial, fun _ => ⟨trivial, fun _ => ?_⟩⟩⟩
  have height : (whenM (z ≠ INT_MIN) (tairSetUserProp .int mall_id mac .z z)).Every
      Cmd.Shopless := every_whenM fun _ => ⟨trivial, fun _ => trivial⟩
  apply height.bind
  intro _
  refine ⟨trivial, fun t_pre_time => ⟨trivial, fun _ => ⟨trivial, fun _ => ?_⟩⟩⟩
  exact shopless_userLocationLogAdd.bind fun _ => shopless_creditUser

theorem shopless_apmacSightings (macs : List UInt64) :
    (apmacSightings cfg macs).Every Cmd.Shopless := by
  induction macs with
  | nil => trivial
  | cons mac macs ih =>
    have sighting : (apmacSighting cfg mac).Every Cmd.Shopless := by
      refine ⟨trivial, fun now => ⟨trivial, fun _ => ⟨trivial, fun _ => ?_⟩⟩⟩
      exact shopless_userGetId.bind fun _ => ⟨trivial, fun _ => shopless_vipArriveTimeRecord⟩
    exact sighting.bind fun _ => ih

end

section
variable {W : Type} {answer : (c : Cmd) → W → c.Reply × W}

theorem withShop_shopless (a b : Int32) (c : Cmd) (w : W) (h : c.Shopless) :
    withShop answer shop a c w = withShop answer shop b c w := by
  cases c with
  | apmacGetShopid mac => exact h.elim
  | _ => rfl

/-- What `apmac_get_shopid` yields makes no difference to such a program. -/
theorem writes_shopless {p : UserM Unit} (h : p.Every Cmd.Shopless) (a b : Int32) (w : W) :
    writes (withShop answer shop a) w p = writes (withShop answer shop b) w p := by
  rw [writes, writes, Prog.trace_congr (withShop_shopless a b) h]

end

/-! ## The three handlers -/

/-- The "Mac:" branch after the scan. -/
def cameraSighting (cfg : Config) (m : CameraMsg) : UserM Unit :=
  whenM (0 < m.mac) (do
    let _ ← userAdd cfg m.mac (m.x.toInt + m.width.toInt / (2 : Rat))
      (m.y.toInt + m.height.toInt / (2 : Rat)) INT_MIN m.mall_id
    pure ())

theorem macMsg_eq (uninit : Nat → Int32) :
    macMsg cfg uninit msg = cameraSighting cfg (parseMacMsg uninit msg) := rfl

theorem cameraSighting_of_zero {m : CameraMsg} (h : m.mac = 0) :
    cameraSighting cfg m = pure () := by
  rw [cameraSighting, whenM, if_neg (by rw [h]; decide)]

theorem shopless_cameraSighting (m : CameraMsg) : (cameraSighting cfg m).Every Cmd.Shopless :=
  every_whenM fun _ => shopless_userAdd.bind fun _ => trivial

/-- The y coordinate is stored right after the x coordinate. -/
theorem writes_cameraSighting (cfg : Config) (shop : Option Int32) (stale : Int32) {m : CameraMsg}
    (h : m.mac ≠ 0) : ∃ x rest,
    writes (withShop Cmd.silent shop stale) () (cameraSighting cfg m) =
      x :: .set .double (.location m.mall_id.toInt m.mac .y)
        (m.y.toInt + m.height.toInt / (2 : Rat)) :: rest := by
  have pos : 0 < m.mac := UInt64.pos_iff_ne_zero.mpr h
  rw [cameraSighting, whenM, if_pos pos]
  exact ⟨_, _, rfl⟩

/-- A height that is not stored may be 0 in one run and 2 in the other. -/
theorem rectRead_of_determined (same : Determined shop (fun l => macMsg cfg l.coordinates msg)) :
    RectRead msg := by
  rw [RectRead, or_iff_not_imp_left, not_le, ← Mac.number_store_zero_iff]
  intro few
  by_contra mac
  have seen (uninit : Nat → Int32) : (parseMacMsg uninit msg).mac ≠ 0 := mac
  have unread : (storedInts (cameraArgs msg))[3]? = none :=
    List.getElem?_eq_none (Nat.le_of_lt_succ few)
  have height (uninit : Nat → Int32) : (parseMacMsg uninit msg).height = uninit 3 :=
    congrArg (Option.getD · (uninit 3)) unread
  let two : Nat → Int32 := fun i => if i = 3 then 2 else 0
  have same_y : (parseMacMsg two msg).y = (parseMacMsg (fun _ => 0) msg).y := rfl
  have written := same Unit Cmd.silent () ⟨fun _ => 0, fun _ => 0, 0⟩ ⟨two, fun _ => 0, 0⟩
  obtain ⟨x, rest, first⟩ := writes_cameraSighting cfg shop 0 (seen fun _ => 0)
  obtain ⟨x', rest', second⟩ := writes_cameraSighting cfg shop 0 (seen two)
  simp only [macMsg_eq, first, second, List.cons.injEq, StoreOp.set.injEq, heq_eq_eq] at written
  obtain ⟨-, ⟨-, -, y⟩, -⟩ := written
  have zero : (0 : Int32).toInt = 0 := rfl
  have two_toInt : (two 3).toInt = 2 := rfl
  rw [height, height, same_y, zero, two_toInt] at y
  have apart (q : Rat) : q + (0 : Int) / 2 ≠ q + (2 : Int) / 2 := by
    intro e
    grind
  exact apart _ y

theorem macMsg_of_rectRead (read : RectRead msg) (uninit uninit' : Nat → Int32) :
    macMsg cfg uninit msg = macMsg cfg uninit' msg := by
  rw [macMsg_eq, macMsg_eq]
  cases read with
  | inl four => rw [parseMacMsg_of_le four uninit uninit']
  | inr zeros =>
    have zero (uninit : Nat → Int32) : (parseMacMsg uninit msg).mac = 0 :=
      (parseMacMsg_mac_eq uninit msg).trans ((Mac.number_store_zero_iff _).mpr zeros)
    rw [cameraSighting_of_zero (zero _), cameraSighting_of_zero (zero _)]

theorem macMsg_determined_iff : Determined shop (fun l => macMsg cfg l.coordinates msg) ↔
    RectRead msg := by
  constructor
  · exact rectRead_of_determined
  · intro read W answer w a b
    simp only [macMsg_of_rectRead read a.coordinates b.coordinates, macMsg_eq]
    exact writes_shopless (shopless_cameraSighting _) a.shop_id b.shop_id w

/-! ### ApMac messages -/

section
variable {apUninit : Mac} {uninit : Nat → Mac}

theorem trace_apmacGetShopid {W : Type} (answer : (c : Cmd) → W → c.Reply × W) (mac : UInt64)
    (k : Int32 → UserM Unit) (w : W) :
    (apmacGetShopid mac >>= k).trace answer w =
      .init :: if (answer .init w).1 = true then
        let r := answer (.apmacGetShopid mac) (answer .init w).2
        .apmacGetShopid mac :: (k r.1).trace answer r.2 else [] := by
  have begins : apmacGetShopid mac >>= k = .op .init fun ok : Bool =>
      (if ok = true then pure () else .throw .initFailed : UserM Unit) >>= fun _ =>
        .op (.apmacGetShopid mac) k := by
    rw [apmacGetShopid, Prog.bind_assoc]
    rfl
  rw [begins, Prog.trace]
  split
  · rfl
  · rfl

/-- The shop is not used. -/
theorem parseApmacMsg_determined :
    Determined shop (fun _ => parseApmacMsg cfg apUninit uninit msg) := by
  intro W answer w a b
  have same (v : W) : (apmacSightings cfg (apmacMacs uninit msg)).trace
      (withShop answer shop a.shop_id) v = (apmacSightings cfg (apmacMacs uninit msg)).trace
        (withShop answer shop b.shop_id) v :=
    Prog.trace_congr (withShop_shopless a.shop_id b.shop_id) (shopless_apmacSightings _) v
  rw [writes, writes, parseApmacMsg, trace_apmacGetShopid, trace_apmacGetShopid]
  simp only [same]
  rfl

/-- PG finds a shop for the access point, or there is no entry. -/
def ShopKnown (shop : Option Int32) (msg : Text) : Prop :=
  shop ≠ none ∨ (numMacs closerOffset msg).toInt ≤ 0

theorem writes_closerSightings_zero (entries : List (Text × UInt64)) (stale : Int32) :
    writes (withShop Cmd.silent shop stale) () (apmacCloserSightings cfg 0 0 entries) = [] := by
  induction entries with
  | nil => rfl
  | cons entry entries ih => exact ih

theorem writes_closerSightings_one {entries : List (Text × UInt64)} (h : entries ≠ [])
    (stale : Int32) :
    writes (withShop Cmd.silent shop stale) () (apmacCloserSightings cfg 1 0 entries) ≠ [] := by
  cases entries with
  | nil => exact absurd rfl h
  | cons entry entries => exact List.cons_ne_nil _ _

theorem writes_closerMsg_silent (stale : Int32) :
    writes (withShop Cmd.silent none stale) () (parseApmacCloserMsg cfg apUninit uninit msg) =
      writes (withShop Cmd.silent none stale) ()
        (apmacCloserSightings cfg stale 0 (apmacCloserEntries uninit msg)) := rfl

theorem parseApmacCloserMsg_determined_iff :
    Determined shop (fun _ => parseApmacCloserMsg cfg apUninit uninit msg) ↔
      ShopKnown shop msg := by
  constructor
  · intro same
    rw [ShopKnown, or_iff_not_imp_left, not_not]
    rintro rfl
    by_contra some_
    have entries : apmacCloserEntries uninit msg ≠ [] := by
      rw [apmacCloserEntries, Ne, List.map_eq_nil_iff, List.range_eq_nil]
      omega
    have written := same Unit Cmd.silent () ⟨fun _ => 0, fun _ => 0, 0⟩ ⟨fun _ => 0, fun _ => 0, 1⟩
    rw [writes_closerMsg_silent, writes_closerMsg_silent, writes_closerSightings_zero] at written
    exact writes_closerSightings_one entries 1 written.symm
  · rintro (known | none) W answer w a b
    · obtain ⟨i, rfl⟩ := Option.ne_none_iff_exists'.mp known
      rfl
    · have entries : apmacCloserEntries uninit msg = [] := by
        rw [apmacCloserEntries, List.map_eq_nil_iff, List.range_eq_nil]
        omega
      have quiet (stale : Int32) : writes (withShop answer shop stale) w
          (parseApmacCloserMsg cfg apUninit uninit msg) = [] := by
        rw [writes, parseApmacCloserMsg, trace_apmacGetShopid, entries]
        split
        · rfl
        · rfl
      rw [quiet, quiet]

end

/-! ### Tags -/

section
variable {doubles : Doubles} {save : Bool}

/-- Nothing answers but the store, which knows the ids. -/
def Cmd.knowing (id : UInt64 → Int32) : (c : Cmd) → Unit → c.Reply × Unit
  | .store (.get .int (.userId mac) _), _ => (id mac, ())
  | c, w => c.silent w

theorem writes_userTagUpdate {id : UInt64 → Int32} {mac : UInt64} (known : id mac ≠ 0) (tag : Text)
    (stale : Int32) :
    writes (withShop (Cmd.knowing id) shop stale) () (do
      let _ ← userTagUpdate doubles true mac tag 1
      pure ()) = [.hset (.userLabelSet (id mac).toInt) tag (doubles.print 1)] := by
  simp [writes, userTagUpdate, userGetId, userMapInit, get, hset, Prog.trace, withShop, Cmd.knowing,
    Cmd.silent, known]
  rfl

/-- The seventh byte of the union is in the number, and no conversion is for it. -/
theorem parseTagMsg_mac_ne (msg : Text) : (parseTagMsg (fun i => if i = 7 then 1 else 0) msg).mac ≠
    (parseTagMsg (fun _ => 0) msg).mac := by
  intro e
  have bytes := congrFun (Mac.number_injective e) 7
  rw [Mac.store_high _ _ (by decide), Mac.store_high _ _ (by decide)] at bytes
  exact absurd bytes (by decide)

theorem userTag_determined_iff :
    Determined shop (fun l => UserTagReceiver.msgConsume doubles save l.mac msg) ↔
      save = false := by
  constructor
  · intro same
    by_contra on
    obtain rfl := Bool.not_eq_false _ ▸ on
    let low : Mac := fun _ => 0
    let high : Mac := fun i => if i = 7 then 1 else 0
    let id : UInt64 → Int32 := fun mac => if mac = (parseTagMsg low msg).mac then 7 else 8
    have seven : id (parseTagMsg low msg).mac = 7 := if_pos rfl
    have eight : id (parseTagMsg high msg).mac = 8 := if_neg (parseTagMsg_mac_ne msg)
    have first : writes (withShop (Cmd.knowing id) shop 0) ()
        (UserTagReceiver.msgConsume doubles true low msg) = [.hset (.userLabelSet _) _ _] :=
      writes_userTagUpdate (by rw [seven]; decide) (parseTagMsg low msg).usertag 0
    have second : writes (withShop (Cmd.knowing id) shop 0) ()
        (UserTagReceiver.msgConsume doubles true high msg) = [.hset (.userLabelSet _) _ _] :=
      writes_userTagUpdate (by rw [eight]; decide) (parseTagMsg high msg).usertag 0
    have written := same Unit (Cmd.knowing id) () ⟨fun _ => 0, low, 0⟩ ⟨fun _ => 0, high, 0⟩
    rw [first, second, seven, eight, List.singleton_inj, StoreOp.hset.injEq, Key.userLabelSet.injEq]
      at written
    exact absurd written.1 (by decide)
  · rintro rfl W answer w a b
    have quiet (uninit : Mac) : UserTagReceiver.msgConsume doubles false uninit msg =
        userMapInit >>= fun _ => pure () := by
      unfold UserTagReceiver.msgConsume userTagUpdate
      rw [Prog.bind_assoc]
      rfl
    have shopless : (userMapInit >>= fun _ => pure () : UserM Unit).Every Cmd.Shopless :=
      shopless_userMapInit.bind fun _ => trivial
    simp only [quiet]
    exact writes_shopless shopless a.shop_id b.shop_id w

end

/-! ## The receivers -/

theorem msgStartWith_iff {t : Text} : msgStartWith msg t = true ↔ t <+: msg := by
  induction t generalizing msg with
  | nil => simp [msgStartWith]
  | cons p t ih =>
    cases msg with
    | nil => simp [msgStartWith]
    | cons c msg =>
      rw [msgStartWith, Bool.and_eq_true, beq_iff_eq, ih, List.cons_prefix_cons]
      exact and_congr_left' eq_comm

/-- No message starts with two texts of which neither starts with the other. -/
theorem msgStartWith_apart {s t : Text} (apart : ¬s <+: t ∧ ¬t <+: s)
    (h : msgStartWith msg s = true) :
    msgStartWith msg t = false := by
  rw [← Bool.not_eq_true]
  intro h'
  cases List.prefix_or_prefix_of_prefix (msgStartWith_iff.mp h) (msgStartWith_iff.mp h') with
  | inl e => exact apart.1 e
  | inr e => exact apart.2 e

section
variable {coordinates : Nat → Int32} {apUninit : Mac} {uninit : Nat → Mac}

theorem msgConsume_camera (h : msgStartWith msg "Mac:".toList = true) :
    ApSignalReceiver.msgConsume cfg coordinates apUninit uninit msg = macMsg cfg coordinates msg :=
  if_pos h

theorem msgConsume_apmac (h : msgStartWith msg "ApMac:".toList = true) :
    ApSignalReceiver.msgConsume cfg coordinates apUninit uninit msg =
      parseApmacMsg cfg apUninit uninit msg := by
  have camera : msgStartWith msg "Mac:".toList = false := msgStartWith_apart (by decide) h
  rw [ApSignalReceiver.msgConsume, if_neg (by rw [camera]; decide), if_pos h]

theorem msgConsume_closer (h : msgStartWith msg "ApMac-Closer:".toList = true) :
    ApSignalReceiver.msgConsume cfg coordinates apUninit uninit msg =
      parseApmacCloserMsg cfg apUninit uninit msg := by
  have camera : msgStartWith msg "Mac:".toList = false := msgStartWith_apart (by decide) h
  have apmac : msgStartWith msg "ApMac:".toList = false := msgStartWith_apart (by decide) h
  rw [ApSignalReceiver.msgConsume, if_neg (by rw [camera]; decide), if_neg (by rw [apmac]; decide),
    if_pos h]

end

/-- The messages whose handling depends on nothing but the message: those of a camera with all
of the rectangle, those of an access point when PG finds its shop, and no tag that is saved. -/
theorem handling_determined_iff (cfg : Config) (doubles : Doubles) (user_tag_save_on_tair : Bool)
    (apUninit : Mac) (uninit : Nat → Mac) (msg : Text) (shop : Option Int32) :
    (Determined shop
        (fun l => ApSignalReceiver.msgConsume cfg l.coordinates apUninit uninit msg) ↔
      (msgStartWith msg "Mac:".toList = true → RectRead msg) ∧
        (msgStartWith msg "ApMac-Closer:".toList = true → ShopKnown shop msg)) ∧
    (Determined shop
        (fun l => UserTagReceiver.msgConsume doubles user_tag_save_on_tair l.mac msg) ↔
      user_tag_save_on_tair = false) := by
  refine ⟨?_, userTag_determined_iff⟩
  by_cases camera : msgStartWith msg "Mac:".toList = true
  · have closer : msgStartWith msg "ApMac-Closer:".toList = false :=
      msgStartWith_apart (by decide) camera
    simp only [msgConsume_camera camera, macMsg_determined_iff, camera, closer, forall_const,
      Bool.false_eq_true, false_imp_iff, and_true]
  · by_cases closer : msgStartWith msg "ApMac-Closer:".toList = true
    · simp only [msgConsume_closer closer, parseApmacCloserMsg_determined_iff, camera, closer,
        forall_const, Bool.false_eq_true, false_imp_iff, true_and]
    · simp only [camera, closer, Bool.false_eq_true, false_imp_iff, and_true, iff_true]
      by_cases apmac : msgStartWith msg "ApMac:".toList = true
      · simp only [msgConsume_apmac apmac]
        exact parseApmacMsg_determined
      · intro W answer w a b
        simp only [ApSignalReceiver.msgConsume, camera, closer, apmac, if_false, Bool.false_eq_true]
        rfl

/-- A rectangle without its height, an access point PG fails for, and a tag. -/
theorem leftovers_written :
    ¬Determined none (fun l => ApSignalReceiver.msgConsume (Config.ini utcFirstDay) l.coordinates
      (fun _ => 0) (fun _ _ => 0) "Mac:60:cd:a9:00:9a:3a Rect:1,2,3".toList) ∧
    ¬Determined none (fun l => ApSignalReceiver.msgConsume (Config.ini utcFirstDay) l.coordinates
      (fun _ => 0) (fun _ _ => 0)
      "ApMac-Closer:60:cd:a9:00:9a:3a Macs:[a0:b1:c2:d3:e4:f5]".toList) ∧
    ¬Determined none (fun l => UserTagReceiver.msgConsume Machine.plain.doubles true l.mac
      "Mac 60:cd:a9:00:9a:3a vip".toList) := by
  refine ⟨fun same => ?_, fun same => ?_, fun same => ?_⟩
  · have camera : msgStartWith "Mac:60:cd:a9:00:9a:3a Rect:1,2,3".toList "Mac:".toList = true := by
      decide
    simp only [msgConsume_camera camera] at same
    cases macMsg_determined_iff.mp same with
    | inl four => exact absurd four (by decide +kernel)
    | inr zeros => exact absurd (zeros 0x60 (by decide +kernel)) (by decide)
  · have closer : msgStartWith
        "ApMac-Closer:60:cd:a9:00:9a:3a Macs:[a0:b1:c2:d3:e4:f5]".toList "ApMac-Closer:".toList =
          true := by decide
    simp only [msgConsume_closer closer] at same
    cases parseApmacCloserMsg_determined_iff.mp same with
    | inl known => exact known rfl
    | inr none => exact absurd none (by decide +kernel)
  · exact absurd (userTag_determined_iff.mp same) (by decide)

end UserMap

end SimpleDsp
