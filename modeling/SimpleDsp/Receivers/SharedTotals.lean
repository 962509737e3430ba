import SimpleDsp.Lib.Ledgers
import SimpleDsp.Receivers.SharedStore
import SimpleDsp.Receivers.ShopDurations

/-!
# Stay times of all processes

Between the increments of one interval other threads count theirs, so shop and mall may
differ from the sums of their parts for a while.

* `Settles`: a call that books as much for the parts as for the whole;
* `stay_times_settle`: whatever the interleaving, once every call has ended the totals
  of shops and malls are the sums of their parts.
-/

namespace SimpleDsp

open DecimalText Programs

namespace UserMap

/-! ## What is booked -/

/-- What an operation adds to the counter of a key. -/
def counted (k : Key) : Cmd → Int
  | .store (.incr k' integer) => if k' = k then integer.toInt else 0
  | _ => 0

/-- A total and the parts it is the sum of. -/
inductive Sums : Key → (Int32 → Key) → Prop
  | shop (date : Stamp) (mall_id shop_id : Int32) :
      Sums (.shopDuration date mall_id.toInt shop_id.toInt) fun user_id =>
        .userShopDuration date mall_id.toInt shop_id.toInt user_id.toInt
  | mall (date : Stamp) (mall_id : Int32) :
      Sums (.mallDuration date mall_id.toInt) fun shop_id =>
        .shopDuration date mall_id.toInt shop_id.toInt

/-- The parts less the whole. -/
noncomputable def ahead (whole : Key) (part : Int32 → Key) (c : Cmd) : Int :=
  (∑ᶠ i, counted (part i) c) - counted whole c

theorem counted_record (k : Key) (record : List Entry) :
    (amounts k record).sum = booked (counted k) record := by
  induction record with
  | nil => rfl
  | cons e record ih =>
    have here : ((effectOf e).bind (Records.Op.countFor k)).toList.sum = counted k e.2.1 := by
      obtain ⟨i, c, r⟩ := e
      cases c with
      | store o =>
        cases o with
        | incr k' integer =>
          simp only [effectOf, StoreOp.effect, Option.bind_some, Records.Op.countFor, counted]
          split <;> simp
        | zadd k' score v =>
          simp only [effectOf, StoreOp.effect, counted]
          split <;> rfl
        | _ => rfl
      | _ => rfl
    have more : amounts k (e :: record) =
        ((effectOf e).bind (Records.Op.countFor k)).toList ++ amounts k record := by
      unfold amounts effects
      rw [Records.filterMap_cons_toList]
      cases effectOf e with
      | none => rfl
      | some op => exact Records.filterMap_cons_toList _ op _
    rw [more, List.sum_append, here, ih, booked_cons]

theorem booked_ahead (whole : Key) (part : Int32 → Key) (record : List Entry) :
    booked (ahead whole part) record =
      (∑ᶠ i, (amounts (part i) record).sum) - (amounts whole record).sum := by
  unfold ahead
  rw [booked_sub, booked_finsum]
  simp only [counted_record]

/-! ## Calls that settle -/

abbrev Settles {α : Type} (p : UserM α) : Prop :=
  ∀ whole part, Sums whole part → p.Owes (ahead whole part) 0

section
variable {α β : Type} {whole : Key} {part : Int32 → Key}

theorem ahead_eq_zero (sums : Sums whole part) {c : Cmd} (h : Within (fun k => ¬IsStay k) c) :
    ahead whole part c = 0 := by
  have none (k : Key) (stays : IsStay k) : counted k c = 0 := by
    cases c with
    | store o =>
      cases o with
      | incr k' integer =>
        have other : k' ≠ k := by
          rintro rfl
          exact h.records k' rfl stays
        exact if_neg other
      | _ => rfl
    | _ => rfl
  unfold ahead
  cases sums with
  | shop date mall_id shop_id =>
    rw [none _ (Or.inr (Or.inl ⟨_, _, _, rfl⟩)), sub_zero, finsum_eq_zero_of_forall_eq_zero]
    exact fun i => none _ (Or.inl ⟨_, _, _, _, rfl⟩)
  | mall date mall_id =>
    rw [none _ (Or.inr (Or.inr ⟨_, _, rfl⟩)), sub_zero, finsum_eq_zero_of_forall_eq_zero]
    exact fun i => none _ (Or.inr (Or.inl ⟨_, _, _, rfl⟩))

theorem settles_ret (a : α) : Settles (Prog.ret a : UserM α) := fun _ _ _ => rfl

theorem settles_bind {p : UserM α} {f : α → UserM β} (hp : Settles p) (hf : ∀ a, Settles (f a)) :
    Settles (p >>= f) :=
  fun whole part sums => (hp whole part sums).bind fun a => hf a whole part sums

theorem settles_within {p : UserM α} (h : p.Every (Within fun k => ¬IsStay k)) : Settles p :=
  fun _ _ sums => Prog.owes_of_every (h.mono fun _ => ahead_eq_zero sums)

theorem settles_whenM {c : Prop} [Decidable c] {p : UserM Unit} (h : Settles p) :
    Settles (whenM c p) := by
  unfold whenM
  split
  · exact h
  · exact settles_ret ()

/-- The clock and what PG is asked about shops are no matter of the store. -/
theorem settles_ask {c : Cmd} {k : c.Reply → UserM α} (aside : ∀ o, c ≠ .store o)
    (hk : ∀ r, Settles (k r)) : Settles (Prog.op c k) := by
  intro whole part sums
  have none (key : Key) : counted key c = 0 := by
    cases c with
    | store o => exact absurd rfl (aside o)
    | _ => rfl
  apply Prog.owes_op
  · unfold ahead
    simp only [none, finsum_zero, sub_zero]
  · exact fun r => hk r whole part sums

end

section
variable {cfg : Config}

theorem finsum_at (a : Int32) (n : Int) : ∑ᶠ x : Int32, (if a = x then n else 0) = n := by
  rw [finsum_eq_single _ a fun x ne => if_neg (Ne.symm ne), if_pos rfl]

theorem ahead_incr (whole k : Key) (part : Int32 → Key) (n : Int32) :
    ahead whole part (.store (.incr k n)) =
      (∑ᶠ i, if k = part i then n.toInt else 0) - if k = whole then n.toInt else 0 := rfl

/-- The three increments of an interval, among whatever others. -/
theorem settles_shopUserDurationAdd {mall_id shop_id user_id : Int32} {date : Stamp}
    {interval : Int32} : Settles (shopUserDurationAdd cfg mall_id shop_id user_id date interval) := by
  intro whole part sums _ _ _
  change (0 : Int) - _ - _ - _ = 0
  rw [ahead_incr, ahead_incr, ahead_incr]
  cases sums with
  | shop d m s =>
    by_cases here : date = d ∧ mall_id = m ∧ shop_id = s
    · obtain ⟨rfl, rfl, rfl⟩ := here
      simp [Int32.toInt_inj, finsum_at]
    · have elsewhere (u : Int32) : ¬(date = d ∧ mall_id = m ∧ shop_id = s ∧ user_id = u) :=
        fun h => here ⟨h.1, h.2.1, h.2.2.1⟩
      simp [Int32.toInt_inj, here, elsewhere]
  | mall d m =>
    by_cases here : date = d ∧ mall_id = m
    · obtain ⟨rfl, rfl⟩ := here
      simp [Int32.toInt_inj, finsum_at]
    · have elsewhere (s : Int32) : ¬(date = d ∧ mall_id = m ∧ shop_id = s) :=
        fun h => here ⟨h.1, h.2.1⟩
      simp [Int32.toInt_inj, here, elsewhere]

theorem settles_userGetId {mac : UInt64} : Settles (userGetId mac) :=
  settles_within (every_userGetId (by simp [IsStay]) (by simp [IsStay]))

theorem settles_vipArriveTimeRecord {user_id mall_id : Int32} {t_pre t : Int64} :
    Settles (vipArriveTimeRecord cfg user_id mall_id t_pre t) :=
  settles_within (every_vipArriveTimeRecord (by simp [IsStay]) (by simp [IsStay]))

theorem settles_recordInShop {shop_id user_id : Int32} {mac : UInt64} {now : Int64} {is_vip : Bool} :
    Settles (recordInShop cfg shop_id user_id mac now is_vip) := by
  have last : Settles (getUserLocationTime 2 shop_id mac) :=
    settles_within (every_userMapInit.bind fun _ => every_get (by simp [IsStay]))
  have times : Settles (updateUserLocationTime cfg 2 shop_id mac now) := by
    apply settles_within
    exact every_userMapInit.bind fun _ => (every_set (by simp [IsStay])).bind fun _ =>
      every_zadd (by simp [IsStay])
  have arrive (last_time : Int64) :
      Settles (updateUserArriveTime cfg 2 shop_id user_id last_time now is_vip) := by
    apply settles_within
    exact every_userMapInit.bind fun _ => every_whenM fun _ => every_zadd (by simp [IsStay])
  have place : Settles (updateShopidOfUserLocation cfg user_id shop_id now) :=
    settles_within (every_set (by simp [IsStay]))
  apply settles_bind last
  intro last_time
  apply settles_bind times
  intro _
  apply settles_bind settles_shopUserDurationAdd
  intro _
  exact settles_bind (arrive last_time) fun _ => place

theorem settles_apmacGetShopid {mac : UInt64} : Settles (apmacGetShopid mac) :=
  settles_bind (settles_within every_userMapInit) fun _ =>
    settles_ask (by simp) fun r => settles_ret r

theorem settles_apmacCloserSightings {shop_id : Int32} {now : Int64}
    (entries : List (Text × UInt64)) : Settles (apmacCloserSightings cfg shop_id now entries) := by
  induction entries with
  | nil => exact settles_ret ()
  | cons entry entries ih =>
    have vip : Settles (macIsVip entry.1 shop_id) :=
      settles_bind (settles_within every_userMapInit) fun _ =>
        settles_ask (by simp) fun r => settles_ret r
    have sighting : Settles (apmacCloserSighting cfg shop_id now entry) := by
      apply settles_bind vip
      intro _
      apply settles_bind settles_userGetId
      intro _
      exact settles_whenM settles_recordInShop
    exact settles_bind sighting fun _ => ih

theorem settles_apmacSightings (macs : List UInt64) : Settles (apmacSightings cfg macs) := by
  induction macs with
  | nil => exact settles_ret ()
  | cons mac macs ih =>
    have sighting : Settles (apmacSighting cfg mac) := by
      apply settles_ask (c := .time) (by simp)
      intro now
      apply settles_bind (settles_within (every_set (by simp [IsStay])))
      intro _
      apply settles_bind (settles_within (every_zadd (by simp [IsStay])))
      intro _
      apply settles_bind settles_userGetId
      intro user_id
      apply settles_bind (settles_within (every_get (by simp [IsStay])))
      intro _
      exact settles_vipArriveTimeRecord
    exact settles_bind sighting fun _ => ih

theorem settles_recordSighting {mac : UInt64} {x y : Rat} {z mall_id : Int32} {t : Int64} :
    Settles (recordSighting cfg mac x y z mall_id t) := by
  apply settles_within
  have prop {τ : Ty} {p : LocationProp} {v : τ.Val} :
      (tairSetUserProp τ mall_id mac p v).Every (Within fun k => ¬IsStay k) :=
    every_tairSetUserProp (by simp [IsStay])
  apply prop.bind
  intro _
  apply prop.bind
  intro _
  apply (every_whenM fun _ => prop).bind
  intro _
  apply (every_get (by simp [IsStay])).bind
  intro _
  apply prop.bind
  intro _
  apply (every_zadd (by simp [IsStay])).bind
  intro _
  have log : (userLocationLogAdd cfg mac x y z mall_id t).Every (Within fun k => ¬IsStay k) :=
    every_userLocationLogAdd (by simp [IsStay]) (by simp [IsStay]) (by simp [IsStay])
      (by simp [IsStay]) (by simp [IsStay])
  have credit (t_pre : Int64) :
      (creditUser cfg mac mall_id t_pre t).Every (Within fun k => ¬IsStay k) :=
    every_creditUser (by simp [IsStay]) (by simp [IsStay]) (by simp [IsStay]) (by simp [IsStay])
      (by simp [IsStay]) (by simp [IsStay])
  exact log.bind fun _ => credit _

end

section
variable (cfg : Config) (doubles : Doubles) (F : Floats) (user_tag_save_on_tair : Bool)

theorem settles_userMapInit : Settles userMapInit := settles_within every_userMapInit

theorem settles_userTagUpdate {mac : UInt64} {user_tag : Text} {user_value : Rat} :
    Settles (userTagUpdate doubles user_tag_save_on_tair mac user_tag user_value) := by
  apply settles_bind settles_userMapInit
  intro _
  split
  · apply settles_bind settles_userGetId
    intro user_id
    have label : Within (fun k => ¬IsStay k)
        (.store (.hset (.userLabelSet user_id.toInt) user_tag (doubles.print user_value))) :=
      within_store (by simp [StoreOp.key, IsStay])
    exact settles_within ⟨label, fun _ => trivial⟩
  · exact settles_ret none

theorem settles_userQuery {mac : UInt64} {mall_id : Int32} :
    Settles (userQuery F mac mall_id) := by
  have read {τ : Ty} {d : τ.Val} {prop : LocationProp} :
      (get τ (.location mall_id.toInt mac prop) d).Every (Within fun k => ¬IsStay k) :=
    every_get (by simp [IsStay])
  apply settles_within
  exact every_userMapInit.bind fun _ => read.bind fun _ => read.bind fun _ => read.bind fun _ => trivial

theorem settles_userGetMac {user_id : Int32} : Settles (userGetMac user_id) := by
  apply settles_bind settles_userMapInit
  intro _
  apply settles_bind (settles_within (every_get (by simp [IsStay])))
  intro mac
  have asked : Settles (userMacFromPg user_id) := by
    apply settles_ask (c := .queryUserId user_id) (by simp)
    intro s_mac
    simp only [Prog.bind]
    split
    · apply settles_bind (settles_within (every_liftExcept _))
      intro mac
      apply settles_bind (settles_within (every_set (by simp [IsStay])))
      intro _
      apply settles_bind (settles_within (every_set (by simp [IsStay])))
      intro _
      exact settles_ret mac
    · exact settles_ret 0
  split
  · exact settles_ret mac
  · exact asked

theorem settles_start (task : Task) :
    Settles (task.start cfg doubles F user_tag_save_on_tair) := by
  cases task with
  | entry call =>
    cases call with
    | userAdd mac x y z mall_id =>
      have add : Settles (userAdd cfg mac x y z mall_id) :=
        settles_bind settles_userMapInit fun _ =>
          settles_ask (c := .time) (by simp) fun _ => settles_recordSighting
      exact settles_bind add fun _ => settles_ret ()
    | apmacMsg => exact settles_bind settles_apmacGetShopid fun _ => settles_apmacSightings _
    | apmacCloserMsg =>
      apply settles_bind settles_apmacGetShopid
      intro _
      exact settles_ask (c := .time) (by simp) fun _ => settles_apmacCloserSightings _
    | userTagUpdate =>
      exact settles_bind (settles_userTagUpdate doubles user_tag_save_on_tair) fun _ => settles_ret ()
  | query => exact settles_bind (settles_userQuery F) fun _ => settles_ret ()
  | getId => exact settles_bind settles_userGetId fun _ => settles_ret ()
  | getMac => exact settles_bind settles_userGetMac fun _ => settles_ret ()

end

/-! ## When all calls have ended -/

section
variable {E : Env} {cfg : Config} {doubles : Doubles} {F : Floats} {save : Bool}

/-- No increment has been refused. -/
def Roomy (type : TypeDb) (record : List Entry) : Prop :=
  ∀ k, IsStay k → ∀ ns, ns <+: amounts k record → HasRoom type ns.sum

theorem stay_eq_sum {record : List Entry} {db : Db} (tells : Tells E.type E.m record db)
    (room : Roomy E.type record) {k : Key} (stays : IsStay k) : stay db k = (amounts k record).sum := by
  have kind : k.kind = some .counter := by
    obtain ⟨_, _, _, _, rfl⟩ | ⟨_, _, _, rfl⟩ | ⟨_, _, rfl⟩ := stays <;> rfl
  have sum : Records.tally (HasRoom E.type) 0 (amounts k record) = 0 + (amounts k record).sum := by
    apply Records.tally_eq_sum
    intro ns before
    rw [Int.zero_add]
    exact room k stays ns before
  rw [stay, tells.counter k kind, sum, Int.zero_add]
  rfl

/-- Whatever the interleaving: when every call has ended, the total of a shop is the sum
over its users, and the total of a mall the sum over its shops. -/
theorem stay_times_settle (answered : ¬E.lossy) {w : World} (fresh : w.db = Db.empty)
    {p : Pool Cmd Cmd.Reply Exn Unit Started WorldRecord}
    (reach : (sharedSystem cfg doubles F save E).traced.Reach (w, []) p)
    (ended : ∀ t ∈ p.threads, t.2.Ended) (room : Roomy E.type p.world.2) :
    Totals p.world.1.db := by
  have tells := Represents.tells (reach_represents answered fresh reach)
  have even (whole : Key) (part : Int32 → Key) (sums : Sums whole part) :
      (amounts whole p.world.2).sum = ∑ᶠ i, (amounts (part i) p.world.2).sum := by
    have settled := reach.settled (fun s => settles_start cfg doubles F save s.task whole part sums) ended
    rw [booked_ahead] at settled
    exact (sub_eq_zero.mp settled).symm
  constructor
  · intro date mall_id shop_id
    rw [stay_eq_sum tells room (Or.inr (Or.inl ⟨_, _, _, rfl⟩)), even _ _ (.shop date mall_id shop_id)]
    exact finsum_congr fun i => (stay_eq_sum tells room (Or.inl ⟨_, _, _, _, rfl⟩)).symm
  · intro date mall_id
    rw [stay_eq_sum tells room (Or.inr (Or.inr ⟨_, _, rfl⟩)), even _ _ (.mall date mall_id)]
    exact finsum_congr fun i => (stay_eq_sum tells room (Or.inr (Or.inl ⟨_, _, _, rfl⟩))).symm

/-- All that has been added to any counter. -/
def allAmounts (record : List Entry) : List Int := (effects record).filterMap Records.Op.amount

/-- Intervals that do not go back overflow no counter while their sum is an `int`. -/
theorem roomy_of_small {type : TypeDb} {record : List Entry}
    (forward : ∀ n ∈ allAmounts record, 0 ≤ n) (small : (allAmounts record).sum < 2 ^ 31) :
    Roomy type record := by
  intro k _ ns before
  have within : ns.Sublist (allAmounts record) :=
    before.sublist.trans (Records.countFor_sublist k _)
  have least : 0 ≤ ns.sum := List.sum_nonneg fun n mem => forward n (within.subset mem)
  have most : ns.sum ≤ (allAmounts record).sum := within.sum_le_sum forward
  cases type with
  | redis => exact ⟨by omega, by omega⟩
  | tair => exact ⟨by omega, by omega⟩

end

/-! ## Two messages -/

def closerTask : Started := ⟨0, .entry (.apmacCloserMsg (fun _ => 0) (fun _ _ => 0) closerOfFive)⟩

def sharedFull : System Cmd Cmd.Reply Exn Unit Started World :=
  sharedSystem firstDay Machine.plain.doubles .plain true fullEnv

/-- A message that names MAC 5 twice comes at 300 and again at 400. -/
def cameTwice : Option WorldRecord :=
  sharedFull.traced.oneByOne (fun i _ => tracedAnswer answerNine i) 0 [closerTask, closerTask]
    (World.fresh oneUser [300, 400], [])

/-- The first interval is cut off at 120, the next is 100. -/
theorem stay_times_settle_twice : ∃ w : World,
    stay w.db (.mallDuration (getDateStr utcFirstDay 300) 2) = 220 ∧
      ∑ᶠ shop_id : Int32,
        stay w.db (.shopDuration (getDateStr utcFirstDay 300) 2 shop_id.toInt) = 220 := by
  have sums : cameTwice.map (fun w =>
      (stay w.1.db (.mallDuration (getDateStr utcFirstDay 300) 2),
        (allAmounts w.2).all (0 ≤ ·), decide ((allAmounts w.2).sum < 2 ^ 31))) =
      some (220, true, true) := by
    decide +kernel
  obtain ⟨w, run, same⟩ := Option.map_eq_some_iff.mp sums
  simp only [Prod.mk.injEq, List.all_eq_true, decide_eq_true_eq] at same
  obtain ⟨mall, forward, small⟩ := same
  have allowed (i : Nat) (s : Started) (mem : s ∈ [closerTask, closerTask]) (c : Cmd) (w : WorldRecord)
      (r : c.Reply × WorldRecord) (given : tracedAnswer answerNine i c w = some r) :
      sharedFull.traced.exec i s c w r.1 r.2 := by
    obtain rfl : s = closerTask := by simpa using mem
    exact traced_answer (S := sharedFull) (i := i) (l := closerTask) (fun c w r e => (exec_answerNine c w r e).1) c w r given
  obtain ⟨p, reach, rfl, threads⟩ := System.Reach.start.oneByOne allowed run
  have ended : ∀ t ∈ p.threads, t.2.Ended := by
    intro t mem
    obtain ⟨x, done⟩ := (threads t mem).resolve_left List.not_mem_nil
    rw [done]
    exact Prog.ended_done x
  have totals := stay_times_settle (E := fullEnv) not_false rfl reach ended
    (roomy_of_small forward small)
  exact ⟨p.world.1, mall, (totals.mall _ 2).symm.trans mall⟩

end UserMap

end SimpleDsp
