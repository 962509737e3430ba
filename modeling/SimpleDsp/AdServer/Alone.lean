import SimpleDsp.AdServer.Functions
import SimpleDsp.AdMap.Serving
import SimpleDsp.Lib.Interrupts

/-!
# A process that works alone

Nothing else happens between its operations.

* `passes_then`, `getECPM_then`, `showBids_then`: what the parts of a request read and do;
* `answer_alone`: a request is one of the calls in `AdMap`, at some readings of the clock.
-/

namespace SimpleDsp

open DecimalText Programs
open AdMap (Globals UserPosition Tally Highest Bid AdNode Ret Charge AdState Look Op)

namespace AdServer

variable {G : Globals} {s s' : AdState} {β : Type} {x : Except Empty β}

/-! ## Operations -/

/-- An operation that can do only one thing. -/
theorem op_then {c : Cmd} {r : c.Reply} {u : AdState}
    (only : ∀ r' v, exec G c s r' v ↔ r' = r ∧ v = u) (f : c.Reply → AdM β) :
    (Prog.op c f).Runs (exec G) s x s' ↔ (f r).Runs (exec G) u x s' := by
  constructor
  · rintro ⟨r', v, done, rest⟩
    obtain ⟨rfl, rfl⟩ := (only r' v).mp done
    exact rest
  · exact fun rest => ⟨r, u, (only r u).mpr ⟨rfl, rfl⟩, rest⟩

@[simp] theorem get_then (τ : Ty) (k : Key) (default_v : τ.Val) (f : τ.Val → AdM β) :
    (get τ k default_v >>= f).Runs (exec G) s x s' ↔
      (f (AdMap.get G s.db τ k default_v)).Runs (exec G) s x s' :=
  op_then (c := .get τ k default_v) (fun _ _ => Iff.rfl) f

@[simp] theorem smembers_then (τ : Ty) (k : Key) (f : List τ.Val → AdM β) :
    (smembers τ k >>= f).Runs (exec G) s x s' ↔
      (f (AdMap.smembers G s.db τ k)).Runs (exec G) s x s' :=
  op_then (c := .smembers τ k) (fun _ _ => Iff.rfl) f

@[simp] theorem zmembers_then (τ : Ty) (k : Key) (f : List τ.Val → AdM β) :
    (zmembers τ k >>= f).Runs (exec G) s x s' ↔
      (f (AdMap.zmembers G s.db τ k)).Runs (exec G) s x s' :=
  op_then (c := .zmembers τ k) (fun _ _ => Iff.rfl) f

theorem hget_then (k : Key) (f : List Text → AdM β) :
    (Prog.op (Cmd.hget k) f).Runs (exec G) s x s' ↔
      (f (AdMap.hgetFields G s.db k)).Runs (exec G) s x s' :=
  op_then (c := .hget k) (fun _ _ => Iff.rfl) f

theorem incr_then (k : Key) (f : Int32 → AdM β) :
    (Prog.op (Cmd.incr k) f).Runs (exec G) s x s' ↔
      (f (CBaseMdb.incr G.type G.m k.text 1 s.db).1).Runs (exec G)
        { s with db := (CBaseMdb.incr G.type G.m k.text 1 s.db).2 } x s' :=
  op_then (c := .incr k) (fun _ _ => Iff.rfl) f

theorem exec_then (charge : Charge) (f : Unit → AdM β) :
    (Prog.op (Cmd.exec charge) f).Runs (exec G) s x s' ↔
      (f ()).Runs (exec G) { s with charges := s.charges ++ [charge] } x s' :=
  op_then (c := .exec charge) (fun _ _ => ⟨fun done => ⟨rfl, done⟩, And.right⟩) f

theorem time_then (f : Int64 → AdM β) :
    (Prog.op Cmd.time f).Runs (exec G) s x s' ↔ ∃ t, (f t).Runs (exec G) s x s' := by
  constructor
  · rintro ⟨t, _, rfl, rest⟩
    exact ⟨t, rest⟩
  · rintro ⟨t, rest⟩
    exact ⟨t, _, rfl, rest⟩

/-! ## Candidates and filters -/

theorem adGroupList_then (pos : UserPosition) (user_id space_id mall_id : Int32)
    (f : List Int32 → AdM β) :
    (adGroupList G pos user_id space_id mall_id >>= f).Runs (exec G) s x s' ↔
      (f (AdMap.adGroupList G s.db pos user_id space_id mall_id)).Runs (exec G) s x s' := by
  by_cases known : 0 < user_id
  · simp only [adGroupList, getAdGroupSetOfSpace, getAdGroupSetOfLocation, if_pos known,
      Prog.bind_assoc, zmembers_then .int, Prog.pure_eq, Prog.ret_bind, AdMap.adGroupList,
      AdMap.getAdGroupSetOfSpace, AdMap.getAdGroupSetOfLocation]
  · simp only [adGroupList, getAdGroupSetOfSpace, if_neg known, Prog.bind_assoc,
      zmembers_then .int, Prog.pure_eq, Prog.ret_bind, AdMap.adGroupList,
      AdMap.getAdGroupSetOfSpace]

theorem userLabelSet_then (user_id : Int32) (f : List Text → AdM β) :
    (userLabelSet user_id >>= f).Runs (exec G) s x s' ↔
      (f (AdMap.userLabelSet G s.db user_id)).Runs (exec G) s x s' := by
  by_cases known : 0 < user_id
  · simp only [userLabelSet, AdMap.userLabelSet, if_pos known]
    exact hget_then _ _
  · simp only [userLabelSet, AdMap.userLabelSet, if_neg known, Prog.pure_eq, Prog.ret_bind]

/-- The clock is read only where the answer depends on it. -/
theorem checkMarketShop_then (user_id group_id mall_id : Int32) (f : Bool → AdM β) :
    (checkMarketShop G user_id group_id mall_id >>= f).Runs (exec G) s x s' ↔
      ∃ t_now, (f (AdMap.checkMarketShop G s.db user_id group_id mall_id t_now)).Runs (exec G)
        s x s' := by
  simp only [checkMarketShop, Prog.bind_assoc, smembers_then .int]
  generalize e : AdMap.smembers G s.db .int
    (.adGroup mall_id.toInt group_id.toInt .marketShopSet) = shop_id_list
  cases shop_id_list with
  | nil => simp only [AdMap.checkMarketShop, e, exists_const, Prog.pure_eq, Prog.ret_bind]
  | cons first rest =>
    by_cases known : 0 < user_id
    · simp only [getShopidOfUserLocation, known, if_true, Prog.bind_assoc, Prog.call_bind,
        Prog.op_bind, time_then, get_then .int, AdMap.checkMarketShop,
        AdMap.getShopidOfUserLocation, e, decide_true, Bool.true_and]
      by_cases chosen : 0 ≤ first
      · simp only [if_pos chosen, Prog.pure_eq, Prog.ret_bind]
        rfl
      · simp only [if_neg chosen, Prog.pure_eq, Prog.ret_bind]
        rfl
    · simp only [AdMap.checkMarketShop, e, known, if_false, decide_false, Bool.false_and,
        Bool.not_false, exists_const, Prog.pure_eq, Prog.ret_bind]
      by_cases chosen : 0 ≤ first
      · simp [chosen]
      · simp [chosen]

theorem checkTimeRange_then (mall_id : Int32) (time : Int64) (ad_group_id : Int32)
    (f : Bool → AdM β) :
    (checkTimeRange mall_id time ad_group_id >>= f).Runs (exec G) s x s' ↔
      (f (AdMap.checkTimeRange G s.db mall_id time ad_group_id)).Runs (exec G) s x s' := by
  simp only [checkTimeRange, Prog.bind_assoc, get_then .string, AdMap.checkTimeRange]
  generalize AdMap.get G s.db .string (.adGroup mall_id.toInt ad_group_id.toInt .marketStart) [] =
    s_start
  generalize AdMap.get G s.db .string (.adGroup mall_id.toInt ad_group_id.toInt .marketEnd) [] =
    s_end
  by_cases unset : (s_start : Text) = [] ∨ (s_end : Text) = []
  · simp only [if_pos unset, Prog.pure_eq, Prog.ret_bind]
  · simp only [if_neg unset]
    cases AdMap.stoll s_start with
    | none => rfl
    | some start =>
      cases AdMap.stoll s_end with
      | none => rfl
      | some end_ => rfl

theorem checkCronTimeSet_then (mall_id : Int32) (time : Int64) (ad_group_id : Int32)
    (f : Bool → AdM β) :
    (checkCronTimeSet G mall_id time ad_group_id >>= f).Runs (exec G) s x s' ↔
      (f (AdMap.checkCronTimeSet G s.db mall_id time ad_group_id)).Runs (exec G) s x s' := by
  simp only [checkCronTimeSet, Prog.bind_assoc, smembers_then .string, AdMap.checkCronTimeSet,
    Prog.pure_eq, Prog.ret_bind]

theorem checkLabels_then (user_id mall_id : Int32) (user_label_set : List Text) (it : Int32)
    (f : Bool → AdM β) :
    (checkLabels user_id mall_id user_label_set it >>= f).Runs (exec G) s x s' ↔
      (f (!(decide (0 < user_id)
        && !(AdMap.smembers G s.db .string (.adGroup mall_id.toInt it.toInt .targetLabelSet)).isEmpty
        && !AdMap.checkIntersection user_label_set (AdMap.smembers G s.db .string
          (.adGroup mall_id.toInt it.toInt .targetLabelSet))))).Runs (exec G) s x s' := by
  simp only [checkLabels, Prog.bind_assoc, smembers_then .string, Prog.pure_eq, Prog.ret_bind]

theorem exists_look {P : Look → Prop} : (∃ look, P look) ↔ ∃ shop now, P ⟨shop, now⟩ :=
  ⟨fun ⟨look, h⟩ => ⟨look.shop, look.now, h⟩, fun ⟨shop, now, h⟩ => ⟨⟨shop, now⟩, h⟩⟩

/-- A filter that stops reads no further; the rest of the look could be anything. -/
theorem passes_then (user_id mall_id : Int32) (user_label_set : List Text) (it : Int32)
    (f : Bool → AdM β) :
    (passes G user_id mall_id user_label_set it >>= f).Runs (exec G) s x s' ↔
      ∃ look, (f (AdMap.passes G s.db user_id mall_id user_label_set look it)).Runs (exec G)
        s x s' := by
  rw [exists_look]
  simp only [passes, Prog.bind_assoc, checkMarketShop_then, AdMap.passes]
  apply exists_congr
  intro shop
  cases AdMap.checkMarketShop G s.db user_id it mall_id shop with
  | false => simp
  | true =>
    simp only [if_true, Prog.bind_assoc, get_then .int, Bool.true_and]
    by_cases invalid : (AdMap.get G s.db .int (.adGroup mall_id.toInt it.toInt .valid)
      (1 : Int32) : Int32) = 0
    · simp [invalid]
    · simp only [invalid, if_false, Prog.call_bind, Prog.op_bind, time_then, Prog.bind_assoc,
        checkTimeRange_then, ne_eq, not_false_eq_true, decide_true, Bool.true_and]
      apply exists_congr
      intro now
      cases AdMap.checkTimeRange G s.db mall_id now it with
      | false => simp
      | true =>
        simp only [if_true, Prog.bind_assoc, checkCronTimeSet_then, Bool.true_and]
        cases AdMap.checkCronTimeSet G s.db mall_id now it with
        | false => simp
        | true => simp only [if_true, checkLabels_then, Bool.true_and]

/-! ## eCPM -/

theorem checkAdValid_then (mall_id ad_id : Int32) (f : Bool → AdM β) :
    (checkAdValid mall_id ad_id >>= f).Runs (exec G) s x s' ↔
      (f (AdMap.checkAdValid G s.db mall_id ad_id)).Runs (exec G) s x s' := by
  simp only [checkAdValid, Prog.bind_assoc, get_then .int, Prog.pure_eq, Prog.ret_bind]
  rfl

theorem tallyAd_then (mall_id ad_group_id : Int32) (t : Tally) (ad_id : Int32)
    (f : Tally → AdM β) :
    (tallyAd (AdMap.priceOf G s.db mall_id ad_group_id .show)
      (AdMap.priceOf G s.db mall_id ad_group_id .click) mall_id t ad_id >>= f).Runs (exec G)
        s x s' ↔
      (f (AdMap.tallyAd G s.db mall_id ad_group_id t ad_id)).Runs (exec G) s x s' := by
  simp only [tallyAd, Prog.bind_assoc, checkAdValid_then, AdMap.tallyAd]
  by_cases valid : AdMap.checkAdValid G s.db mall_id ad_id = true
  · simp only [if_pos valid, Prog.bind_assoc, get_then .string, get_then .int, Prog.pure_eq,
      Prog.ret_bind]
    rfl
  · simp only [if_neg valid, Prog.pure_eq, Prog.ret_bind]

/-- A loop whose rounds only read. -/
theorem foldlM_then {α γ : Type} {g : α → γ → AdM α} {h : α → γ → α}
    (round : ∀ a b, ∀ f : α → AdM β,
      (g a b >>= f).Runs (exec G) s x s' ↔ (f (h a b)).Runs (exec G) s x s')
    (l : List γ) (a : α) (f : α → AdM β) :
    (l.foldlM g a >>= f).Runs (exec G) s x s' ↔ (f (l.foldl h a)).Runs (exec G) s x s' := by
  induction l generalizing a with
  | nil => rfl
  | cons b l ih =>
    rw [List.foldlM_cons, Prog.bind_assoc, round, ih, List.foldl_cons]

theorem getECPM_then (mall_id ad_group_id next_ad_id : Int32) (f : Rat × Int32 → AdM β) :
    (getECPM mall_id ad_group_id next_ad_id >>= f).Runs (exec G) s x s' ↔
      (f (AdMap.getECPM G s.db mall_id ad_group_id next_ad_id)).Runs (exec G) s x s' := by
  simp only [getECPM, Prog.bind_assoc, smembers_then .int, get_then .double]
  exact foldlM_then (fun t ad_id f => tallyAd_then mall_id ad_group_id t ad_id f) _ _ _

/-! ## Answers -/

theorem getAd_then (mall_id show_ad_group_id show_ad_id : Int32) (f : AdNode → AdM β) :
    (getAd mall_id show_ad_group_id show_ad_id >>= f).Runs (exec G) s x s' ↔
      (f (AdMap.getAd G s.db mall_id show_ad_group_id show_ad_id)).Runs (exec G) s x s' := by
  simp only [getAd, Prog.bind_assoc, get_then .string, Prog.pure_eq, Prog.ret_bind]
  rfl

theorem increaseAdTime_then (mall_id show_ad_id : Int32) (type : ChargeType) (f : Unit → AdM β) :
    (increaseAdTime mall_id show_ad_id type >>= f).Runs (exec G) s x s' ↔
      (f ()).Runs (exec G) (AdMap.increaseAdTime G mall_id show_ad_id type s) x s' := by
  simp only [increaseAdTime, Prog.call_bind, Prog.op_bind, incr_then, Prog.pure_eq, Prog.ret_bind]
  rfl

theorem chargeAd_then (mall_id ad_id ad_group_id : Int32) (type : ChargeType)
    (f : Unit → AdM β) :
    (chargeAd mall_id ad_id ad_group_id type >>= f).Runs (exec G) s x s' ↔
      (f ()).Runs (exec G) (AdMap.chargeAd G mall_id ad_id ad_group_id type s) x s' := by
  simp only [chargeAd, getChargeCmd, Prog.bind_assoc, get_then .double, get_then .int,
    Prog.pure_eq, Prog.ret_bind, Prog.call_bind, exec_then]
  rfl

theorem showBid_then (mall_id : Int32) (b : Bid) (f : AdNode → AdM β) :
    (showBid mall_id b >>= f).Runs (exec G) s x s' ↔
      (f (AdMap.getAd G s.db mall_id b.group b.ad)).Runs (exec G)
        (AdMap.showBid G mall_id b (Ret.empty, s)).2 x s' := by
  simp only [showBid, Prog.bind_assoc, getAd_then, increaseAdTime_then, chargeAd_then,
    Prog.pure_eq, Prog.ret_bind]
  rfl

/-- The loop of `bidding` appends to what is there already, once a round. -/
theorem showBids_append (mall_id : Int32) (bs : List Bid) (ret : Ret) (s : AdState) :
    AdMap.showBids G mall_id bs (ret, s) =
      let r := AdMap.showBids G mall_id bs (Ret.empty, s)
      (r.2.1.ad.length, { ret with ad := ret.ad ++ r.2.1.ad }, r.2.2) := by
  induction bs generalizing ret s with
  | nil => simp [AdMap.showBids, Ret.empty]
  | cons b bs ih =>
    by_cases shown : b.eCPM ≠ 0
    · let node := AdMap.getAd G s.db mall_id b.group b.ad
      let v := (AdMap.showBid G mall_id b (Ret.empty, s)).2
      have first (ret : Ret) :
          AdMap.showBid G mall_id b (ret, s) = ({ ret with ad := ret.ad ++ [node] }, v) := rfl
      have tail (ret : Ret) := ih { ret with ad := ret.ad ++ [node] } v
      simp only [AdMap.showBids, if_pos shown, first, tail]
      simp [Ret.empty, Nat.add_comm]
    · simp [AdMap.showBids, shown, Ret.empty]

theorem showBids_then (mall_id : Int32) (bs : List Bid) (f : List AdNode → AdM β) :
    (showBids mall_id bs >>= f).Runs (exec G) s x s' ↔
      (f (AdMap.showBids G mall_id bs (Ret.empty, s)).2.1.ad).Runs (exec G)
        (AdMap.showBids G mall_id bs (Ret.empty, s)).2.2 x s' := by
  induction bs generalizing s f with
  | nil => rfl
  | cons b bs ih =>
    by_cases shown : b.eCPM ≠ 0
    · let node := AdMap.getAd G s.db mall_id b.group b.ad
      let v := (AdMap.showBid G mall_id b (Ret.empty, s)).2
      have first : AdMap.showBid G mall_id b (Ret.empty, s) = ({ Ret.empty with ad := [node] }, v) :=
        rfl
      simp only [showBids, AdMap.showBids, if_pos shown, Prog.bind_assoc, showBid_then, ih,
        Prog.pure_eq, Prog.ret_bind, first]
      rw [showBids_append mall_id bs { Ret.empty with ad := [node] }]
      rfl
    · simp only [showBids, AdMap.showBids, if_neg shown, Prog.pure_eq, Prog.ret_bind]
      rfl

/-! ## Requests -/

/-- Of the looks only the one at the candidate matters. -/
theorem bidFor_congr (db : Db) (user_id mall_id : Int32) {looks looks' : Nat → Look} {n : Nat}
    (lists : Highest n) {p : Int32 × Nat} (same : looks p.2 = looks' p.2) :
    AdMap.bidFor G db user_id mall_id looks lists p =
      AdMap.bidFor G db user_id mall_id looks' lists p := by
  rw [AdMap.bidFor, AdMap.bidFor, AdMap.passesIn, AdMap.passesIn, same]

theorem foldl_bidFor_congr (db : Db) (user_id mall_id : Int32) {looks looks' : Nat → Look} {n : Nat}
    (l : List Int32) {i : Nat} (same : ∀ j, i ≤ j → looks j = looks' j) (lists : Highest n) :
    (l.zipIdx i).foldl (AdMap.bidFor G db user_id mall_id looks) lists =
      (l.zipIdx i).foldl (AdMap.bidFor G db user_id mall_id looks') lists := by
  induction l generalizing i lists with
  | nil => rw [List.zipIdx_nil, List.foldl_nil, List.foldl_nil]
  | cons it l ih =>
    have now : AdMap.bidFor G db user_id mall_id looks lists (it, i) =
        AdMap.bidFor G db user_id mall_id looks' lists (it, i) :=
      bidFor_congr db user_id mall_id lists (same i (Nat.le_refl i))
    have later : ∀ j, i + 1 ≤ j → looks j = looks' j :=
      fun j le => same j (Nat.le_of_succ_le le)
    rw [List.zipIdx_cons, List.foldl_cons, List.foldl_cons, now]
    exact ih later _

/-- Each round reads the clock for itself. -/
theorem foldlM_bidFor_then (user_id mall_id : Int32) {n : Nat} (l : List Int32) (i : Nat)
    (lists : Highest n) (f : Highest n → AdM β) :
    (l.foldlM (bidFor G user_id mall_id (AdMap.userLabelSet G s.db user_id)) lists >>= f).Runs
        (exec G) s x s' ↔
      ∃ looks, (f ((l.zipIdx i).foldl (AdMap.bidFor G s.db user_id mall_id looks) lists)).Runs
        (exec G) s x s' := by
  induction l generalizing i lists with
  | nil =>
    exact ⟨fun rest => ⟨fun _ => ⟨0, 0⟩, rest⟩, fun ⟨_, rest⟩ => rest⟩
  | cons it l ih =>
    have round (look : Look) (later : Highest n → AdM β) :
        ((if AdMap.passes G s.db user_id mall_id (AdMap.userLabelSet G s.db user_id) look it
            then do
              let e ← getECPM mall_id it (-1)
              pure (lists.insert it e.1 e.2 n (Nat.le_refl n))
            else pure lists) >>= later).Runs (exec G) s x s' ↔
          (later (AdMap.bidFor G s.db user_id mall_id (fun _ => look) lists (it, i))).Runs (exec G)
            s x s' := by
      by_cases pass : AdMap.passes G s.db user_id mall_id (AdMap.userLabelSet G s.db user_id) look
        it = true
      · simp only [AdMap.bidFor, AdMap.passesIn, pass, if_true, Prog.bind_assoc, getECPM_then,
          Prog.pure_eq, Prog.ret_bind]
      · simp only [AdMap.bidFor, AdMap.passesIn, pass, Prog.pure_eq]
        rfl
    have first : (bidFor G user_id mall_id (AdMap.userLabelSet G s.db user_id) lists it >>=
        fun lists => l.foldlM (bidFor G user_id mall_id (AdMap.userLabelSet G s.db user_id)) lists
          >>= f).Runs (exec G) s x s' ↔ ∃ look looks, (f ((l.zipIdx (i + 1)).foldl
            (AdMap.bidFor G s.db user_id mall_id looks)
            (AdMap.bidFor G s.db user_id mall_id (fun _ => look) lists (it, i)))).Runs (exec G)
              s x s' := by
      simp only [bidFor, Prog.bind_assoc, passes_then, round, ih (i + 1)]
    rw [List.foldlM_cons, Prog.bind_assoc, first]
    constructor
    · rintro ⟨look, looks, rest⟩
      refine ⟨Function.update looks i look, ?_⟩
      have now : AdMap.bidFor G s.db user_id mall_id (Function.update looks i look) lists (it, i) =
          AdMap.bidFor G s.db user_id mall_id (fun _ => look) lists (it, i) :=
        bidFor_congr s.db user_id mall_id lists (Function.update_self i look looks)
      have later : ∀ j, i + 1 ≤ j → Function.update looks i look j = looks j :=
        fun j le => Function.update_of_ne (by omega) _ _
      rw [List.zipIdx_cons, List.foldl_cons, now, foldl_bidFor_congr s.db user_id mall_id l later]
      exact rest
    · rintro ⟨looks, rest⟩
      have now : AdMap.bidFor G s.db user_id mall_id looks lists (it, i) =
          AdMap.bidFor G s.db user_id mall_id (fun _ => looks i) lists (it, i) :=
        bidFor_congr s.db user_id mall_id lists rfl
      rw [List.zipIdx_cons, List.foldl_cons, now] at rest
      exact ⟨looks i, looks, rest⟩

theorem userQuery_then (mac : UInt64) (mall_id : Int32) (f : UserPosition → AdM β) :
    (userQuery mac mall_id >>= f).Runs (exec G) s x s' ↔
      (f (AdMap.userQuery G s.db mac mall_id)).Runs (exec G) s x s' := by
  simp only [userQuery, Prog.bind_assoc, get_then .double, get_then .int, Prog.pure_eq,
    Prog.ret_bind]
  rfl

theorem bidding_alone (pos : UserPosition) (user_id space_id mall_id : Int32) (n : Nat)
    {x : Except Empty Ret} :
    (bidding G pos user_id space_id mall_id n).Runs (exec G) s x s' ↔ ∃ looks,
      let r := AdMap.bidding G pos user_id space_id mall_id n looks (Ret.empty, s)
      x = .ok r.1 ∧ s' = r.2 := by
  simp only [bidding, adGroupList_then, userLabelSet_then, foldlM_bidFor_then _ _ _ 0,
    showBids_then, Prog.pure_eq]
  apply exists_congr
  intro looks
  rw [AdMap.bidding, showBids_append]
  simp only [Ret.empty, List.nil_append, ne_eq, List.length_eq_zero_iff]
  rfl

theorem click_alone (ad_id mall_id : Int32) {x : Except Empty Ret} :
    (adClick ad_id mall_id).Runs (exec G) s x s' ↔
      let r := (AdMap.adClick G ad_id mall_id (Ret.empty, s)).2
      x = .ok r.1 ∧ s' = r.2 := by
  simp only [adClick, get_then .int, AdMap.adClick, AdMap.groupOf]
  by_cases absent : (AdMap.get G s.db .int (.ad mall_id.toInt ad_id.toInt .group) (-1 : Int32) :
    Int32) = -1
  · simp only [absent, if_true]
    rfl
  · simp only [absent, if_false, increaseAdTime_then, chargeAd_then]
    rfl

/-- What a call is asked for. -/
def asked : Op → Request
  | .request mac user_id space_id mall_id n _ => .request mac user_id space_id mall_id n
  | .click ad_id mall_id => .click ad_id mall_id

theorem answer_alone (request : Request) {x : Except Empty Ret} :
    (request.answer G).Runs (exec G) s x s' ↔
      ∃ o, asked o = request ∧ x = .ok (o.run G s).1 ∧ s' = (o.run G s).2 := by
  cases request with
  | request mac user_id space_id mall_id n =>
    have answer : (Request.request mac user_id space_id mall_id n).answer G =
        (do
          let pos ← userQuery mac mall_id
          bidding G pos user_id space_id mall_id n) := rfl
    rw [answer, userQuery_then, bidding_alone]
    constructor
    · rintro ⟨looks, done⟩
      exact ⟨.request mac user_id space_id mall_id n looks, rfl, done⟩
    · rintro ⟨o, same, done⟩
      cases o with
      | request mac' user_id' space_id' mall_id' n' looks =>
        cases same
        exact ⟨looks, done⟩
      | click => cases same
  | click ad_id mall_id =>
    have answer : (Request.click ad_id mall_id).answer G = adClick ad_id mall_id := rfl
    rw [answer, click_alone]
    constructor
    · exact fun done => ⟨.click ad_id mall_id, rfl, done⟩
    · rintro ⟨o, same, done⟩
      cases o with
      | request => cases same
      | click =>
        cases same
        exact done

end AdServer

end SimpleDsp
