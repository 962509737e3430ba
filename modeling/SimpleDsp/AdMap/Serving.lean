import SimpleDsp.AdMap.Auction

/-!
# Requests and clicks, one after the other

* `Op.step`: what one call does to the counters and the charges;
* `Served`: calls whose store operations all succeed;
* `counters_responses_charges_agree`: counters, answers and charges tell the same.
-/

namespace SimpleDsp

open DecimalText

namespace AdMap

/-! ## What a call leaves alone -/

def IsCounter : Key → Bool
  | .ad _ _ (.counter _) => true
  | _ => false

/-- Only counters of ads have changed. -/
def OnlyCounters (db db' : Db) : Prop := ∀ k : Key, IsCounter k = false → db' k.text = db k.text

theorem OnlyCounters.refl (db : Db) : OnlyCounters db db := fun _ _ => rfl

theorem OnlyCounters.trans {a b c : Db} (h : OnlyCounters a b) (h' : OnlyCounters b c) :
    OnlyCounters a c := fun k hk => (h' k hk).trans (h k hk)

variable {G : Globals} {db db' : Db} {s : AdState}

theorem incr_frame {k k' : Key} (h : k' ≠ k) (db : Db) :
    (CBaseMdb.incr G.type G.m k.text 1 db).2 k'.text = db k'.text := by
  have frame : ((StoreOp.incr k 1).run G.type G.m db).2 k'.text = db k'.text :=
    StoreOp.run_frame h db
  exact frame

theorem onlyCounters_increaseAdTime (mall_id ad_id : Int32) (type : ChargeType) (s : AdState) :
    OnlyCounters s.db (increaseAdTime G mall_id ad_id type s).db := by
  intro k hk
  apply incr_frame
  rintro rfl
  cases hk

theorem get_onlyCounters {τ : Ty} {k : Key} {d : τ.Val} (same : OnlyCounters db db')
    (hk : IsCounter k = false) : get G db' τ k d = get G db τ k d :=
  CBaseMdb.get_congr (same k hk)

theorem ownerOf_onlyCounters (same : OnlyCounters db db') (mall_id g : Int32) :
    ownerOf G db' mall_id g = ownerOf G db mall_id g :=
  get_onlyCounters same rfl

theorem getChargeCmd_onlyCounters (same : OnlyCounters db db') (mall_id ad_id g : Int32)
    (type : ChargeType) :
    getChargeCmd G db' mall_id ad_id g type = getChargeCmd G db mall_id ad_id g type := by
  have price : priceOf G db' mall_id g type = priceOf G db mall_id g type :=
    get_onlyCounters same rfl
  rw [getChargeCmd, getChargeCmd, ownerOf_onlyCounters same, price]

/-! ## The loop that answers -/

abbrev counterKey (mall_id ad_id : Int32) (type : ChargeType) : Key :=
  .ad mall_id.toInt ad_id.toInt (.counter type)

theorem counterKey_inj {mall_id ad_id mall_id' ad_id' : Int32} {type type' : ChargeType} :
    counterKey mall_id ad_id type = counterKey mall_id' ad_id' type' ↔
      mall_id = mall_id' ∧ ad_id = ad_id' ∧ type = type' := by
  simp [counterKey, Int32.toInt_inj]

/-- An increment adds one to its own counter, if that has room. -/
theorem increaseAdTime_self {mall_id ad_id : Int32} {type : ChargeType} {n : Nat}
    (hn : counterAt (s.db (counterKey mall_id ad_id type).text) = some (n : Int))
    (room : n + 1 ≤ CBaseMdb.counterMax G.type) :
    counterAt ((increaseAdTime G mall_id ad_id type s).db (counterKey mall_id ad_id type).text) =
      some ((n + 1 : Nat) : Int) := by
  simp only [increaseAdTime, CBaseMdb.incr_one hn room, Db.put_self, CBaseMdb.counterAt_decimal]

theorem increaseAdTime_other {mall_id ad_id : Int32} {type : ChargeType} {k : Key}
    (h : k ≠ counterKey mall_id ad_id type) :
    (increaseAdTime G mall_id ad_id type s).db k.text = s.db k.text :=
  incr_frame h s.db

/-- What showing bids does: to the show counters of the mall, to the charges, and
to nothing else. -/
structure Shows (G : Globals) (mall_id : Int32) (bs : List Bid) (s s' : AdState) : Prop where
  counter : ∀ ad_id, ∀ n : Nat,
    counterAt (s.db (counterKey mall_id ad_id .show).text) = some (n : Int) →
    n + bs.countP (fun b => b.ad = ad_id) ≤ CBaseMdb.counterMax G.type →
    counterAt (s'.db (counterKey mall_id ad_id .show).text) =
      some ((n + bs.countP (fun b => b.ad = ad_id) : Nat) : Int)
  others : ∀ k : Key, (∀ ad_id, k ≠ counterKey mall_id ad_id .show) → s'.db k.text = s.db k.text
  charges : s'.charges =
    s.charges ++ bs.map fun b => getChargeCmd G s.db mall_id b.ad b.group .show

theorem Shows.only {mall_id : Int32} {bs : List Bid} {s s' : AdState}
    (h : Shows G mall_id bs s s') : OnlyCounters s.db s'.db := by
  intro k hk
  apply h.others
  rintro ad_id rfl
  cases hk

theorem shows_foldl (mall_id : Int32) (bs : List Bid) (a : Ret × AdState) :
    Shows G mall_id bs a.2 (bs.foldl (fun a b => showBid G mall_id b a) a).2 := by
  induction bs generalizing a with
  | nil => exact ⟨fun _ n hn _ => by simpa using hn, fun _ _ => rfl, by simp⟩
  | cons b bs ih =>
    obtain ⟨counter, others, charges⟩ := ih (showBid G mall_id b a)
    have first : OnlyCounters a.2.db (increaseAdTime G mall_id b.ad .show a.2).db :=
      onlyCounters_increaseAdTime mall_id b.ad .show a.2
    constructor
    · intro ad_id n hn fits
      rw [List.foldl_cons]
      by_cases same : b.ad = ad_id
      · subst same
        simp only [List.countP_cons, decide_true, if_true] at fits ⊢
        rw [counter b.ad (n + 1) (increaseAdTime_self hn (by omega)) (by omega)]
        congr 2
        omega
      · have other : counterKey mall_id ad_id .show ≠ counterKey mall_id b.ad .show := by
          intro e
          exact same (counterKey_inj.mp e).2.1.symm
        simp only [List.countP_cons, same, decide_false, Bool.false_eq_true, if_false,
          Nat.add_zero] at fits ⊢
        exact counter ad_id n (by rw [← hn]; exact congrArg counterAt (increaseAdTime_other other))
          fits
    · intro k hk
      rw [List.foldl_cons, others k hk]
      exact increaseAdTime_other (hk b.ad)
    · rw [List.foldl_cons, charges, List.map_cons]
      have later : OnlyCounters a.2.db (showBid G mall_id b a).2.db := first
      simp only [getChargeCmd_onlyCounters later]
      simp only [showBid, chargeAd, getChargeCmd_onlyCounters first, List.append_assoc,
        List.singleton_append]
      rfl

/-! ## Calls -/

/-- A call of `ad_request` or `ad_click`; each answers into an empty `ret`. -/
inductive Op
  | request (mac : UInt64) (user_id space_id mall_id : Int32) (n : Nat) (looks : Nat → Look)
  | click (ad_id mall_id : Int32)

def Op.run (G : Globals) : Op → AdState → Ret × AdState
  | .request mac user_id space_id mall_id n looks, s =>
    adRequest G mac user_id space_id mall_id n looks (Ret.empty, s)
  | .click ad_id mall_id, s => (adClick G ad_id mall_id (Ret.empty, s)).2

/-- How often an answer counts for an ad: once for each entry with its id, or
once for a click on it that is answered `ok`. -/
def countedBy (mall_id ad_id : Int32) : ChargeType → Op × Ret → Nat
  | .show, (.request _ _ _ mall_id' _ _, ret) =>
    if mall_id' = mall_id then ret.ad.countP (fun e => e.id = ad_id) else 0
  | .click, (.click ad_id' mall_id', ret) =>
    if ad_id' = ad_id ∧ mall_id' = mall_id ∧ ret.result = some "ok".toList then 1 else 0
  | _, _ => 0

def counted (mall_id ad_id : Int32) (type : ChargeType) (h : List (Op × Ret)) : Nat :=
  (h.map (countedBy mall_id ad_id type)).sum

/-- The charges that belong to an answer. -/
def chargesOf (G : Globals) (db : Db) : Op × Ret → List Charge
  | (.request _ _ _ mall_id _ _, ret) =>
    ret.ad.map fun e => getChargeCmd G db mall_id e.id e.group_id .show
  | (.click ad_id mall_id, ret) =>
    if ret.result = some "ok".toList then
      [getChargeCmd G db mall_id ad_id (groupOf G db mall_id ad_id) .click]
    else []

/-- What a call does. -/
structure Op.Does (G : Globals) (o : Op) (s : AdState) (r : Ret × AdState) : Prop where
  only : OnlyCounters s.db r.2.db
  counter : ∀ mall_id ad_id type, ∀ n : Nat,
    counterAt (s.db (counterKey mall_id ad_id type).text) = some (n : Int) →
    n + countedBy mall_id ad_id type (o, r.1) ≤ CBaseMdb.counterMax G.type →
    counterAt (r.2.db (counterKey mall_id ad_id type).text) =
      some ((n + countedBy mall_id ad_id type (o, r.1) : Nat) : Int)
  charges : r.2.charges = s.charges ++ chargesOf G s.db (o, r.1)

/-- `bidding` shows bids and names them in its answer. -/
theorem bidding_does (pos : UserPosition) (user_id space_id mall_id : Int32) (n : Nat)
    (looks : Nat → Look) (s : AdState) :
    let ws := winners G s.db pos user_id space_id mall_id n looks
    let r := bidding G pos user_id space_id mall_id n looks (Ret.empty, s)
    r.1.ad.map (fun e => (e.group_id, e.id)) = ws.map (fun b => (b.group, b.ad)) ∧
      Shows G mall_id ws s r.2 := by
  intro ws r
  have answer : r = _ := bidding_shows pos user_id space_id mall_id n looks (Ret.empty, s)
  rw [answer]
  exact ⟨by simpa [Ret.empty] using foldl_showBid_ad (G := G) mall_id ws (Ret.empty, s),
    shows_foldl mall_id ws (Ret.empty, s)⟩

theorem request_does (mac : UInt64) (user_id space_id mall_id : Int32) (n : Nat)
    (looks : Nat → Look) (s : AdState) :
    (Op.request mac user_id space_id mall_id n looks).Does G s
      ((Op.request mac user_id space_id mall_id n looks).run G s) := by
  obtain ⟨ads, shows⟩ :=
    bidding_does (G := G) (userQuery G s.db mac mall_id) user_id space_id mall_id n looks s
  change (Op.request mac user_id space_id mall_id n looks).Does G s
    (bidding G (userQuery G s.db mac mall_id) user_id space_id mall_id n looks (Ret.empty, s))
  generalize bidding G (userQuery G s.db mac mall_id) user_id space_id mall_id n looks
    (Ret.empty, s) = r at ads shows ⊢
  constructor
  · exact shows.only
  · intro mall_id' ad_id type k hk fits
    by_cases shown : mall_id = mall_id' ∧ type = .show
    · obtain ⟨rfl, rfl⟩ := shown
      have entries := congrArg (List.countP fun p : Int32 × Int32 => p.2 = ad_id) ads
      simp only [List.countP_map, Function.comp_def] at entries
      simp only [countedBy, if_true, entries] at fits ⊢
      exact shows.counter ad_id k hk fits
    · have none : countedBy mall_id' ad_id type
          (Op.request mac user_id space_id mall_id n looks, r.1) = 0 := by
        cases type with
        | «show» => exact if_neg fun same => shown ⟨same, rfl⟩
        | click => rfl
      rw [none, Nat.add_zero, ← hk]
      apply congrArg counterAt
      apply shows.others
      intro ad_id' same
      obtain ⟨rfl, -, rfl⟩ := counterKey_inj.mp same
      exact shown ⟨rfl, rfl⟩
  · have named := congrArg (List.map fun p : Int32 × Int32 =>
      getChargeCmd G s.db mall_id p.2 p.1 .show) ads
    simp only [List.map_map, Function.comp_def] at named
    rw [shows.charges, chargesOf, named]

theorem click_does (ad_id mall_id : Int32) (s : AdState) :
    (Op.click ad_id mall_id).Does G s ((Op.click ad_id mall_id).run G s) := by
  by_cases absent : groupOf G s.db mall_id ad_id = -1
  · have run : (Op.click ad_id mall_id).run G s =
        ({ Ret.empty with result := some "no such ad".toList }, s) := by
      simp [Op.run, adClick, absent]
    have refused : (some "no such ad".toList : Option Text) ≠ some "ok".toList := by decide
    rw [run]
    refine ⟨.refl _, fun mall_id' ad_id' type k hk _ => ?_, ?_⟩
    · cases type with
      | «show» => exact hk
      | click =>
        simp only [countedBy, refused, and_false, if_false]
        exact hk
    · simp only [chargesOf, refused, if_false, List.append_nil]
  · have run : (Op.click ad_id mall_id).run G s =
        ({ Ret.empty with result := some "ok".toList },
          chargeAd G mall_id ad_id (groupOf G s.db mall_id ad_id) .click
            (increaseAdTime G mall_id ad_id .click s)) := by
      simp [Op.run, adClick, absent]
    have only := onlyCounters_increaseAdTime (G := G) mall_id ad_id .click s
    rw [run]
    refine ⟨only, fun mall_id' ad_id' type k hk fits => ?_, ?_⟩
    · by_cases here : ad_id = ad_id' ∧ mall_id = mall_id' ∧ type = .click
      · obtain ⟨rfl, rfl, rfl⟩ := here
        simp only [countedBy, and_self, if_true] at fits ⊢
        exact increaseAdTime_self hk fits
      · have none : countedBy mall_id' ad_id' type
            (Op.click ad_id mall_id, { Ret.empty with result := some "ok".toList }) = 0 := by
          cases type with
          | «show» => rfl
          | click => exact if_neg fun same => here ⟨same.1, same.2.1, rfl⟩
        rw [none, Nat.add_zero, ← hk]
        apply congrArg counterAt
        apply increaseAdTime_other
        intro same
        obtain ⟨rfl, rfl, rfl⟩ := counterKey_inj.mp same
        exact here ⟨rfl, rfl, rfl⟩
    · simp only [chargesOf, if_true, chargeAd, getChargeCmd_onlyCounters only]
      rfl

/-- What each call does. -/
theorem Op.step (o : Op) (s : AdState) : o.Does G s (o.run G s) := by
  cases o with
  | request mac user_id space_id mall_id n looks =>
    exact request_does mac user_id space_id mall_id n looks s
  | click ad_id mall_id => exact click_does ad_id mall_id s

/-- Every increment of the call is accepted: the counters have room for them. -/
def Op.Succeeds (G : Globals) (o : Op) (s : AdState) : Prop :=
  ∀ mall_id ad_id type, ∀ n : Nat,
    counterAt (s.db (counterKey mall_id ad_id type).text) = some (n : Int) →
    n + countedBy mall_id ad_id type (o, (o.run G s).1) ≤ CBaseMdb.counterMax G.type

/-- The calls so far with their answers, and the state they have led to. -/
inductive Served (G : Globals) (s0 : AdState) : List (Op × Ret) → AdState → Prop
  | start : Served G s0 [] s0
  | call {h : List (Op × Ret)} {s : AdState} (before : Served G s0 h s) (o : Op)
      (succeeds : o.Succeeds G s) : Served G s0 (h ++ [(o, (o.run G s).1)]) (o.run G s).2

structure ZeroCounters (s : AdState) : Prop where
  counter : ∀ mall_id ad_id type, counterAt (s.db (counterKey mall_id ad_id type).text) = some 0
  charges : s.charges = []

/-- The state as the answers tell it. -/
structure Tells (G : Globals) (s0 : AdState) (h : List (Op × Ret)) (s : AdState) : Prop where
  only : OnlyCounters s0.db s.db
  counter : ∀ mall_id ad_id type, counterAt (s.db (counterKey mall_id ad_id type).text) =
    some (counted mall_id ad_id type h : Int)
  charges : s.charges = h.flatMap (chargesOf G s0.db)

theorem chargesOf_onlyCounters (same : OnlyCounters db db') (e : Op × Ret) :
    chargesOf G db' e = chargesOf G db e := by
  obtain ⟨o, ret⟩ := e
  cases o with
  | request mac user_id space_id mall_id n looks =>
    simp only [chargesOf, getChargeCmd_onlyCounters same]
  | click ad_id mall_id =>
    have group : groupOf G db' mall_id ad_id = groupOf G db mall_id ad_id :=
      get_onlyCounters same rfl
    simp only [chargesOf, getChargeCmd_onlyCounters same, group]

theorem Served.tells {s0 : AdState} (zero : ZeroCounters s0) {h : List (Op × Ret)}
    (run : Served G s0 h s) : Tells G s0 h s := by
  induction run with
  | start => exact ⟨.refl _, fun mall_id ad_id type => zero.counter mall_id ad_id type, zero.charges⟩
  | @call h s before o succeeds ih =>
    have step := o.step (G := G) s
    constructor
    · exact ih.only.trans step.only
    · intro mall_id ad_id type
      have now := ih.counter mall_id ad_id type
      rw [step.counter mall_id ad_id type _ now (succeeds mall_id ad_id type _ now)]
      simp [counted]
    · rw [step.charges, ih.charges, chargesOf_onlyCounters ih.only]
      simp

/-! ## Counters, answers and charges -/

/-- How many charges of a type have been issued for an ad. -/
def charged (mall_id ad_id : Int32) (type : ChargeType) (charges : List Charge) : Nat :=
  charges.countP fun c =>
    c.mall_id = mall_id ∧ c.remark.ad_id = ad_id ∧ c.remark.charge_type = type

theorem charged_chargesOf (mall_id ad_id : Int32) (type : ChargeType) (e : Op × Ret) :
    charged mall_id ad_id type (chargesOf G db e) = countedBy mall_id ad_id type e := by
  obtain ⟨o, ret⟩ := e
  cases o with
  | request mac user_id space_id mall_id' n looks =>
    simp only [charged, chargesOf, List.countP_map, Function.comp_def, getChargeCmd]
    cases type with
    | «show» =>
      by_cases same : mall_id' = mall_id
      · simp [countedBy, same]
      · simp [countedBy, same]
    | click => simp [countedBy]
  | click ad_id' mall_id' =>
    by_cases ok : ret.result = some "ok".toList
    · simp only [charged, chargesOf, ok, if_true, getChargeCmd, List.countP_singleton]
      cases type with
      | «show» => simp [countedBy]
      | click => simp [countedBy, ok, and_comm]
    · have none : chargesOf G db (.click ad_id' mall_id', ret) = [] := if_neg ok
      rw [none]
      cases type with
      | «show» => rfl
      | click => exact (if_neg fun all => ok all.2.2).symm

theorem charged_flatMap (mall_id ad_id : Int32) (type : ChargeType) (h : List (Op × Ret)) :
    charged mall_id ad_id type (h.flatMap (chargesOf G db)) = counted mall_id ad_id type h := by
  induction h with
  | nil => rfl
  | cons e h ih =>
    have first : charged mall_id ad_id type (chargesOf G db e) = countedBy mall_id ad_id type e :=
      charged_chargesOf mall_id ad_id type e
    simp only [charged, counted] at ih first ⊢
    rw [List.flatMap_cons, List.countP_append, first, ih, List.map_cons, List.sum_cons]

/-- A charge names the owner of its group, and takes nothing from nobody. -/
structure Charge.Sound (G : Globals) (db : Db) (c : Charge) : Prop where
  owner : c.owner_id = ownerOf G db c.mall_id c.remark.ad_group_id
  change : c.change ≤ 0

theorem getChargeCmd_sound (mall_id ad_id g : Int32) (type : ChargeType) :
    (getChargeCmd G db mall_id ad_id g type).Sound G db := by
  constructor
  · rfl
  · simp only [getChargeCmd]
    split
    · rename_i positive
      exact neg_nonpos.mpr positive
    · rename_i negative
      exact le_of_lt (not_le.mp negative)

theorem sound_of_mem_chargesOf {e : Op × Ret} {c : Charge} (h : c ∈ chargesOf G db e) :
    c.Sound G db := by
  obtain ⟨o, ret⟩ := e
  cases o with
  | request mac user_id space_id mall_id n looks =>
    obtain ⟨entry, -, rfl⟩ := List.mem_map.mp h
    exact getChargeCmd_sound _ _ _ _
  | click ad_id mall_id =>
    simp only [chargesOf] at h
    split at h
    · rw [List.mem_singleton.mp h]
      exact getChargeCmd_sound _ _ _ _
    · cases h

/-! ## A store to compute with -/

theorem countedBy_le (mall_id ad_id : Int32) (type : ChargeType) (e : Op × Ret) :
    countedBy mall_id ad_id type e ≤ e.2.ad.length + 1 := by
  obtain ⟨o, ret⟩ := e
  have entries : ret.ad.countP (fun e => e.id = ad_id) ≤ ret.ad.length := List.countP_le_length
  cases o with
  | request =>
    cases type with
    | «show» =>
      simp only [countedBy]
      split <;> omega
    | click => exact Nat.zero_le _
  | click =>
    cases type with
    | «show» => exact Nat.zero_le _
    | click =>
      simp only [countedBy]
      split <;> omega

theorem counted_le (mall_id ad_id : Int32) (type : ChargeType) (h : List (Op × Ret)) :
    counted mall_id ad_id type h ≤ (h.map fun e => e.2.ad.length + 1).sum := by
  induction h with
  | nil => exact Nat.le_refl 0
  | cons e h ih =>
    have first := countedBy_le mall_id ad_id type e
    simp only [counted, List.map_cons, List.sum_cons] at ih ⊢
    omega

/-- A call succeeds while there have been few entries and clicks. -/
theorem Served.succeeds {s0 : AdState} (zero : ZeroCounters s0) {h : List (Op × Ret)}
    (run : Served G s0 h s) (o : Op)
    (few : ((h ++ [(o, (o.run G s).1)]).map fun e => e.2.ad.length + 1).sum ≤
      CBaseMdb.counterMax G.type) : o.Succeeds G s := by
  intro mall_id ad_id type n hn
  have now := (run.tells zero).counter mall_id ad_id type
  rw [hn] at now
  have total : n = counted mall_id ad_id type h := Int.ofNat_inj.mp (Option.some.inj now)
  have sum := counted_le mall_id ad_id type (h ++ [(o, (o.run G s).1)])
  simp only [counted, List.map_append, List.map_singleton, List.sum_append,
    List.sum_singleton] at sum total few
  omega

def storeOf (entries : List (Key × Val)) : Db :=
  entries.foldl (fun db e => db.put e.1.text e.2) Db.empty

theorem storeOf_eq_none {entries : List (Key × Val)} {k : Key} (h : ∀ e ∈ entries, e.1 ≠ k) :
    storeOf entries k.text = none := by
  have same (db : Db) : entries.foldl (fun db e => db.put e.1.text e.2) db k.text = db k.text := by
    induction entries generalizing db with
    | nil => rfl
    | cons e entries ih =>
      have ne : k.text ≠ e.1.text := fun same => h e (by simp) (Key.text_inj.mp same.symm)
      rw [List.foldl_cons, ih fun e' he' => h e' (by simp [he'])]
      exact Db.put_of_ne ne
  exact same Db.empty

def plainGlobals : Globals := ⟨.redis, Machine.plain, utcFirstDay, 10, 10⟩

/-- In space 28 of mall 3 the group 4 bids with the ad 1, whose own record names
the group 1. -/
def sharedAdEntries : List (Key × Val) :=
  [(.adSpace 3 28, .zset ((∅ : AList fun _ : Text => Rat).insert "4".toList 4)),
    (.adGroup 3 4 .adSet, .set {"1".toList}),
    (.adGroup 3 4 (.price .click), .str "1".toList),
    (.adGroup 3 4 .owner, .str "98".toList),
    (.adGroup 3 1 .adSet, .set {"1".toList}),
    (.adGroup 3 1 (.price .click), .str "2".toList),
    (.adGroup 3 1 .owner, .str "95".toList),
    (.ad 3 1 .group, .str "1".toList)]

def sharedAd : AdState := ⟨storeOf sharedAdEntries, []⟩

theorem sharedAd_zero : ZeroCounters sharedAd where
  counter mall_id ad_id type := by
    have none : sharedAd.db (counterKey mall_id ad_id type).text = none := by
      apply storeOf_eq_none
      rintro e he same
      have plain := List.all_eq_true.mp
        (by decide : sharedAdEntries.all fun e => !IsCounter e.1) e he
      simp [same, IsCounter] at plain
    rw [none]
    rfl
  charges := rfl

/-- A request for one ad in space 28, and a click on the ad 1. -/
def oneRequest : Op := .request 5 0 28 3 1 fun _ => ⟨0, 0⟩

def oneClick : Op := .click 1 3

/-! ## Counters, answers and charges agree -/

/-- After any calls: each counter is the number of entries returned with the ad,
or of clicks on it answered `ok`, and of the charges issued for it. A click that
is refused changes nothing, and every charge names the owner of its group and an
amount that is not positive. -/
theorem counters_responses_charges_agree {s0 : AdState} (zero : ZeroCounters s0)
    {h : List (Op × Ret)} (run : Served G s0 h s) :
    (∀ mall_id ad_id type,
      counterAt (s.db (counterKey mall_id ad_id type).text) =
        some (counted mall_id ad_id type h : Int) ∧
      charged mall_id ad_id type s.charges = counted mall_id ad_id type h) ∧
    (∀ ad_id mall_id, ((Op.click ad_id mall_id).run G s).1.result = some "no such ad".toList →
      ((Op.click ad_id mall_id).run G s).2 = s) ∧
    ∀ c ∈ s.charges, c.owner_id = ownerOf G s.db c.mall_id c.remark.ad_group_id ∧ c.change ≤ 0 := by
  have tells := run.tells zero
  refine ⟨fun mall_id ad_id type => ⟨tells.counter mall_id ad_id type, ?_⟩, ?_, ?_⟩
  · rw [tells.charges]
    exact charged_flatMap mall_id ad_id type h
  · intro ad_id mall_id refused
    by_cases absent : groupOf G s.db mall_id ad_id = -1
    · simp [Op.run, adClick, absent]
    · exact absurd refused (by simp [Op.run, adClick, absent])
  · intro c hc
    rw [tells.charges] at hc
    obtain ⟨e, -, he⟩ := List.mem_flatMap.mp hc
    obtain ⟨owner, change⟩ := sound_of_mem_chargesOf he
    rw [ownerOf_onlyCounters tells.only]
    exact ⟨owner, change⟩

/-- The ad 1 shown once and clicked once. -/
theorem counters_responses_charges_agree_once : ∃ h s, Served plainGlobals sharedAd h s ∧
    h.length = 2 ∧ counterAt (s.db (counterKey 3 1 .show).text) = some 1 ∧
    counterAt (s.db (counterKey 3 1 .click).text) = some 1 ∧
    charged 3 1 .show s.charges = 1 ∧ charged 3 1 .click s.charges = 1 := by
  let r1 := oneRequest.run plainGlobals sharedAd
  let r2 := oneClick.run plainGlobals r1.2
  have entries : r1.1.ad.map AdNode.id = [1] ∧ r2.1.ad.map AdNode.id = [] ∧
      r2.1.result = some "ok".toList := by decide +kernel
  have one : r1.1.ad.length = 1 := by simpa using congrArg List.length entries.1
  have zero : r2.1.ad = [] := List.map_eq_nil_iff.mp entries.2.1
  have room : 5 ≤ CBaseMdb.counterMax plainGlobals.type := by decide
  have first : Served plainGlobals sharedAd [(oneRequest, r1.1)] r1.2 :=
    Served.start.call oneRequest (Served.start.succeeds sharedAd_zero oneRequest (by
      have len : (oneRequest.run plainGlobals sharedAd).1.ad.length = 1 := one
      simp only [List.nil_append, List.map_singleton, List.sum_singleton, len]
      omega))
  have second : Served plainGlobals sharedAd [(oneRequest, r1.1), (oneClick, r2.1)] r2.2 :=
    first.call oneClick (first.succeeds sharedAd_zero oneClick (by
      have len : (oneClick.run plainGlobals r1.2).1.ad = [] := zero
      simp only [List.singleton_append, List.map_cons, List.map_nil, List.sum_cons, List.sum_nil,
        one, len, List.length_nil]
      omega))
  have shown : counted 3 1 .show [(oneRequest, r1.1), (oneClick, r2.1)] = 1 := by decide +kernel
  have clicked : counted 3 1 .click [(oneRequest, r1.1), (oneClick, r2.1)] = 1 := by decide +kernel
  have agree := (counters_responses_charges_agree sharedAd_zero second).1 3 1
  have shows := agree .show
  have clicks := agree .click
  rw [shown] at shows
  rw [clicked] at clicks
  exact ⟨_, r2.2, second, rfl, shows.1, clicks.1, shows.2, clicks.2⟩

end AdMap

end SimpleDsp
