import SimpleDsp.AdMap.Serving
import SimpleDsp.Lib.Rotation
import Mathlib.Algebra.Order.Field.Basic
import Mathlib.Algebra.Order.Ring.Cast
import Mathlib.Data.List.MinMax

/-!
# Rotation of the ads in a group

`get_eCPM` chooses the ad with the least `show_weight`, `bidding` counts it as
shown.

* `bidOf_next`: the chosen ad is one with the least weight;
* `Turns.even`: what every request keeps;
* `ads_rotate_fairly`: no ad of the group falls behind by more than one show.
-/

namespace SimpleDsp

open DecimalText Ranking Rotation

namespace AdMap

variable {G : Globals} {db : Db}

/-! ## The choice of get_eCPM -/

theorem weightOf_ne_zero (mall_id ad_id : Int32) : weightOf G db mall_id ad_id ≠ 0 := by
  simp only [weightOf]
  split
  · decide
  · assumption

theorem showWeight_lt (mall_id ad_id : Int32) : showWeight G db mall_id ad_id < DBL_MAX := by
  have counter := (counterOf G db mall_id ad_id .show).toInt_lt
  have counter' := (counterOf G db mall_id ad_id .show).le_toInt
  have nonzero : (weightOf G db mall_id ad_id).toInt ≠ 0 := by
    intro zero
    exact weightOf_ne_zero mall_id ad_id (Int32.toInt_inj.mp zero)
  have top : (1 : Rat) ≤ |((weightOf G db mall_id ad_id).toInt : Rat)| := by
    exact_mod_cast Int.one_le_abs nonzero
  have upper : ((counterOf G db mall_id ad_id .show).toInt + 1 : Rat) ≤ 2147483648 := by
    exact_mod_cast (by omega : (counterOf G db mall_id ad_id .show).toInt + 1 ≤ 2147483648)
  have lower : (-2147483648 : Rat) ≤ (counterOf G db mall_id ad_id .show).toInt + 1 := by
    exact_mod_cast (by omega : -2147483648 ≤ (counterOf G db mall_id ad_id .show).toInt + 1)
  calc showWeight G db mall_id ad_id
      ≤ |showWeight G db mall_id ad_id| := le_abs_self _
    _ = |((counterOf G db mall_id ad_id .show).toInt + 1 : Rat)| /
          |((weightOf G db mall_id ad_id).toInt : Rat)| := abs_div _ _
    _ ≤ |((counterOf G db mall_id ad_id .show).toInt + 1 : Rat)| := div_le_self (abs_nonneg _) top
    _ ≤ 2147483648 := abs_le.mpr ⟨lower, upper⟩
    _ < DBL_MAX := by
      unfold DBL_MAX
      exact_mod_cast (by decide +kernel : 2147483648 < 2 ^ 1024 - 2 ^ 971)

/-- What the loop finds among ads that are all valid. -/
theorem tally_argmin {mall_id : Int32} {l : List Int32}
    (valid : ∀ a ∈ l, checkAdValid G db mall_id a = true) (g next_ad_id : Int32) :
    let s := l.foldl (tallyAd G db mall_id g) ⟨0, 0, DBL_MAX, next_ad_id⟩
    let least := l.argmin (showWeight G db mall_id)
    s.min_show_weight = (least.map (showWeight G db mall_id)).getD DBL_MAX ∧
      s.next_ad_id = least.getD next_ad_id := by
  induction l using List.reverseRecOn with
  | nil => exact ⟨rfl, rfl⟩
  | append_singleton l a ih =>
    obtain ⟨weight, next⟩ := ih fun b hb => valid b (List.mem_append_left _ hb)
    have here : checkAdValid G db mall_id a = true := valid a (by simp)
    simp only [List.foldl_append, List.foldl_cons, List.foldl_nil, List.argmin_concat]
    generalize l.foldl (tallyAd G db mall_id g) ⟨0, 0, DBL_MAX, next_ad_id⟩ = s at weight next ⊢
    cases e : l.argmin (showWeight G db mall_id) with
    | none =>
      rw [e] at weight
      have less : showWeight G db mall_id a < s.min_show_weight := by
        rw [weight]
        exact showWeight_lt mall_id a
      simp [tallyAd, here, less]
    | some b =>
      rw [e] at weight next
      by_cases less : showWeight G db mall_id a < showWeight G db mall_id b
      · simp [tallyAd, here, weight, less]
      · simp [tallyAd, here, weight, next, less]

def validAds (G : Globals) (db : Db) (mall_id g : Int32) : List Int32 :=
  (adIdSet G db mall_id g).filter (checkAdValid G db mall_id)

theorem tallyAds_eq (mall_id g next_ad_id : Int32) : tallyAds G db mall_id g next_ad_id =
    (validAds G db mall_id g).foldl (tallyAd G db mall_id g) ⟨0, 0, DBL_MAX, next_ad_id⟩ := by
  have skip : (fun s a => if checkAdValid G db mall_id a then tallyAd G db mall_id g s a else s) =
      tallyAd G db mall_id g := by
    funext s a
    by_cases valid : checkAdValid G db mall_id a = true
    · rw [if_pos valid]
    · simp only [tallyAd, if_neg valid]
  rw [validAds, List.foldl_filter, skip, tallyAds]

/-- A group that bids wants to show the valid ad with the least weight. -/
theorem bidOf_next {mall_id g : Int32} (positive : 0 < (bidOf G db mall_id g).eCPM) :
    (bidOf G db mall_id g).ad ∈ validAds G db mall_id g ∧
      ∀ a ∈ validAds G db mall_id g,
        showWeight G db mall_id (bidOf G db mall_id g).ad ≤ showWeight G db mall_id a := by
  have valid : ∀ a ∈ validAds G db mall_id g, checkAdValid G db mall_id a = true :=
    fun a ha => (List.mem_filter.mp ha).2
  have next : (bidOf G db mall_id g).ad =
      ((validAds G db mall_id g).argmin (showWeight G db mall_id)).getD (-1) := by
    simp only [bidOf, getECPM, tallyAds_eq]
    exact (tally_argmin valid g (-1)).2
  cases e : (validAds G db mall_id g).argmin (showWeight G db mall_id) with
  | none =>
    have empty := List.argmin_eq_none.mp e
    simp [bidOf, getECPM, tallyAds_eq, empty] at positive
  | some a =>
    rw [e] at next
    rw [next]
    exact ⟨List.argmin_mem e, fun b hb => List.le_of_mem_argmin hb e⟩

/-! ## A group that rotates -/

/-- `get_eCPM` reads what `increase_ad_time` has counted, as long as an `int` holds it. -/
theorem counterOf_eq {mall_id ad_id : Int32} {type : ChargeType} {n : Nat}
    (hn : counterAt (db (counterKey mall_id ad_id type).text) = some (n : Int))
    (small : n < 2 ^ 31) : (counterOf G db mall_id ad_id type).toInt = n := by
  have text : get G db .string (counterKey mall_id ad_id type) "0".toList = decimal n := by
    cases e : db (counterKey mall_id ad_id type).text with
    | none =>
      rw [e] at hn
      obtain rfl : n = 0 := by simpa [counterAt] using hn.symm
      exact CBaseMdb.get_none e
    | some v =>
      rw [e] at hn
      cases v with
      | str t =>
        rw [eq_decimal_of_strictInt hn] at e
        exact CBaseMdb.get_decimal e
      | set => cases hn
      | zset => cases hn
      | hash => cases hn
  rw [counterOf, text, atoi_decimal small]

theorem intersectAt_sublist {a : Int32} {as : List Int32} {rest : List Int32 → List Int32}
    (h : ∀ bs, (rest bs).Sublist as) (bs : List Int32) :
    (intersectAt a rest bs).Sublist (a :: as) := by
  induction bs with
  | nil => exact List.nil_sublist _
  | cons b bs ih =>
    unfold intersectAt
    split
    · exact (h _).cons a
    · split
      · exact ih
      · exact (h bs).cons_cons a

theorem setIntersection_sublist (as bs : List Int32) : (setIntersection as bs).Sublist as := by
  induction as generalizing bs with
  | nil => exact List.Sublist.refl []
  | cons a as ih => exact intersectAt_sublist ih bs

theorem adGroupList_sublist (pos : UserPosition) (user_id space_id mall_id : Int32) :
    (adGroupList G db pos user_id space_id mall_id).Sublist
      (getAdGroupSetOfSpace G db mall_id space_id) := by
  unfold adGroupList
  split
  · exact setIntersection_sublist _ _
  · exact List.Sublist.refl _

/-- The valid ads of a group and their weights. No other group has these ads,
and no space lists the group twice. -/
structure Rotates (G : Globals) (db : Db) (mall_id g : Int32) (ads : Finset Int32)
    (weight : Int32 → Nat) : Prop where
  valid : ∀ a, a ∈ ads ↔ a ∈ validAds G db mall_id g
  weight : ∀ a ∈ ads, (weightOf G db mall_id a).toInt = weight a ∧ 0 < weight a
  alone : ∀ g', g' ≠ g → ∀ a ∈ ads, a ∉ adIdSet G db mall_id g'
  once : ∀ space_id, (getAdGroupSetOfSpace G db mall_id space_id).count g ≤ 1

section
variable {mall_id g : Int32} {ads : Finset Int32} {weight : Int32 → Nat} {s : AdState}

theorem winner_bid {pos : UserPosition} {user_id space_id : Int32} {n : Nat} {looks : Nat → Look}
    {b : Bid} (hb : b ∈ winners G db pos user_id space_id mall_id n looks) :
    bidOf G db mall_id b.group = b := by
  obtain ⟨it, -, rfl⟩ := List.mem_map.mp (List.mem_filter.mp (mem_of_mem_best hb)).1
  rfl

/-- A winner shows an ad of the group if and only if it is the group. -/
theorem Rotates.winner_iff (group : Rotates G db mall_id g ads weight) {pos : UserPosition}
    {user_id space_id : Int32} {n : Nat} {looks : Nat → Look} {b : Bid}
    (hb : b ∈ winners G db pos user_id space_id mall_id n looks) {a : Int32} (ha : a ∈ ads) :
    b.ad = a ↔ b.group = g ∧ a = (bidOf G db mall_id g).ad := by
  have own := winner_bid hb
  constructor
  · rintro rfl
    have positive : 0 < (bidOf G db mall_id b.group).eCPM := by
      rw [own]
      exact positive_of_mem_winners hb
    have next := (bidOf_next positive).1
    rw [own] at next
    have here : b.group = g := by
      by_contra other
      exact group.alone b.group other b.ad ha (List.mem_filter.mp next).1
    rw [here] at own
    exact ⟨here, congrArg Bid.ad own.symm⟩
  · rintro ⟨here, rfl⟩
    rw [here] at own
    exact congrArg Bid.ad own.symm

/-- How many entries of an answer name the group. -/
def shownBy (mall_id g : Int32) : Op × Ret → Nat
  | (.request _ _ _ mall_id' _ _, ret) =>
    if mall_id' = mall_id then ret.ad.countP (fun e => e.group_id = g) else 0
  | (.click _ _, _) => 0

def shownFor (mall_id g : Int32) (h : List (Op × Ret)) : Nat := (h.map (shownBy mall_id g)).sum

/-- An answer shows the group at most once, with the ad that it wants to show and
no other. -/
structure Turn (G : Globals) (db : Db) (mall_id g : Int32) (ads : Finset Int32)
    (e : Op × Ret) : Prop where
  counted : ∀ a ∈ ads, countedBy mall_id a .show e =
    if a = (bidOf G db mall_id g).ad then shownBy mall_id g e else 0
  once : shownBy mall_id g e ≤ 1
  bids : shownBy mall_id g e ≠ 0 → 0 < (bidOf G db mall_id g).eCPM

theorem Rotates.winners_once (group : Rotates G db mall_id g ads weight) {pos : UserPosition}
    {user_id space_id : Int32} {n : Nat} {looks : Nat → Look} :
    (winners G db pos user_id space_id mall_id n looks).countP (fun b => b.group = g) ≤ 1 := by
  calc (winners G db pos user_id space_id mall_id n looks).countP (fun b => b.group = g)
      = ((winners G db pos user_id space_id mall_id n looks).map Bid.group).count g := by
        simp [List.count, List.countP_map, Function.comp_def, beq_eq_decide]
    _ ≤ (adGroupList G db pos user_id space_id mall_id).count g := winners_count_le g
    _ ≤ (getAdGroupSetOfSpace G db mall_id space_id).count g :=
        (adGroupList_sublist pos user_id space_id mall_id).count_le g
    _ ≤ 1 := group.once space_id

theorem Rotates.request_turn (group : Rotates G s.db mall_id g ads weight) (mac : UInt64)
    (user_id space_id : Int32) (n : Nat) (looks : Nat → Look) :
    let o := Op.request mac user_id space_id mall_id n looks
    Turn G s.db mall_id g ads (o, (o.run G s).1) := by
  intro o
  let ws := winners G s.db (userQuery G s.db mac mall_id) user_id space_id mall_id n looks
  have entries : (o.run G s).1.ad.map (fun e => (e.group_id, e.id)) =
      ws.map fun b => (b.group, b.ad) :=
    (bidding_does (userQuery G s.db mac mall_id) user_id space_id mall_id n looks s).1
  have shown : shownBy mall_id g (o, (o.run G s).1) = ws.countP fun b => b.group = g := by
    have groups := congrArg (List.countP fun p : Int32 × Int32 => p.1 = g) entries
    simp only [List.countP_map, Function.comp_def] at groups
    rw [← groups]
    exact if_pos rfl
  constructor
  · intro a ha
    have ids := congrArg (List.countP fun p : Int32 × Int32 => p.2 = a) entries
    simp only [List.countP_map, Function.comp_def] at ids
    have counted : countedBy mall_id a .show (o, (o.run G s).1) = ws.countP fun b => b.ad = a := by
      rw [← ids]
      exact if_pos rfl
    have same : ws.countP (fun b => b.ad = a) =
        ws.countP fun b => b.group = g ∧ a = (bidOf G s.db mall_id g).ad :=
      List.countP_congr fun b hb => by simpa using group.winner_iff hb ha
    rw [counted, same, shown]
    by_cases next : a = (bidOf G s.db mall_id g).ad
    · simp [← next]
    · simp [next]
  · rw [shown]
    exact group.winners_once
  · intro some_shown
    rw [shown] at some_shown
    obtain ⟨b, hb, here⟩ := List.countP_pos_iff.mp (Nat.pos_of_ne_zero some_shown)
    have own := winner_bid hb
    rw [of_decide_eq_true here] at own
    rw [own]
    exact positive_of_mem_winners hb

/-- What a call does to the group. -/
theorem Rotates.turn (group : Rotates G s.db mall_id g ads weight) (o : Op) :
    Turn G s.db mall_id g ads (o, (o.run G s).1) := by
  cases o with
  | click ad_id mall_id' =>
    exact ⟨fun a _ => by simp [countedBy, shownBy], Nat.zero_le 1, fun shown => absurd rfl shown⟩
  | request mac user_id space_id mall_id' n looks =>
    by_cases here : mall_id' = mall_id
    · subst here
      exact group.request_turn mac user_id space_id n looks
    · have none : shownBy mall_id g (Op.request mac user_id space_id mall_id' n looks,
          ((Op.request mac user_id space_id mall_id' n looks).run G s).1) = 0 := if_neg here
      constructor
      · intro a _
        rw [none, ite_self]
        exact if_neg here
      · rw [none]
        exact Nat.zero_le 1
      · intro shown
        exact absurd none shown

/-- The ad that the group wants to show may have the next turn. -/
theorem Rotates.next (group : Rotates G db mall_id g ads weight) {turns : Int32 → Nat}
    (counter : ∀ a ∈ ads, counterAt (db (counterKey mall_id a .show).text) = some (turns a : Int))
    (small : ∀ a ∈ ads, turns a < 2 ^ 31) (bids : 0 < (bidOf G db mall_id g).eCPM) :
    (bidOf G db mall_id g).ad ∈ ads ∧ Next ads weight turns (bidOf G db mall_id g).ad := by
  obtain ⟨mem, least⟩ := bidOf_next bids
  generalize (bidOf G db mall_id g).ad = k at mem least ⊢
  have hk : k ∈ ads := (group.valid k).mpr mem
  have ratio {a : Int32} (ha : a ∈ ads) :
      showWeight G db mall_id a = ((turns a + 1 : Nat) : Rat) / (weight a : Rat) := by
    rw [showWeight, counterOf_eq (counter a ha) (small a ha), (group.weight a ha).1]
    simp
  have positive {a : Int32} (ha : a ∈ ads) : (0 : Rat) < weight a := by
    exact_mod_cast (group.weight a ha).2
  refine ⟨hk, fun j hj => ?_⟩
  have le := least j ((group.valid j).mp hj)
  rw [ratio hk, ratio hj, div_le_div_iff₀ (positive hk) (positive hj)] at le
  exact_mod_cast le

/-! ## Any calls -/

/-- The calls so far with their answers. In between anything may change but the
show counters of the ads; at each call the group is as it was. -/
inductive Turns (mall_id g : Int32) (ads : Finset Int32) (weight : Int32 → Nat) (s0 : AdState) :
    List (Op × Ret) → AdState → Prop
  | start : Turns mall_id g ads weight s0 [] s0
  | call {h : List (Op × Ret)} {s : AdState} (before : Turns mall_id g ads weight s0 h s)
      (G : Globals) (group : Rotates G s.db mall_id g ads weight) (o : Op) :
      Turns mall_id g ads weight s0 (h ++ [(o, (o.run G s).1)]) (o.run G s).2
  | change {h : List (Op × Ret)} {s : AdState} (before : Turns mall_id g ads weight s0 h s)
      (s' : AdState) (same : ∀ a ∈ ads, s'.db (counterKey mall_id a .show).text =
        s.db (counterKey mall_id a .show).text) : Turns mall_id g ads weight s0 h s'

/-- What the calls keep. -/
structure Even (mall_id g : Int32) (ads : Finset Int32) (weight : Int32 → Nat)
    (h : List (Op × Ret)) (s : AdState) : Prop where
  counter : ∀ a ∈ ads, counterAt (s.db (counterKey mall_id a .show).text) =
    some (counted mall_id a .show h : Int)
  fair : Fair ads weight fun a => counted mall_id a .show h
  total : ∑ a ∈ ads, counted mall_id a .show h = shownFor mall_id g h

theorem counted_concat (mall_id a : Int32) (type : ChargeType) (h : List (Op × Ret))
    (e : Op × Ret) :
    counted mall_id a type (h ++ [e]) = counted mall_id a type h + countedBy mall_id a type e := by
  simp [counted]

theorem shownFor_concat (mall_id g : Int32) (h : List (Op × Ret)) (e : Op × Ret) :
    shownFor mall_id g (h ++ [e]) = shownFor mall_id g h + shownBy mall_id g e := by
  simp [shownFor]

theorem Even.call {h : List (Op × Ret)} (even : Even mall_id g ads weight h s)
    (group : Rotates G s.db mall_id g ads weight) (o : Op)
    (small : ∀ a ∈ ads, counted mall_id a .show (h ++ [(o, (o.run G s).1)]) < 2 ^ 31) :
    Even mall_id g ads weight (h ++ [(o, (o.run G s).1)]) (o.run G s).2 := by
  obtain ⟨count, once, bids⟩ := group.turn o
  have step := (o.step (G := G) s).counter
  generalize (o, (o.run G s).1) = e at small count once bids step ⊢
  have grown : ∀ a ∈ ads, counted mall_id a .show (h ++ [e]) = counted mall_id a .show h +
      if a = (bidOf G s.db mall_id g).ad then shownBy mall_id g e else 0 := by
    intro a ha
    rw [counted_concat, count a ha]
  constructor
  · intro a ha
    have room := CBaseMdb.int_le_counterMax G.type
    have fits := small a ha
    rw [counted_concat] at fits ⊢
    exact step mall_id a .show _ (even.counter a ha) (by omega)
  · by_cases shown : shownBy mall_id g e = 0
    · exact even.fair.congr fun a ha => by rw [grown a ha, shown, ite_self, Nat.add_zero]
    · have one : shownBy mall_id g e = 1 := by omega
      have before : ∀ a ∈ ads, counted mall_id a .show h < 2 ^ 31 := by
        intro a ha
        have after := small a ha
        rw [counted_concat] at after
        omega
      obtain ⟨-, next⟩ := group.next even.counter before (bids shown)
      refine (even.fair.turn next).congr fun a ha => ?_
      rw [grown a ha, one]
      by_cases here : a = (bidOf G s.db mall_id g).ad
      · rw [if_pos here, ← here, Function.update_self]
      · rw [if_neg here, Function.update_of_ne here, Nat.add_zero]
  · rw [Finset.sum_congr rfl grown, Finset.sum_add_distrib, even.total, shownFor_concat,
      Finset.sum_ite_eq']
    by_cases shown : shownBy mall_id g e = 0
    · rw [shown, ite_self]
    · have mem : (bidOf G s.db mall_id g).ad ∈ ads :=
        (group.valid _).mpr (bidOf_next (bids shown)).1
      rw [if_pos mem]

theorem Turns.even {s0 : AdState} {h : List (Op × Ret)}
    (zero : ∀ a ∈ ads, counterAt (s0.db (counterKey mall_id a .show).text) = some 0)
    (run : Turns mall_id g ads weight s0 h s)
    (small : ∀ a ∈ ads, counted mall_id a .show h < 2 ^ 31) : Even mall_id g ads weight h s := by
  induction run with
  | start => exact ⟨zero, fair_zero, by simp [counted, shownFor]⟩
  | call before G group o ih =>
    refine Even.call (ih fun a ha => ?_) group o small
    have after := small a ha
    rw [counted_concat] at after
    omega
  | change before s' same ih =>
    obtain ⟨counter, fair, total⟩ := ih small
    exact ⟨fun a ha => by rw [same a ha, counter a ha], fair, total⟩

end

/-! ## Two ads -/

theorem Rotates.of_onlyCounters {mall_id g : Int32} {ads : Finset Int32} {weight : Int32 → Nat}
    {db' : Db} (group : Rotates G db mall_id g ads weight) (same : OnlyCounters db db') :
    Rotates G db' mall_id g ads weight := by
  have ids (g' : Int32) : adIdSet G db' mall_id g' = adIdSet G db mall_id g' :=
    CBaseMdb.smembers_congr (same _ rfl)
  have valid : checkAdValid G db' mall_id = checkAdValid G db mall_id := by
    funext a
    have flag : get G db' .int (.ad mall_id.toInt a.toInt .valid) (1 : Int32) =
        get G db .int (.ad mall_id.toInt a.toInt .valid) (1 : Int32) := get_onlyCounters same rfl
    simp only [checkAdValid, flag]
  constructor
  · intro a
    rw [validAds, ids, valid]
    exact group.valid a
  · intro a ha
    have stored : get G db' .int (.ad mall_id.toInt a.toInt .weight) (0 : Int32) =
        get G db .int (.ad mall_id.toInt a.toInt .weight) (0 : Int32) := get_onlyCounters same rfl
    rw [weightOf, stored]
    exact group.weight a ha
  · intro g' other a ha
    rw [ids]
    exact group.alone g' other a ha
  · intro space_id
    have listed : getAdGroupSetOfSpace G db' mall_id space_id =
        getAdGroupSetOfSpace G db mall_id space_id := CBaseMdb.zmembers_congr (same _ rfl)
    rw [listed]
    exact group.once space_id

/-- Sets are listed in the order of their members, sorted by insertion. -/
def inOrder (s : Finset Text) : List Text :=
  Quot.liftOn s.val (List.insertionSort (· ≤ ·)) fun a b same =>
    ((List.perm_insertionSort _ a).trans (same.trans (List.perm_insertionSort _ b).symm)).eq_of_pairwise'
      (List.pairwise_insertionSort _ a) (List.pairwise_insertionSort _ b)

theorem coe_inOrder (s : Finset Text) : (inOrder s : Multiset Text) = s.val := by
  obtain ⟨l, -⟩ := s
  induction l using Quot.inductionOn with
  | _ l => exact Quot.sound (List.perm_insertionSort _ l)

def orderedGlobals : Globals :=
  { plainGlobals with
    m := {
      Machine.plain with
      listing := fun _ => inOrder
      listing_nodup := fun _ s => by
        rw [← Multiset.coe_nodup, coe_inOrder]
        exact s.nodup
      mem_listing := fun _ s x => by
        rw [← Multiset.mem_coe, coe_inOrder]
        exact Iff.rfl } }

/-- The group 4 has the ads 1 and 2; the second has twice the weight. -/
def twoAdsEntries : List (Key × Val) :=
  [(.adSpace 3 28, .zset ((∅ : AList fun _ : Text => Rat).insert "4".toList 4)),
    (.adGroup 3 4 .adSet, .set {"1".toList, "2".toList}),
    (.adGroup 3 4 (.price .click), .str "1".toList),
    (.ad 3 2 .weight, .str "2".toList)]

def twoAds : AdState := ⟨storeOf twoAdsEntries, []⟩

def twoWeights (a : Int32) : Nat := if a = 2 then 2 else 1

theorem forall_two {p : Int32 → Prop} (one : p 1) (two : p 2) : ∀ a ∈ ({1, 2} : Finset Int32), p a := by
  intro a ha
  have one_or_two : a = 1 ∨ a = 2 := by simpa using ha
  obtain rfl | rfl := one_or_two
  · exact one
  · exact two

theorem twoAds_rotates : Rotates orderedGlobals twoAds.db 3 4 {1, 2} twoWeights := by
  constructor
  · intro a
    have listed : validAds orderedGlobals twoAds.db 3 4 = [1, 2] := by decide +kernel
    rw [listed]
    simp
  · exact forall_two (by decide +kernel) (by decide +kernel)
  · intro g' other a _
    have none : twoAds.db (Key.adGroup (3 : Int32).toInt g'.toInt .adSet).text = none := by
      apply storeOf_eq_none
      intro e he same
      simp only [twoAdsEntries, List.mem_cons, List.not_mem_nil, or_false] at he
      obtain rfl | rfl | rfl | rfl := he
      · cases same
      · exact other (Int32.toInt_inj.mp (Key.adGroup.inj same).2.1.symm)
      · cases (Key.adGroup.inj same).2.2
      · cases same
    rw [adIdSet, smembers, CBaseMdb.smembers_none none]
    exact List.not_mem_nil
  · intro space_id
    by_cases here : space_id = 28
    · subst here
      decide +kernel
    · have none : twoAds.db (Key.adSpace (3 : Int32).toInt space_id.toInt).text = none := by
        apply storeOf_eq_none
        intro e he same
        simp only [twoAdsEntries, List.mem_cons, List.not_mem_nil, or_false] at he
        obtain rfl | rfl | rfl | rfl := he
        · exact here (Int32.toInt_inj.mp (Key.adSpace.inj same).2.symm)
        · cases same
        · cases same
        · cases same
      rw [getAdGroupSetOfSpace, zmembers, CBaseMdb.zmembers_none none]
      exact Nat.zero_le 1

/-! ## The rotation is fair -/

section
variable {mall_id g : Int32} {ads : Finset Int32} {weight : Int32 → Nat} {s : AdState}

/-- A group of ads that no other group has, whose counters start at zero and stay
below 2^31, shows them in turn: crosswise, no ad is a whole show ahead of another,
and no ad is more than one show short of its share by weight. -/
theorem ads_rotate_fairly {s0 : AdState} {h : List (Op × Ret)}
    (zero : ∀ a ∈ ads, counterAt (s0.db (counterKey mall_id a .show).text) = some 0)
    (run : Turns mall_id g ads weight s0 h s)
    (small : ∀ a ∈ ads, counted mall_id a .show h < 2 ^ 31) :
    (∀ G, ∀ i ∈ ads, (counterOf G s.db mall_id i .show).toInt = counted mall_id i .show h) ∧
    (∀ i ∈ ads, ∀ j ∈ ads, counted mall_id i .show h * weight j ≤
      (counted mall_id j .show h + 1) * weight i) ∧
    ∀ i ∈ ads, (shownFor mall_id g h : Rat) * weight i / ((∑ j ∈ ads, weight j : Nat) : Rat) - 1 ≤
      (counted mall_id i .show h : Rat) := by
  have even := run.even zero small
  refine ⟨fun G i hi => counterOf_eq (even.counter i hi) (small i hi), even.fair, fun i hi => ?_⟩
  have share := even.fair.share hi
  rw [even.total] at share
  have crosswise : (shownFor mall_id g h : Rat) * weight i ≤
      (counted mall_id i .show h + 1) * ((∑ j ∈ ads, weight j : Nat) : Rat) := by
    exact_mod_cast share
  rw [sub_le_iff_le_add]
  exact div_le_of_le_mul₀ (Nat.cast_nonneg _) (by exact_mod_cast Nat.zero_le _) crosswise

end

/-- Two requests show both ads, the heavier one first. -/
theorem ads_rotate_fairly_two : ∃ h s, Turns 3 4 {1, 2} twoWeights twoAds h s ∧
    shownFor 3 4 h = 2 ∧ counted 3 1 .show h * 2 ≤ (counted 3 2 .show h + 1) * 1 ∧
    (counterOf orderedGlobals s.db 3 2 .show).toInt = 1 := by
  let r1 := oneRequest.run orderedGlobals twoAds
  let r2 := oneRequest.run orderedGlobals r1.2
  have first : Turns 3 4 {1, 2} twoWeights twoAds [(oneRequest, r1.1)] r1.2 :=
    Turns.start.call orderedGlobals twoAds_rotates oneRequest
  have second : Turns 3 4 {1, 2} twoWeights twoAds [(oneRequest, r1.1), (oneRequest, r2.1)] r2.2 :=
    first.call orderedGlobals (twoAds_rotates.of_onlyCounters (oneRequest.step twoAds).only)
      oneRequest
  have counts : counted 3 1 .show [(oneRequest, r1.1), (oneRequest, r2.1)] = 1 ∧
      counted 3 2 .show [(oneRequest, r1.1), (oneRequest, r2.1)] = 1 := by decide +kernel
  have zero : ∀ a ∈ ({1, 2} : Finset Int32),
      counterAt (twoAds.db (counterKey 3 a .show).text) = some 0 :=
    forall_two (by decide +kernel) (by decide +kernel)
  have small : ∀ a ∈ ({1, 2} : Finset Int32),
      counted 3 a .show [(oneRequest, r1.1), (oneRequest, r2.1)] < 2 ^ 31 :=
    forall_two (by decide +kernel) (by decide +kernel)
  obtain ⟨read, fair, -⟩ := ads_rotate_fairly zero second small
  refine ⟨_, r2.2, second, by decide +kernel, ?_, ?_⟩
  · exact fair 1 (by simp) 2 (by simp)
  · rw [read orderedGlobals 2 (by simp), counts.2]
    rfl

end AdMap

end SimpleDsp
