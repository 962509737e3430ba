import SimpleDsp.AdMap.Bidding
import SimpleDsp.Lib.Ranking

/-!
# Who wins the auction

* `insert_bid`: the three arrays are one row of bids, and the inner loop is the
  step of a row that keeps the best;
* `bidding_shows`: `bidding` shows the winners, one after the other;
* `bidding_ranked`: the answer names the best `n` of the positive bids.
-/

namespace SimpleDsp

open DecimalText Ranking

namespace AdMap

variable (G : Globals) (db : Db)

/-! ## The bids -/

/-- The candidates that pass every filter, in the order of the candidates. -/
def passing (pos : UserPosition) (user_id space_id mall_id : Int32) (looks : Nat → Look) :
    List Int32 :=
  ((adGroupList G db pos user_id space_id mall_id).zipIdx.filter
    (passesIn G db user_id mall_id looks)).map Prod.fst

def bidOf (mall_id it : Int32) : Bid :=
  let e := getECPM G db mall_id it (-1)
  ⟨it, e.1, e.2⟩

/-- The first `n` of the positive bids, sorted by eCPM with the highest first;
equal bids stay in the order of the candidates. -/
def winners (pos : UserPosition) (user_id space_id mall_id : Int32) (n : Nat)
    (looks : Nat → Look) : List Bid :=
  best Bid.eCPM n
    (((passing G db pos user_id space_id mall_id looks).map (bidOf G db mall_id)).filter
      fun b => (0 : Rat) < b.eCPM)

variable {G db}

/-! ## The arrays -/

section
variable {n : Nat}

def noBid : Bid := ⟨0, 0, 0⟩

theorem bid_set (lists : Highest n) (j : Fin n) (it : Int32) (eCPM : Rat) (next_ad_id : Int32) :
    (lists.set j it eCPM next_ad_id).bid =
      Function.update lists.bid j ⟨it, eCPM, next_ad_id⟩ := by
  funext i
  by_cases here : i = j
  · subst here
    simp [Highest.bid, Highest.set]
  · simp [Highest.bid, Highest.set, here]

theorem insert_bid (it : Int32) (eCPM : Rat) (next_ad_id : Int32) {j : Nat} (hj : j ≤ n)
    (lists : Highest n) : (lists.insert it eCPM next_ad_id j hj).bid =
      shift Bid.eCPM ⟨it, eCPM, next_ad_id⟩ j hj lists.bid := by
  induction j generalizing lists with
  | zero => rfl
  | succ j ih =>
    have here : (lists.bid ⟨j, hj⟩).eCPM = lists.highest_eCPM_list ⟨j, hj⟩ := rfl
    rw [Highest.insert, shift, here]
    split
    · rw [ih, bid_set]
      by_cases room : j + 1 < n
      · simp only [room, ↓reduceDIte, bid_set]
        rfl
      · simp only [room, ↓reduceDIte]
    · rfl

theorem foldl_bidFor {user_id mall_id : Int32} {looks : Nat → Look} (l : List (Int32 × Nat))
    (lists : Highest n) : (l.foldl (bidFor G db user_id mall_id looks) lists).bid =
      (((l.filter (passesIn G db user_id mall_id looks)).map Prod.fst).map
        (bidOf G db mall_id)).foldl (fun c x => shift Bid.eCPM x n (Nat.le_refl n) c) lists.bid := by
  induction l generalizing lists with
  | nil => rfl
  | cons p l ih =>
    rw [List.foldl_cons, ih]
    by_cases pass : passesIn G db user_id mall_id looks p = true
    · rw [List.filter_cons_of_pos pass, bidFor, if_pos pass, insert_bid]
      rfl
    · rw [List.filter_cons_of_neg pass, bidFor, if_neg pass]

end

/-! ## The answer -/

theorem showBids_eq (mall_id : Int32) (row : List Bid) (a : Ret × AdState) :
    showBids G mall_id row a =
      ((row.takeWhile fun b => b.eCPM ≠ 0).length,
        (row.takeWhile fun b => b.eCPM ≠ 0).foldl (fun a b => showBid G mall_id b a) a) := by
  induction row generalizing a with
  | nil => rfl
  | cons b row ih =>
    by_cases empty : b.eCPM = 0
    · simp [showBids, empty]
    · simp [showBids, empty, ih]

theorem positive_of_mem_winners {pos : UserPosition} {user_id space_id mall_id : Int32} {n : Nat}
    {looks : Nat → Look} {b : Bid} (h : b ∈ winners G db pos user_id space_id mall_id n looks) :
    0 < b.eCPM := by
  have passed := (List.mem_filter.mp (mem_of_mem_best h)).2
  simpa using passed

/-- `bidding` shows the winners one after the other. -/
theorem bidding_shows (pos : UserPosition) (user_id space_id mall_id : Int32) (n : Nat)
    (looks : Nat → Look) (a : Ret × AdState) :
    let ws := winners G a.2.db pos user_id space_id mall_id n looks
    let shown := ws.foldl (fun a b => showBid G mall_id b a) a
    bidding G pos user_id space_id mall_id n looks a =
      ({ shown.1 with
          result := some (if ws ≠ [] then "ok".toList else "no valid ad".toList) }, shown.2) := by
  intro ws shown
  have holds : Holds noBid _ ws := holds_fill n noBid _
  have row : (List.ofFn ((adGroupList G a.2.db pos user_id space_id mall_id).zipIdx.foldl
      (bidFor G a.2.db user_id mall_id looks) (Highest.zero n)).bid).takeWhile
        (fun b => b.eCPM ≠ 0) = ws := by
    rw [foldl_bidFor]
    apply holds.takeWhile
    · intro b hb
      have positive : 0 < b.eCPM := positive_of_mem_winners hb
      simpa using ne_of_gt positive
    · simp [noBid]
  have nonempty : ws.length ≠ 0 ↔ ws ≠ [] := by simp
  simp only [bidding, showBids_eq, row, nonempty]
  rfl

theorem foldl_showBid_ad (mall_id : Int32) (bs : List Bid) (a : Ret × AdState) :
    (bs.foldl (fun a b => showBid G mall_id b a) a).1.ad.map (fun e => (e.group_id, e.id)) =
      a.1.ad.map (fun e => (e.group_id, e.id)) ++ bs.map fun b => (b.group, b.ad) := by
  induction bs generalizing a with
  | nil => simp
  | cons b bs ih =>
    rw [List.foldl_cons, ih]
    simp [showBid, getAd]

/-- No group wins more often than it is a candidate. -/
theorem winners_count_le {pos : UserPosition} {user_id space_id mall_id : Int32} {n : Nat}
    {looks : Nat → Look} (g : Int32) :
    ((winners G db pos user_id space_id mall_id n looks).map Bid.group).count g ≤
      (adGroupList G db pos user_id space_id mall_id).count g := by
  let bids := (passing G db pos user_id space_id mall_id looks).map (bidOf G db mall_id)
  have first : ((winners G db pos user_id space_id mall_id n looks).map Bid.group).count g ≤
      (bids.map Bid.group).count g := by
    have sub : (winners G db pos user_id space_id mall_id n looks).Sublist
        (rank Bid.eCPM (bids.filter fun b => (0 : Rat) < b.eCPM)) := List.take_sublist _ _
    have perm : (rank Bid.eCPM (bids.filter fun b => (0 : Rat) < b.eCPM)).Perm
        (bids.filter fun b => (0 : Rat) < b.eCPM) := List.perm_insertionSort _ _
    calc _ ≤ ((rank Bid.eCPM (bids.filter fun b => (0 : Rat) < b.eCPM)).map Bid.group).count g :=
          (sub.map Bid.group).count_le g
      _ = ((bids.filter fun b => (0 : Rat) < b.eCPM).map Bid.group).count g :=
          (perm.map Bid.group).count_eq g
      _ ≤ (bids.map Bid.group).count g := ((List.filter_sublist ..).map Bid.group).count_le g
  have groups : bids.map Bid.group = passing G db pos user_id space_id mall_id looks := by
    simp [bids, bidOf, Function.comp_def]
  have second : (passing G db pos user_id space_id mall_id looks).count g ≤
      (adGroupList G db pos user_id space_id mall_id).count g := by
    have sub := (List.filter_sublist (p := passesIn G db user_id mall_id looks)
      (l := (adGroupList G db pos user_id space_id mall_id).zipIdx)).map Prod.fst
    rw [List.zipIdx_map_fst] at sub
    exact sub.count_le g
  rw [groups] at first
  exact Nat.le_trans first second

/-- The answer of `bidding` names the first `n` of the positive bids sorted by
eCPM, each with the ad that `get_eCPM` chose for it. No group is named more often
than it is a candidate, and the result is `ok` if any is named. -/
theorem bidding_ranked (pos : UserPosition) (user_id space_id mall_id : Int32) (n : Nat)
    (looks : Nat → Look) (s : AdState) :
    let ret := (bidding G pos user_id space_id mall_id n looks (Ret.empty, s)).1
    let bids := (passing G s.db pos user_id space_id mall_id looks).map (bidOf G s.db mall_id)
    let ranked := (bids.filter fun b => (0 : Rat) < b.eCPM).insertionSort
      fun b c => c.eCPM ≤ b.eCPM
    ret.ad.map (fun e => (e.group_id, e.id)) =
      (ranked.take n).map (fun b => (b.group, b.ad)) ∧
    (∀ g, (ret.ad.map AdNode.group_id).count g ≤
      (adGroupList G s.db pos user_id space_id mall_id).count g) ∧
    (ret.result = some "ok".toList ↔ ret.ad ≠ []) ∧
    (ret.result = some "no valid ad".toList ↔ ret.ad = []) := by
  intro ret bids ranked
  let ws := winners G s.db pos user_id space_id mall_id n looks
  have shown : ret = { (ws.foldl (fun a b => showBid G mall_id b a) (Ret.empty, s)).1 with
      result := some (if ws ≠ [] then "ok".toList else "no valid ad".toList) } :=
    congrArg Prod.fst (bidding_shows pos user_id space_id mall_id n looks (Ret.empty, s))
  have ads : ret.ad.map (fun e => (e.group_id, e.id)) = ws.map fun b => (b.group, b.ad) := by
    rw [shown]
    simpa [Ret.empty] using foldl_showBid_ad (G := G) mall_id ws (Ret.empty, s)
  have groups : ret.ad.map AdNode.group_id = ws.map Bid.group := by
    simpa [Function.comp_def] using congrArg (List.map Prod.fst) ads
  have none_named : ret.ad = [] ↔ ws = [] := by
    rw [← List.map_eq_nil_iff (f := AdNode.group_id), groups, List.map_eq_nil_iff]
  have result : ret.result = some (if ws ≠ [] then "ok".toList else "no valid ad".toList) := by
    rw [shown]
  refine ⟨ads, fun g => ?_, ?_, ?_⟩
  · rw [groups]
    exact winners_count_le g
  · by_cases empty : ws = []
    · simp [result, none_named, empty]
    · simp [result, none_named, empty]
  · by_cases empty : ws = []
    · simp [result, none_named, empty]
    · simp [result, none_named, empty]

end AdMap

end SimpleDsp
