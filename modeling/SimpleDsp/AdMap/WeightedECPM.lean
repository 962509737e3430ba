import SimpleDsp.AdMap.Rotation
import SimpleDsp.Lib.WeightedMean

/-!
# The eCPM of a group

`get_eCPM` is the weighted mean over the valid ads, and chooses the first ad with
the least `show_weight`.

* `tally_sums`: the two accumulators;
* `ecpm_weighted_mean`: the closed form, its bounds, and the choice.
-/

namespace SimpleDsp

open DecimalText Rotation WeightedMean

namespace AdMap

section
variable (G : Globals) (db : Db) (mall_id g : Int32)

/-- Clicks for each show, once there are enough shows to tell. -/
def clickRate (ad_id : Int32) : Rat :=
  if (counterOf G db mall_id ad_id .show).toInt < 100 then 5 / 100
  else ((counterOf G db mall_id ad_id .click).toInt : Rat) /
    ((counterOf G db mall_id ad_id .show).toInt : Rat)

/-- What a thousand shows of an ad bring. -/
def thousandShows (ad_id : Int32) : Rat :=
  1000 * priceOf G db mall_id g .show +
    1000 * priceOf G db mall_id g .click * clickRate G db mall_id ad_id

def weightIn (ad_id : Int32) : Int := (weightOf G db mall_id ad_id).toInt

def totalWeight : Int := ((validAds G db mall_id g).map (weightIn G db mall_id)).sum

def totalECPM : Rat :=
  ((validAds G db mall_id g).map fun a =>
    (weightIn G db mall_id a : Rat) * thousandShows G db mall_id g a).sum

/-- The earliest of the items with the least key. -/
structure FirstLeast {A : Type} [DecidableEq A] (key : A → Rat) (l : List A) (a : A) : Prop where
  mem : a ∈ l
  least : ∀ b ∈ l, key a ≤ key b
  first : ∀ b ∈ l, key b ≤ key a → l.idxOf a ≤ l.idxOf b

structure MeanECPM : Prop where
  value : ∀ next_ad_id, (getECPM G db mall_id g next_ad_id).1 =
    if totalWeight G db mall_id g = 0 then 0
    else totalECPM G db mall_id g / (totalWeight G db mall_id g : Rat)
  /-- No division is by zero. -/
  divisors : ∀ a, weightIn G db mall_id a ≠ 0 ∧
    (¬(counterOf G db mall_id a .show).toInt < 100 → (counterOf G db mall_id a .show).toInt ≠ 0)
  order : ∀ o o' next_ad_id, (getECPM (G.listedBy o) db mall_id g next_ad_id).1 =
    (getECPM (G.listedBy o') db mall_id g next_ad_id).1
  between : validAds G db mall_id g ≠ [] →
    (∀ a ∈ validAds G db mall_id g, 0 ≤ weightIn G db mall_id a) → ∀ next_ad_id,
    (∃ lo ∈ validAds G db mall_id g,
      (∀ a ∈ validAds G db mall_id g, thousandShows G db mall_id g lo ≤ thousandShows G db mall_id g a) ∧
      thousandShows G db mall_id g lo ≤ (getECPM G db mall_id g next_ad_id).1) ∧
    ∃ hi ∈ validAds G db mall_id g,
      (∀ a ∈ validAds G db mall_id g, thousandShows G db mall_id g a ≤ thousandShows G db mall_id g hi) ∧
      (getECPM G db mall_id g next_ad_id).1 ≤ thousandShows G db mall_id g hi
  unchanged : (∀ next_ad_id, (getECPM G db mall_id g next_ad_id).2 = next_ad_id) ↔
    validAds G db mall_id g = []
  next : validAds G db mall_id g ≠ [] → ∀ next_ad_id,
    FirstLeast (showWeight G db mall_id) (validAds G db mall_id g)
      (getECPM G db mall_id g next_ad_id).2

end

section
variable {G : Globals} {db : Db} {mall_id g : Int32}

/-! ## The accumulators -/

theorem adECPM_eq (ad_id : Int32) :
    adECPM G db mall_id g ad_id = thousandShows G db mall_id g ad_id := by
  have few : counterOf G db mall_id ad_id .show < NEW_AD_MIN_SHOW_COUNT ↔
      (counterOf G db mall_id ad_id .show).toInt < 100 := Int32.lt_iff_toInt_lt
  simp only [adECPM, thousandShows, clickRate, few, NEW_AD_CTR]
  split
  · rfl
  · rw [mul_div_assoc]

theorem tally_sums {l : List Int32} (valid : ∀ a ∈ l, checkAdValid G db mall_id a = true)
    (g next_ad_id : Int32) :
    let s := l.foldl (tallyAd G db mall_id g) ⟨0, 0, DBL_MAX, next_ad_id⟩
    s.sum_weight = Int32.ofInt (l.map (weightIn G db mall_id)).sum ∧
      s.sum_eCPM = (l.map fun a =>
        (weightIn G db mall_id a : Rat) * thousandShows G db mall_id g a).sum := by
  induction l using List.reverseRecOn with
  | nil => exact ⟨rfl, rfl⟩
  | append_singleton l a ih =>
    obtain ⟨weight, eCPM⟩ := ih fun b hb => valid b (List.mem_append_left _ hb)
    have here : checkAdValid G db mall_id a = true := valid a (by simp)
    simp only [List.foldl_append, List.foldl_cons, List.foldl_nil, List.map_append,
      List.map_singleton, List.sum_append, List.sum_singleton, Int32.ofInt_add]
    generalize l.foldl (tallyAd G db mall_id g) ⟨0, 0, DBL_MAX, next_ad_id⟩ = s at weight eCPM ⊢
    simp only [tallyAd, if_pos here, weight, eCPM, adECPM_eq, weightIn, Int32.ofInt_toInt]
    constructor
    · trivial
    · rw [mul_comm (thousandShows G db mall_id g a)]

/-- Sums of weights do not overflow. -/
def WeightsFit (total : Int) : Prop := -2 ^ 31 ≤ total ∧ total < 2 ^ 31

theorem getECPM_value (fits : WeightsFit (totalWeight G db mall_id g)) (next_ad_id : Int32) :
    (getECPM G db mall_id g next_ad_id).1 = if totalWeight G db mall_id g = 0 then 0
      else totalECPM G db mall_id g / (totalWeight G db mall_id g : Rat) := by
  have valid : ∀ a ∈ validAds G db mall_id g, checkAdValid G db mall_id a = true :=
    fun a ha => (List.mem_filter.mp ha).2
  obtain ⟨weight, eCPM⟩ := tally_sums valid g next_ad_id
  have sum : (Int32.ofInt (totalWeight G db mall_id g)).toInt = totalWeight G db mall_id g :=
    Int32.toInt_ofInt_of_le fits.1 fits.2
  have zero : Int32.ofInt (totalWeight G db mall_id g) = 0 ↔ totalWeight G db mall_id g = 0 := by
    rw [← Int32.toInt_inj, sum]
    rfl
  simp only [getECPM, tallyAds_eq, weight, eCPM]
  change (if Int32.ofInt (totalWeight G db mall_id g) = 0 then (0 : Rat)
    else totalECPM G db mall_id g / ((Int32.ofInt (totalWeight G db mall_id g)).toInt : Rat)) = _
  rw [sum]
  simp only [zero]

/-- A sum of no weights is zero, and so is the mean. -/
theorem getECPM_mean (fits : WeightsFit (totalWeight G db mall_id g)) (next_ad_id : Int32) :
    (getECPM G db mall_id g next_ad_id).1 =
      mean (fun a => (weightIn G db mall_id a : Rat)) (thousandShows G db mall_id g)
        (validAds G db mall_id g) := by
  have total : ((validAds G db mall_id g).map fun a => (weightIn G db mall_id a : Rat)).sum =
      (totalWeight G db mall_id g : Rat) := by
    rw [totalWeight, Int.cast_list_sum, List.map_map]
    rfl
  rw [getECPM_value fits, mean, total]
  split
  · rename_i zero
    rw [zero, Int.cast_zero, div_zero]
  · rfl

/-! ## Orders -/

/-- Only sets have an order. -/
theorem get_listedBy (o : Order) (τ : Ty) (k : Key) (d : τ.Val) :
    get (G.listedBy o) db τ k d = get G db τ k d := by
  simp only [get, CBaseMdb.get, Globals.listedBy]
  cases G.type with
  | redis => rfl
  | tair => rfl

theorem weightIn_listedBy (o : Order) :
    weightIn (G.listedBy o) db mall_id = weightIn G db mall_id := by
  funext a
  simp only [weightIn, weightOf, get_listedBy]

theorem counterOf_listedBy (o : Order) (ad_id : Int32) (type : ChargeType) :
    counterOf (G.listedBy o) db mall_id ad_id type = counterOf G db mall_id ad_id type := by
  rw [counterOf, get_listedBy, counterOf]

theorem priceOf_listedBy (o : Order) (type : ChargeType) :
    priceOf (G.listedBy o) db mall_id g type = priceOf G db mall_id g type := by
  rw [priceOf, get_listedBy, priceOf]

theorem thousandShows_listedBy (o : Order) :
    thousandShows (G.listedBy o) db mall_id g = thousandShows G db mall_id g := by
  funext a
  unfold thousandShows clickRate
  rw [priceOf_listedBy, priceOf_listedBy, counterOf_listedBy, counterOf_listedBy]

theorem checkAdValid_listedBy (o : Order) :
    checkAdValid (G.listedBy o) db mall_id = checkAdValid G db mall_id := by
  funext a
  simp only [checkAdValid, get_listedBy]

theorem validAds_perm (o o' : Order) : (validAds (G.listedBy o) db mall_id g).Perm
    (validAds (G.listedBy o') db mall_id g) := by
  rw [validAds, validAds, checkAdValid_listedBy, checkAdValid_listedBy]
  exact (smembers_perm G.m o o').filter _

theorem totalWeight_listedBy (o : Order) :
    totalWeight (G.listedBy o) db mall_id g = totalWeight G db mall_id g := by
  have own : (validAds (G.listedBy o) db mall_id g).Perm (validAds G db mall_id g) :=
    validAds_perm o ⟨G.m.listing, G.m.listing_nodup, G.m.mem_listing⟩
  rw [totalWeight, weightIn_listedBy]
  exact (own.map _).sum_eq

theorem order_irrelevant (fits : WeightsFit (totalWeight G db mall_id g)) (o o' : Order)
    (next_ad_id : Int32) : (getECPM (G.listedBy o) db mall_id g next_ad_id).1 =
      (getECPM (G.listedBy o') db mall_id g next_ad_id).1 := by
  rw [getECPM_mean (by rwa [totalWeight_listedBy]), getECPM_mean (by rwa [totalWeight_listedBy]),
    weightIn_listedBy, weightIn_listedBy, thousandShows_listedBy, thousandShows_listedBy]
  exact mean_perm (validAds_perm o o')

/-! ## The choice -/

theorem getECPM_next (next_ad_id : Int32) : (getECPM G db mall_id g next_ad_id).2 =
    ((validAds G db mall_id g).argmin (showWeight G db mall_id)).getD next_ad_id := by
  have valid : ∀ a ∈ validAds G db mall_id g, checkAdValid G db mall_id a = true :=
    fun a ha => (List.mem_filter.mp ha).2
  simp only [getECPM, tallyAds_eq]
  exact (tally_argmin valid g next_ad_id).2

theorem firstLeast_next (some : validAds G db mall_id g ≠ []) (next_ad_id : Int32) :
    FirstLeast (showWeight G db mall_id) (validAds G db mall_id g)
      (getECPM G db mall_id g next_ad_id).2 := by
  rw [getECPM_next]
  cases e : (validAds G db mall_id g).argmin (showWeight G db mall_id) with
  | none => exact absurd (List.argmin_eq_none.mp e) some
  | some a =>
    obtain ⟨mem, least, first⟩ := List.mem_argmin_iff.mp e
    exact ⟨mem, least, first⟩

theorem unchanged_iff : (∀ next_ad_id, (getECPM G db mall_id g next_ad_id).2 = next_ad_id) ↔
    validAds G db mall_id g = [] := by
  constructor
  · intro unchanged
    by_contra some
    cases e : (validAds G db mall_id g).argmin (showWeight G db mall_id) with
    | none => exact some (List.argmin_eq_none.mp e)
    | some a =>
      have own := unchanged (a + 1)
      rw [getECPM_next, e, Option.getD_some] at own
      simp at own
  · intro none next_ad_id
    rw [getECPM_next, none]
    rfl

/-! ## The mean -/

theorem weightIn_ne_zero (ad_id : Int32) : weightIn G db mall_id ad_id ≠ 0 :=
  fun zero => weightOf_ne_zero mall_id ad_id (Int32.toInt_inj.mp zero)

theorem totalWeight_pos (some : validAds G db mall_id g ≠ [])
    (nonneg : ∀ a ∈ validAds G db mall_id g, 0 ≤ weightIn G db mall_id a) :
    0 < ((validAds G db mall_id g).map fun a => (weightIn G db mall_id a : Rat)).sum := by
  apply List.sum_pos
  · intro w hw
    obtain ⟨a, ha, rfl⟩ := List.mem_map.mp hw
    exact_mod_cast lt_of_le_of_ne (nonneg a ha) (weightIn_ne_zero a).symm
  · simpa using some

/-- `get_eCPM` is the weighted mean over the valid ads, and chooses the first of them that has
been shown least for its weight. -/
theorem ecpm_weighted_mean (fits : WeightsFit (totalWeight G db mall_id g)) :
    MeanECPM G db mall_id g := by
  constructor
  · exact getECPM_value fits
  · intro a
    refine ⟨weightIn_ne_zero a, fun enough zero => enough ?_⟩
    rw [zero]
    decide
  · exact order_irrelevant fits
  · intro some nonneg next_ad_id
    have weights : ∀ a ∈ validAds G db mall_id g, (0 : Rat) ≤ (weightIn G db mall_id a : Rat) :=
      fun a ha => by exact_mod_cast nonneg a ha
    have total := totalWeight_pos some nonneg
    rw [getECPM_mean fits]
    constructor
    · cases e : (validAds G db mall_id g).argmin (thousandShows G db mall_id g) with
      | none => exact absurd (List.argmin_eq_none.mp e) some
      | some lo =>
        have least := fun a ha => List.le_of_mem_argmin (f := thousandShows G db mall_id g)
          (a := a) ha e
        exact ⟨lo, List.argmin_mem e, least, le_mean weights total least⟩
    · cases e : (validAds G db mall_id g).argmax (thousandShows G db mall_id g) with
      | none => exact absurd (List.argmax_eq_none.mp e) some
      | some hi =>
        have greatest := fun a ha => List.le_of_mem_argmax (f := thousandShows G db mall_id g)
          (a := a) ha e
        exact ⟨hi, List.argmax_mem e, greatest, mean_le weights total greatest⟩
  · exact unchanged_iff
  · exact firstLeast_next

/-- In the group 4 the ad 1 was shown 200 times and clicked 10 times; the ad 2, of three times
the weight, was shown 400 times and clicked 8 times. -/
def weightedEntries : List (Key × Val) :=
  [(.adGroup 3 4 .adSet, .set {"1".toList, "2".toList}),
    (.adGroup 3 4 (.price .show), .str "2".toList),
    (.adGroup 3 4 (.price .click), .str "1".toList),
    (.ad 3 1 (.counter .show), .str "200".toList),
    (.ad 3 1 (.counter .click), .str "10".toList),
    (.ad 3 2 .weight, .str "3".toList),
    (.ad 3 2 (.counter .show), .str "400".toList),
    (.ad 3 2 (.counter .click), .str "8".toList)]

/-- The mean of 2050 and, three times, 2020; the ad 2 has been shown less for its weight. -/
theorem ecpm_weighted_mean_shared : MeanECPM orderedGlobals (storeOf weightedEntries) 3 4 ∧
    getECPM orderedGlobals (storeOf weightedEntries) 3 4 0 = (4055 / 2, 2) := by
  have total : totalWeight orderedGlobals (storeOf weightedEntries) 3 4 = 4 := by decide +kernel
  have mean : MeanECPM orderedGlobals (storeOf weightedEntries) 3 4 := ecpm_weighted_mean (by
    rw [total]
    exact ⟨by decide, by decide⟩)
  exact ⟨mean, by decide +kernel⟩

end

end AdMap

end SimpleDsp
