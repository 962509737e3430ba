import SimpleDsp.AdMap.Serving
import SimpleDsp.Store.IntSets

/-!
# Market shops

The first listed member of a market shop set decides whether the set includes or
excludes shops.

* `MarketShops`: what the filter does, whatever the order of the members;
* `market_shops_iff`: when it does so.
-/

namespace SimpleDsp

open DecimalText

namespace AdMap

section
variable (G : Globals) (db : Db) (user_id group_id mall_id : Int32) (t_now : Int64)

abbrev marketShopSet : Key := .adGroup mall_id.toInt group_id.toInt .marketShopSet

/-- The shop the user is recorded in on the day, or 0. -/
def RecordedIn (shop_id : Int32) : Prop :=
  let k : Key := .userShopId (getDateStr G.localtime t_now.toInt) user_id.toInt
  db k.text = some (.str (intText G.type shop_id)) ∨ db k.text = none ∧ shop_id = 0

def Included (S : Finset Int32) (shop_id : Int32) : Prop :=
  0 < user_id ∧ 0 < shop_id ∧ shop_id ∈ S

def Excluded (S : Finset Int32) (shop_id : Int32) : Prop :=
  0 < user_id ∧ 0 < shop_id ∧ -shop_id ∈ S

instance (S : Finset Int32) (shop_id : Int32) : Decidable (Included user_id S shop_id) :=
  inferInstanceAs (Decidable (_ ∧ _))

instance (S : Finset Int32) (shop_id : Int32) : Decidable (Excluded user_id S shop_id) :=
  inferInstanceAs (Decidable (_ ∧ _))

structure MarketShops (S : Finset Int32) (shop_id : Int32) : Prop where
  order : ∀ o o', checkMarketShop (G.listedBy o) db user_id group_id mall_id t_now =
    checkMarketShop (G.listedBy o') db user_id group_id mall_id t_now
  nonneg : S.Nonempty → (∀ s ∈ S, 0 ≤ s) →
    (checkMarketShop G db user_id group_id mall_id t_now = true ↔ Included user_id S shop_id)
  neg : S.Nonempty → (∀ s ∈ S, s < 0) →
    (checkMarketShop G db user_id group_id mall_id t_now = false ↔ Excluded user_id S shop_id)
  empty : S = ∅ → checkMarketShop G db user_id group_id mall_id t_now = true

end

section
variable {G : Globals} {db : Db} {user_id group_id mall_id : Int32} {t_now : Int64}
  {S : Finset Int32} {shop_id : Int32}

/-- The verdict that follows from the first member. -/
def verdictOf (user_id : Int32) (S : Finset Int32) (shop_id : Int32) : Option Int32 → Bool
  | none => true
  | some first =>
    if 0 ≤ first then decide (Included user_id S shop_id)
    else !decide (Excluded user_id S shop_id)

theorem getShopidOfUserLocation_eq (recorded : RecordedIn G db user_id t_now shop_id) :
    getShopidOfUserLocation G db user_id t_now = shop_id := by
  rcases recorded with stored | ⟨absent, zero⟩
  · apply CBaseMdb.get_encode (τ := .int) rfl
    rw [stored, encode_int]
  · rw [zero]
    exact CBaseMdb.get_none absent

theorem checkMarketShop_eq
    (stored : setAt (db (marketShopSet group_id mall_id).text) = some (S.image (intText G.type)))
    (recorded : RecordedIn G db user_id t_now shop_id) :
    checkMarketShop G db user_id group_id mall_id t_now =
      verdictOf user_id S shop_id
        (smembers G db .int (marketShopSet group_id mall_id) : List Int32).head? := by
  have member (v : Int32) :
      v ∈ (smembers G db .int (marketShopSet group_id mall_id) : List Int32) ↔ v ∈ S :=
    mem_smembers stored v
  unfold checkMarketShop
  rw [getShopidOfUserLocation_eq recorded]
  cases listed : (smembers G db .int (marketShopSet group_id mall_id) : List Int32) with
  | nil => rfl
  | cons first rest =>
    rw [listed] at member
    have contains (v : Int32) : (first :: rest).contains v = decide (v ∈ S) := by
      rw [Bool.eq_iff_iff, List.contains_iff_mem, member, decide_eq_true_iff]
    simp only [List.head?_cons, verdictOf, contains]
    by_cases mode : 0 ≤ first
    · rw [if_pos mode, if_pos mode, Bool.eq_iff_iff, decide_eq_true_iff]
      simp [Included, and_assoc]
    · rw [if_neg mode, if_neg mode, Bool.not_inj_iff, Bool.eq_iff_iff, decide_eq_true_iff]
      simp [Excluded, and_assoc]

/-! ## Orders -/

theorem checkMarketShop_listedBy
    (stored : setAt (db (marketShopSet group_id mall_id).text) = some (S.image (intText G.type)))
    (recorded : RecordedIn G db user_id t_now shop_id) (o : Order) :
    S = ∅ ∧ checkMarketShop (G.listedBy o) db user_id group_id mall_id t_now = true ∨
      ∃ first ∈ S, checkMarketShop (G.listedBy o) db user_id group_id mall_id t_now =
        verdictOf user_id S shop_id (some first) := by
  have member (v : Int32) : v ∈ (smembers (G.listedBy o) db .int
      (marketShopSet group_id mall_id) : List Int32) ↔ v ∈ S := mem_smembers stored v
  rw [checkMarketShop_eq (G := G.listedBy o) stored recorded]
  cases listed : (smembers (G.listedBy o) db .int (marketShopSet group_id mall_id) : List Int32) with
  | nil =>
    rw [listed] at member
    exact Or.inl ⟨Finset.eq_empty_of_forall_notMem fun v hv => by simpa using (member v).mpr hv, rfl⟩
  | cons first rest =>
    rw [listed] at member
    exact Or.inr ⟨first, (member first).mp (List.mem_cons_self ..), rfl⟩

theorem checkMarketShop_first
    (stored : setAt (db (marketShopSet group_id mall_id).text) = some (S.image (intText G.type)))
    (recorded : RecordedIn G db user_id t_now shop_id) {a : Int32} (member : a ∈ S) :
    checkMarketShop (G.listedBy (.first (intText G.type a))) db user_id group_id mall_id t_now =
      verdictOf user_id S shop_id (some a) := by
  obtain ⟨rest, listed⟩ := smembers_first (m := G.m) stored member
  rw [checkMarketShop_eq (G := G.listedBy (.first (intText G.type a))) stored recorded]
  have head : (smembers (G.listedBy (.first (intText G.type a))) db .int
      (marketShopSet group_id mall_id) : List Int32) = a :: rest := listed
  rw [head, List.head?_cons]

/-- Some members are negative and some are not. -/
def Mixed (S : Finset Int32) : Prop := (∃ s ∈ S, 0 ≤ s) ∧ ∃ s ∈ S, s < 0

theorem verdictOf_nonneg {s : Int32} (h : 0 ≤ s) :
    verdictOf user_id S shop_id (some s) = decide (Included user_id S shop_id) := if_pos h

theorem verdictOf_neg {s : Int32} (h : s < 0) :
    verdictOf user_id S shop_id (some s) = !decide (Excluded user_id S shop_id) :=
  if_neg (Int32.not_le.mpr h)

/-- The two modes give the same verdict. -/
theorem modes_agree_iff :
    decide (Included user_id S shop_id) = !decide (Excluded user_id S shop_id) ↔
      0 < user_id ∧ 0 < shop_id ∧ (shop_id ∈ S ↔ -shop_id ∉ S) := by
  rw [Bool.eq_iff_iff, decide_eq_true_iff, Bool.not_eq_true', decide_eq_false_iff_not]
  unfold Included Excluded
  constructor
  · intro agree
    by_cases user : 0 < user_id
    · by_cases shop : 0 < shop_id
      · simpa [user, shop] using agree
      · simp [user, shop] at agree
    · simp [user] at agree
  · rintro ⟨user, shop, agree⟩
    simpa [user, shop] using agree

/-- With one mode, or two that agree, the order does not matter. -/
theorem verdictOf_const
    (agree : Mixed S → decide (Included user_id S shop_id) = !decide (Excluded user_id S shop_id))
    {s s' : Int32} (hs : s ∈ S) (hs' : s' ∈ S) :
    verdictOf user_id S shop_id (some s) = verdictOf user_id S shop_id (some s') := by
  by_cases sign : 0 ≤ s
  · rw [verdictOf_nonneg sign]
    by_cases sign' : 0 ≤ s'
    · rw [verdictOf_nonneg sign']
    · rw [verdictOf_neg (Int32.not_le.mp sign')]
      exact agree ⟨⟨s, hs, sign⟩, ⟨s', hs', Int32.not_le.mp sign'⟩⟩
  · rw [verdictOf_neg (Int32.not_le.mp sign)]
    by_cases sign' : 0 ≤ s'
    · rw [verdictOf_nonneg sign']
      exact (agree ⟨⟨s', hs', sign'⟩, ⟨s, hs, Int32.not_le.mp sign⟩⟩).symm
    · rw [verdictOf_neg (Int32.not_le.mp sign')]

/-- The order does not matter exactly if the set has one mode, or both modes give the user
the same verdict. -/
theorem market_shops_iff
    (stored : setAt (db (marketShopSet group_id mall_id).text) = some (S.image (intText G.type)))
    (recorded : RecordedIn G db user_id t_now shop_id) :
    MarketShops G db user_id group_id mall_id t_now S shop_id ↔
      (Mixed S → 0 < user_id ∧ 0 < shop_id ∧ (shop_id ∈ S ↔ -shop_id ∉ S)) := by
  rw [← modes_agree_iff]
  constructor
  · rintro ⟨order, -, -, -⟩ ⟨⟨a, ha, nonneg⟩, b, hb, neg⟩
    have same := order (.first (intText G.type a)) (.first (intText G.type b))
    rw [checkMarketShop_first stored recorded ha, checkMarketShop_first stored recorded hb,
      verdictOf_nonneg nonneg, verdictOf_neg neg] at same
    exact same
  · intro agree
    have own := checkMarketShop_listedBy stored recorded
      ⟨G.m.listing, G.m.listing_nodup, G.m.mem_listing⟩
    constructor
    · intro o o'
      rcases checkMarketShop_listedBy stored recorded o with ⟨empty, verdict⟩ | ⟨s, hs, verdict⟩
      · rcases checkMarketShop_listedBy stored recorded o' with ⟨-, verdict'⟩ | ⟨s', hs', -⟩
        · rw [verdict, verdict']
        · rw [empty] at hs'
          simp at hs'
      · rcases checkMarketShop_listedBy stored recorded o' with ⟨empty, -⟩ | ⟨s', hs', verdict'⟩
        · rw [empty] at hs
          simp at hs
        · rw [verdict, verdict']
          exact verdictOf_const agree hs hs'
    · intro some nonneg
      rcases own with ⟨empty, -⟩ | ⟨s, hs, verdict⟩
      · exact absurd empty some.ne_empty
      · have shown : checkMarketShop G db user_id group_id mall_id t_now = _ := verdict
        rw [shown, verdictOf_nonneg (nonneg s hs), decide_eq_true_iff]
    · intro some neg
      rcases own with ⟨empty, -⟩ | ⟨s, hs, verdict⟩
      · exact absurd empty some.ne_empty
      · have shown : checkMarketShop G db user_id group_id mall_id t_now = _ := verdict
        rw [shown, verdictOf_neg (neg s hs), Bool.not_eq_false', decide_eq_true_iff]
    · intro empty
      rcases own with ⟨-, verdict⟩ | ⟨s, hs, -⟩
      · exact verdict
      · rw [empty] at hs
        simp at hs

/-- In group 5 of mall 3 the shop 7 is included and the shop 8 excluded. -/
def mixedShops : Db :=
  Db.empty.put (marketShopSet 5 3).text (.set {"7".toList, "-8".toList})

/-- On the first day the user 9 is in the shop 7. -/
def mixedShopsInside : Db :=
  mixedShops.put (Key.userShopId (getDateStr utcFirstDay 0) 9).text (.str "7".toList)

theorem market_shops_iff_inside : MarketShops plainGlobals mixedShopsInside 9 5 3 0 {7, -8} 7 := by
  have other : (marketShopSet 5 3).text ≠ (Key.userShopId (getDateStr utcFirstDay 0) 9).text :=
    fun same => nomatch Key.text_inj.mp same
  apply (market_shops_iff (G := plainGlobals) (S := {7, -8}) ?_ ?_).mpr
  · intro mixed
    decide
  · rw [mixedShopsInside, Db.put_of_ne other, mixedShops, Db.put_self]
    decide +kernel
  · exact Or.inl (Db.put_self ..)

/-- Of a user in no shop today, the order decides. -/
theorem order_decides :
    checkMarketShop (plainGlobals.listedBy (.first "7".toList)) mixedShops 9 5 3 0 = false ∧
      checkMarketShop (plainGlobals.listedBy (.first "-8".toList)) mixedShops 9 5 3 0 = true := by
  decide +kernel

end

end AdMap

end SimpleDsp
