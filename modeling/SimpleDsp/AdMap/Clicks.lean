import SimpleDsp.AdMap.Serving

/-!
# Who pays for a click

A request finds the ads of a group in `ad.set`, a click finds the group of an ad
in the ad's own record. `click_billed_to_shown_group_iff` says when the two agree.
-/

namespace SimpleDsp

namespace AdMap

variable {G : Globals}

/-- The state after any calls, whatever they answer. -/
def afterCalls (G : Globals) (ops : List Op) (s : AdState) : AdState :=
  ops.foldl (fun s o => (o.run G s).2) s

theorem onlyCounters_afterCalls (ops : List Op) (s : AdState) :
    OnlyCounters s.db (afterCalls G ops s).db := by
  induction ops generalizing s with
  | nil => exact .refl s.db
  | cons o ops ih => exact (o.step s).only.trans (ih (o.run G s).2)

theorem getChargeCmd_group_inj {db : Db} {mall_id ad_id g g' : Int32} {type : ChargeType} :
    getChargeCmd G db mall_id ad_id g type = getChargeCmd G db mall_id ad_id g' type ↔ g = g' := by
  constructor
  · intro same
    exact congrArg (fun c => c.remark.ad_group_id) same
  · rintro rfl
    rfl

/-- A click adds the charge of the group in the record of the ad, if there is one. -/
theorem click_charges (ad_id mall_id : Int32) (s : AdState) :
    ((Op.click ad_id mall_id).run G s).2.charges = s.charges ++
      if groupOf G s.db mall_id ad_id = -1 then []
      else [getChargeCmd G s.db mall_id ad_id (groupOf G s.db mall_id ad_id) .click] := by
  rw [(click_does ad_id mall_id s).charges, chargesOf]
  by_cases absent : groupOf G s.db mall_id ad_id = -1
  · have refused : ((Op.click ad_id mall_id).run G s).1.result ≠ some "ok".toList := by
      simp [Op.run, adClick, absent]
    rw [if_neg refused, if_pos absent]
  · have ok : ((Op.click ad_id mall_id).run G s).1.result = some "ok".toList := by
      simp [Op.run, adClick, absent]
    rw [if_pos ok, if_neg absent]

/-- Every entry of an answer has been charged to its group. -/
theorem shown_charged (pos : UserPosition) (user_id space_id mall_id : Int32) (n : Nat)
    (looks : Nat → Look) (s : AdState) {e : AdNode}
    (he : e ∈ (bidding G pos user_id space_id mall_id n looks (Ret.empty, s)).1.ad) :
    getChargeCmd G s.db mall_id e.id e.group_id .show ∈
      (bidding G pos user_id space_id mall_id n looks (Ret.empty, s)).2.charges := by
  obtain ⟨ads, shows⟩ := bidding_does (G := G) pos user_id space_id mall_id n looks s
  have entry : (e.group_id, e.id) ∈
      (winners G s.db pos user_id space_id mall_id n looks).map fun b => (b.group, b.ad) := by
    rw [← ads]
    exact List.mem_map_of_mem (f := fun e : AdNode => (e.group_id, e.id)) he
  obtain ⟨b, hb, same⟩ := List.mem_map.mp entry
  obtain ⟨group, ad⟩ := Prod.mk.inj same
  rw [shows.charges, ← group, ← ad]
  exact List.mem_append_right _ (List.mem_map_of_mem hb)

/-- Each entry of an answer is charged to its group. A later click on it is
charged to that group at its price for clicks if and only if the record of the ad
names the group, and the group is not -1. -/
theorem click_billed_to_shown_group_iff (pos : UserPosition) (user_id space_id mall_id : Int32)
    (n : Nat) (looks : Nat → Look) (s : AdState) {e : AdNode}
    (he : e ∈ (bidding G pos user_id space_id mall_id n looks (Ret.empty, s)).1.ad)
    (ops : List Op) :
    let shown := (bidding G pos user_id space_id mall_id n looks (Ret.empty, s)).2
    let later := afterCalls G ops shown
    getChargeCmd G s.db mall_id e.id e.group_id .show ∈ shown.charges ∧
    (((Op.click e.id mall_id).run G later).2.charges =
        later.charges ++ [getChargeCmd G s.db mall_id e.id e.group_id .click] ↔
      get G s.db .int (.ad mall_id.toInt e.id.toInt .group) (-1 : Int32) = e.group_id ∧
        e.group_id ≠ -1) := by
  intro shown later
  refine ⟨shown_charged pos user_id space_id mall_id n looks s he, ?_⟩
  have only : OnlyCounters s.db later.db :=
    (bidding_does pos user_id space_id mall_id n looks s).2.only.trans
      (onlyCounters_afterCalls ops shown)
  have group : groupOf G later.db mall_id e.id = groupOf G s.db mall_id e.id :=
    get_onlyCounters only rfl
  change _ ↔ groupOf G s.db mall_id e.id = e.group_id ∧ e.group_id ≠ -1
  rw [click_charges, List.append_cancel_left_eq, group, getChargeCmd_onlyCounters only]
  by_cases absent : groupOf G s.db mall_id e.id = -1
  · rw [if_pos absent, absent]
    constructor
    · intro same
      cases same
    · intro h
      exact absurd h.1.symm h.2
  · rw [if_neg absent, List.singleton_inj, getChargeCmd_group_inj]
    constructor
    · intro same
      exact ⟨same, same ▸ absent⟩
    · intro h
      exact h.1

/-- The request of `oneRequest`, from a place nobody has been at. -/
def oneBidding (s : AdState) : Ret × AdState :=
  bidding plainGlobals ⟨5, 0, 0, 0⟩ 0 28 3 1 (fun _ => ⟨0, 0⟩) (Ret.empty, s)

/-- The record of the ad 1 names the group 4 here. -/
def ownAd : AdState := ⟨storeOf (sharedAdEntries ++ [(.ad 3 1 .group, .str "4".toList)]), []⟩

theorem click_billed_to_shown_group_iff_own : ∃ e ∈ (oneBidding ownAd).1.ad,
    ((Op.click e.id 3).run plainGlobals (oneBidding ownAd).2).2.charges =
      (oneBidding ownAd).2.charges ++ [getChargeCmd plainGlobals ownAd.db 3 e.id e.group_id .click] := by
  have he : (⟨[], [], 1, 4⟩ : AdNode) ∈ (oneBidding ownAd).1.ad := by decide +kernel
  have billed := click_billed_to_shown_group_iff (G := plainGlobals) ⟨5, 0, 0, 0⟩ 0 28 3 1
    (fun _ => ⟨0, 0⟩) ownAd he []
  exact ⟨_, he, billed.2.mpr ⟨by decide +kernel, by decide⟩⟩

/-- The ad 1 is shown for the group 4 of the owner 98, whose price for a click is
1; the click takes 2 from the owner 95 of the group 1. -/
theorem click_billed_to_other_group : ∃ e ∈ (oneBidding sharedAd).1.ad, e.id = 1 ∧ e.group_id = 4 ∧
    getChargeCmd plainGlobals sharedAd.db 3 1 4 .click = ⟨98, -1, ⟨1, 1, 4, .click⟩, 3⟩ ∧
    ((Op.click 1 3).run plainGlobals (oneBidding sharedAd).2).2.charges =
      (oneBidding sharedAd).2.charges ++ [⟨95, -2, ⟨1, 1, 1, .click⟩, 3⟩] :=
  ⟨⟨[], [], 1, 4⟩, by decide +kernel, rfl, rfl, by decide +kernel, by decide +kernel⟩

end AdMap

end SimpleDsp
