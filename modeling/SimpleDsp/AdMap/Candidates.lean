import SimpleDsp.AdMap.Serving
import SimpleDsp.Lib.Intersection
import SimpleDsp.Store.IntSets

/-!
# The candidates of a known user

`bidding` intersects the groups of the space and of the location with
`std::set_intersection`, but has both in the order of their scores.

* `setIntersection_eq`: the intersection by merging;
* `candidates_iff`: when it finds all groups in both sets.
-/

namespace SimpleDsp

open DecimalText Intersection

namespace AdMap

theorem setIntersection_eq (as bs : List Int32) : setIntersection as bs = intersect as bs := by
  fun_induction intersect as bs with
  | case1 bs => rfl
  | case2 a as => rfl
  | case3 a as b bs less ih => rw [setIntersection, intersectAt, if_pos less, ih]
  | case4 a as b bs notLess less ih =>
    rw [setIntersection, intersectAt, if_neg notLess, if_pos less, ← ih, setIntersection]
  | case5 a as b bs less greater ih =>
    rw [setIntersection, intersectAt, if_neg less, if_neg greater, ih]

section
variable (G : Globals) (db : Db) (pos : UserPosition) (user_id space_id mall_id : Int32)

abbrev spaceSet : Key := .adSpace mall_id.toInt space_id.toInt

abbrev locationSet : Key :=
  .adLocation mall_id.toInt (cellOf pos.position.x G.slice_x).toInt
    (cellOf pos.position.y G.slice_y).toInt pos.position.z.toInt

/-- The candidates are the groups in both sets, each once. -/
structure Candidates (ofSpace ofLocation : AList fun _ : Text => Rat) : Prop where
  both : ∀ group, group ∈ adGroupList G db pos user_id space_id mall_id ↔
    intText G.type group ∈ ofSpace ∧ intText G.type group ∈ ofLocation
  once : (adGroupList G db pos user_id space_id mall_id).Nodup

end

section
variable {G : Globals} {db : Db} {pos : UserPosition} {user_id space_id mall_id : Int32}
  {ofSpace ofLocation : AList fun _ : Text => Rat}

theorem adGroupList_eq (known : 0 < user_id)
    (space : zsetAt (db (spaceSet space_id mall_id).text) = some ofSpace)
    (location : zsetAt (db (locationSet G pos mall_id).text) = some ofLocation)
    (ints : Ints G.type ofSpace) (ints' : Ints G.type ofLocation) :
    adGroupList G db pos user_id space_id mall_id =
      intersect (idsByScore G.type ofSpace) (idsByScore G.type ofLocation) := by
  have groups : getAdGroupSetOfSpace G db mall_id space_id = idsByScore G.type ofSpace :=
    zmembers_ints ints space
  have groups' : getAdGroupSetOfLocation G db mall_id pos = idsByScore G.type ofLocation :=
    zmembers_ints ints' location
  rw [adGroupList, if_pos known, groups, groups', setIntersection_eq]

/-- The candidates are the intersection exactly if the scores put the groups that are in
both sets in the same order, each behind groups with smaller ids only, as far back as the
one before it. -/
theorem candidates_iff (known : 0 < user_id)
    (space : zsetAt (db (spaceSet space_id mall_id).text) = some ofSpace)
    (location : zsetAt (db (locationSet G pos mall_id).text) = some ofLocation)
    (ints : Ints G.type ofSpace) (ints' : Ints G.type ofLocation) :
    Candidates G db pos user_id space_id mall_id ofSpace ofLocation ↔
      Agree (idsByScore G.type ofSpace) (idsByScore G.type ofLocation) := by
  have list := adGroupList_eq known space location ints ints'
  have part := intersect_sublist (idsByScore G.type ofSpace) (idsByScore G.type ofLocation)
  rw [← complete_iff ints.nodup_idsByScore ints'.nodup_idsByScore]
  constructor
  · rintro ⟨both, -⟩ group inSpace inLocation
    rw [← list]
    exact (both group).mpr ⟨(ints.mem_idsByScore group).mp inSpace,
      (ints'.mem_idsByScore group).mp inLocation⟩
  · intro complete
    constructor
    · intro group
      rw [list, ← ints.mem_idsByScore, ← ints'.mem_idsByScore]
      constructor
      · intro found
        exact ⟨part.1.subset found, part.2.subset found⟩
      · rintro ⟨inSpace, inLocation⟩
        exact complete group inSpace inLocation
    · rw [list]
      exact ints.nodup_idsByScore.sublist part.1

def atOrigin : UserPosition := ⟨5, ⟨0, 0, 0⟩⟩

/-- Of these groups only the one with the id 1 is in both sets. -/
def spaceGroups : AList fun _ : Text => Rat :=
  ((∅ : AList fun _ : Text => Rat).insert (intText .redis 1) 10).insert (intText .redis 2) 20

def locationGroups : AList fun _ : Text => Rat :=
  (∅ : AList fun _ : Text => Rat).insert (intText .redis 1) 10

def groupsAt (ofSpace ofLocation : AList fun _ : Text => Rat) : Db :=
  (Db.empty.put (locationSet plainGlobals atOrigin 3).text (.zset ofLocation)).put
    (spaceSet 28 3).text (.zset ofSpace)

theorem groupsAt_space (ofSpace ofLocation : AList fun _ : Text => Rat) :
    zsetAt (groupsAt ofSpace ofLocation (spaceSet 28 3).text) = some ofSpace := by
  rw [groupsAt, Db.put_self]
  rfl

theorem groupsAt_location (ofSpace ofLocation : AList fun _ : Text => Rat) :
    zsetAt (groupsAt ofSpace ofLocation (locationSet plainGlobals atOrigin 3).text) =
      some ofLocation := by
  have other : (locationSet plainGlobals atOrigin 3).text ≠ (spaceSet 28 3).text :=
    fun same => nomatch Key.text_inj.mp same
  rw [groupsAt, Db.put_of_ne other, Db.put_self]
  rfl

theorem candidates_iff_sorted : Candidates plainGlobals (groupsAt spaceGroups locationGroups)
    atOrigin 9 28 3 spaceGroups locationGroups := by
  have ints : Ints .redis spaceGroups := ((Ints.empty .redis).insert 1 10).insert 2 20
  have ints' : Ints .redis locationGroups := (Ints.empty .redis).insert 1 10
  apply (candidates_iff (G := plainGlobals) (by decide) (groupsAt_space _ _)
    (groupsAt_location _ _) ints ints').mpr
  exact agree_of_sorted (by decide +kernel) (by decide +kernel)

/-- The group 1 is in both sets, but in the space behind the group 2. -/
def reversedGroups : AList fun _ : Text => Rat :=
  ((∅ : AList fun _ : Text => Rat).insert (intText .redis 1) 20).insert (intText .redis 2) 10

theorem shared_group_lost :
    (intText .redis 1 ∈ reversedGroups ∧ intText .redis 1 ∈ locationGroups) ∧
      adGroupList plainGlobals (groupsAt reversedGroups locationGroups) atOrigin 9 28 3 = [] := by
  constructor
  · decide +kernel
  · decide +kernel

end

end AdMap

end SimpleDsp
