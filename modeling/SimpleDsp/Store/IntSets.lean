import SimpleDsp.Store.Mdb

/-!
# Sets of integers

Sets and sorted sets whose members are integers, as both backends keep them.

* `mem_smembers`: the integers of a set are the ones listed;
* `Order`: an order in which sets may be listed;
* `zmembers_ints`: the integers of a sorted set come in the order of their scores.
-/

namespace SimpleDsp

open DecimalText

/-- An `int` as the backend keeps it. -/
def intText (type : TypeDb) (v : Int32) : Text :=
  match type with
  | .redis => decimal v.toInt
  | .tair => rawBytes 4 v.toUInt32.toNat

/-- What becomes of a member that is read as an `int`. -/
def readInt (type : TypeDb) (m : Machine) (t : Text) : Int32 :=
  match type with
  | .redis => Ty.extract m.doubles m.uninit .int (cString t)
  | .tair => Ty.getValue m.doubles (m.beyond t) .int t

section
variable {type : TypeDb} {m : Machine} {db : Db} {k : Key} {S : Finset Int32}

theorem encode_int (type : TypeDb) (m : Machine) (v : Int32) :
    CBaseMdb.encode type m .int v = .str (intText type v) := by
  cases type with
  | redis => rfl
  | tair => rfl

theorem readInt_intText (type : TypeDb) (m : Machine) (v : Int32) :
    readInt type m (intText type v) = v := by
  cases type with
  | redis =>
    have plain : cString (decimal v.toInt) = decimal v.toInt := (isWord_decimal v.toInt).cString
    have read : Ty.extract m.doubles m.uninit .int (decimal v.toInt) = v :=
      extract_print (τ := .int) rfl v
    rw [readInt, intText, plain, read]
  | tair => exact getValue_bytes (d := m.doubles) (τ := .int) rfl v

theorem intText_injective (type : TypeDb) : Function.Injective (intText type) := by
  intro v v' same
  have read := congrArg (readInt type Machine.plain) same
  rwa [readInt_intText, readInt_intText] at read

/-- Texts of integers are read and written back. -/
theorem map_intText_readInt {l : List Text} (ints : ∀ t ∈ l, ∃ v, t = intText type v) :
    (l.map (readInt type m)).map (intText type) = l := by
  rw [List.map_map]
  refine (List.map_congr_left ?_).trans (List.map_id l)
  intro t ht
  obtain ⟨v, rfl⟩ := ints t ht
  rw [Function.comp_apply, readInt_intText, id]

/-! ## Sets -/

theorem smembers_eq {T : Finset Text} (stored : setAt (db k.text) = some T) :
    CBaseMdb.smembers type m .int k.text db = (m.listing k.text T).map (readInt type m) := by
  cases type with
  | redis =>
    simp only [CBaseMdb.smembers, RedisDb.smembers, serve, k.isWord_text.cString, stored,
      RedisDb.members, Option.getD_some]
    rfl
  | tair =>
    simp only [CBaseMdb.smembers, TairDb.smembers, stored]
    rfl

theorem smembers_ints (stored : setAt (db k.text) = some (S.image (intText type))) :
    (CBaseMdb.smembers type m .int k.text db).map (intText type) =
      m.listing k.text (S.image (intText type)) := by
  rw [smembers_eq stored]
  apply map_intText_readInt
  intro t ht
  rw [m.mem_listing] at ht
  obtain ⟨v, -, rfl⟩ := Finset.mem_image.mp ht
  exact ⟨v, rfl⟩

theorem mem_smembers (stored : setAt (db k.text) = some (S.image (intText type))) (v : Int32) :
    v ∈ (CBaseMdb.smembers type m .int k.text db : List Int32) ↔ v ∈ S := by
  rw [← List.mem_map_of_injective (intText_injective type), smembers_ints stored, m.mem_listing]
  exact (intText_injective type).mem_finset_image

/-! ## Orders -/

structure Order where
  listing : Text → Finset Text → List Text
  listing_nodup : ∀ k s, (listing k s).Nodup
  mem_listing : ∀ k s m, m ∈ listing k s ↔ m ∈ s

def Machine.listedBy (m : Machine) (o : Order) : Machine :=
  { m with
    listing := o.listing
    listing_nodup := o.listing_nodup
    mem_listing := o.mem_listing }

/-- The member `a` comes first, where it is one. -/
def Order.first (a : Text) : Order where
  listing k s :=
    if a ∈ s then a :: Machine.plain.listing k (s.erase a) else Machine.plain.listing k s
  listing_nodup k s := by
    split
    · apply List.nodup_cons.mpr
      simp [Machine.plain.listing_nodup, Machine.plain.mem_listing]
    · exact Machine.plain.listing_nodup k s
  mem_listing k s t := by
    split
    · rename_i member
      by_cases same : t = a
      · simp [same, member]
      · simp [same, Machine.plain.mem_listing]
    · exact Machine.plain.mem_listing k s t

theorem smembers_first {a : Int32} (stored : setAt (db k.text) = some (S.image (intText type)))
    (member : a ∈ S) : ∃ rest, (CBaseMdb.smembers type (m.listedBy (.first (intText type a))) .int
      k.text db : List Int32) = a :: rest := by
  have listed := smembers_ints (m := m.listedBy (.first (intText type a))) stored
  have first : (m.listedBy (.first (intText type a))).listing k.text (S.image (intText type)) =
      intText type a ::
        Machine.plain.listing k.text ((S.image (intText type)).erase (intText type a)) :=
    if_pos (Finset.mem_image_of_mem _ member)
  rw [first] at listed
  obtain ⟨b, rest, whole, head, -⟩ := List.map_eq_cons_iff.mp listed
  rw [intText_injective type head] at whole
  exact ⟨rest, whole⟩

/-- Two orders list the same members. -/
theorem smembers_perm (m : Machine) (o o' : Order) :
    (CBaseMdb.smembers type (m.listedBy o) .int k.text db : List Int32).Perm
      (CBaseMdb.smembers type (m.listedBy o') .int k.text db : List Int32) := by
  cases stored : setAt (db k.text) with
  | none =>
    have empty (m : Machine) : CBaseMdb.smembers type m .int k.text db = [] := by
      cases type with
      | redis =>
        simp only [CBaseMdb.smembers, RedisDb.smembers, serve, k.isWord_text.cString, stored]
        rfl
      | tair => simp only [CBaseMdb.smembers, TairDb.smembers, stored]
    rw [empty, empty]
  | some T =>
    rw [smembers_eq stored, smembers_eq stored]
    have listings : (o.listing k.text T).Perm (o'.listing k.text T) := by
      apply (List.perm_ext_iff_of_nodup (o.listing_nodup _ _) (o'.listing_nodup _ _)).mpr
      intro t
      rw [o.mem_listing, o'.mem_listing]
    exact listings.map _

/-! ## Sorted sets -/

/-- All members are integers. -/
def Ints (type : TypeDb) (z : AList fun _ : Text => Rat) : Prop :=
  ∀ t ∈ z, ∃ v, t = intText type v

/-- The members as integers, in the order of their scores. -/
def idsByScore (type : TypeDb) (z : AList fun _ : Text => Rat) : List Int32 :=
  (rangeOrder z).map (readInt type Machine.plain)

section
variable {z : AList fun _ : Text => Rat}

theorem Ints.empty (type : TypeDb) : Ints type ∅ := fun t ht => absurd ht (AList.notMem_empty t)

theorem Ints.insert (ints : Ints type z) (v : Int32) (score : Int) :
    Ints type (z.insert (intText type v) score) := by
  intro t ht
  rcases (AList.mem_insert z).mp ht with rfl | ht
  · exact ⟨v, rfl⟩
  · exact ints t ht

theorem Ints.rangeOrder (ints : Ints type z) : ∀ t ∈ rangeOrder z, ∃ v, t = intText type v :=
  fun t ht => ints t ((perm_rangeOrder z).mem_iff.mp ht)

theorem Ints.map_idsByScore (ints : Ints type z) :
    (idsByScore type z).map (intText type) = SimpleDsp.rangeOrder z :=
  map_intText_readInt ints.rangeOrder

theorem Ints.mem_idsByScore (ints : Ints type z) (v : Int32) :
    v ∈ idsByScore type z ↔ intText type v ∈ z := by
  rw [← List.mem_map_of_injective (intText_injective type), ints.map_idsByScore,
    (perm_rangeOrder z).mem_iff]
  rfl

theorem Ints.nodup_idsByScore (ints : Ints type z) : (idsByScore type z).Nodup := by
  apply List.Nodup.of_map (intText type)
  rw [ints.map_idsByScore, (perm_rangeOrder z).nodup_iff]
  exact z.keys_nodup

theorem zmembers_ints (ints : Ints type z) (stored : zsetAt (db k.text) = some z) :
    CBaseMdb.zmembers type m .int k.text db = idsByScore type z := by
  have read : CBaseMdb.zmembers type m .int k.text db =
      (SimpleDsp.rangeOrder z).map (readInt type m) := by
    cases type with
    | redis =>
      simp only [CBaseMdb.zmembers, RedisDb.zmembers, serve, k.isWord_text.cString, stored,
        RedisDb.members, Option.getD_some]
      rfl
    | tair =>
      simp only [CBaseMdb.zmembers, TairDb.zmembers, stored]
      rfl
  rw [read]
  apply List.map_congr_left
  intro t ht
  obtain ⟨v, rfl⟩ := ints.rangeOrder t ht
  rw [readInt_intText, readInt_intText]

end

end

end SimpleDsp
