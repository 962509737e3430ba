import SimpleDsp.AdMap.Bidding
import SimpleDsp.Store.TextRoundTrips

/-!
# Label targeting on Redis

The user's labels are the whole names of fields, the group's labels the first
words of members.

* `passes_eq`: the label filter is the last of the filters;
* `label_filter_exact_iff`: when it keeps the groups that share a label.
-/

namespace SimpleDsp

open DecimalText

namespace AdMap

section
variable (G : Globals) (db : Db)

def groupLabelSet (mall_id it : Int32) : List Text :=
  smembers G db .string (.adGroup mall_id.toInt it.toInt .targetLabelSet)

/-- The filter by the labels of the user. -/
def keptByLabels (user_id mall_id it : Int32) : Bool :=
  !(decide (0 < user_id) && !(groupLabelSet G db mall_id it).isEmpty
    && !checkIntersection (userLabelSet G db user_id) (groupLabelSet G db mall_id it))

theorem passes_eq (user_id mall_id : Int32) (look : Look) (it : Int32) :
    passes G db user_id mall_id (userLabelSet G db user_id) look it =
      (checkMarketShop G db user_id it mall_id look.shop
        && decide ((get G db .int (.adGroup mall_id.toInt it.toInt .valid) (1 : Int32) : Int32) ≠ 0)
        && checkTimeRange G db mall_id look.now it
        && checkCronTimeSet G db mall_id look.now it
        && keptByLabels G db user_id mall_id it) := rfl

end

section
variable {G : Globals} {db : Db} {user_id mall_id it : Int32}

/-! ## The two decoders -/

theorem mem_userLabelSet (redis : G.type = .redis) (pos : 0 < user_id)
    {h : AList fun _ : Text => Text}
    (hash : hashAt (db (Key.userLabelSet user_id.toInt).text) = some h)
    (plain : ∀ f ∈ h, nul ∉ f) (f : Text) : f ∈ userLabelSet G db user_id ↔ f ∈ h := by
  simp only [userLabelSet, if_pos pos, hgetFields, redis, CBaseMdb.hget,
    hget_hash (Key.isWord_text _).cString hash, Option.getD_some, List.map_map, List.mem_map,
    Function.comp_apply]
  constructor
  · rintro ⟨e, he, rfl⟩
    have mem : e.1 ∈ h := List.mem_keys_of_mem he
    rw [cString_of_no_nul (plain _ mem)]
    exact mem
  · intro mem
    obtain ⟨v, he⟩ := List.exists_of_mem_keys mem
    exact ⟨_, he, cString_of_no_nul (plain _ mem)⟩

theorem mem_groupLabelSet (redis : G.type = .redis) {S : Finset Text}
    (set : setAt (db (Key.adGroup mall_id.toInt it.toInt .targetLabelSet).text) = some S) (l : Text) :
    l ∈ groupLabelSet G db mall_id it ↔
      ∃ t ∈ S, Ty.extract G.m.doubles G.m.uninit .string (cString t) = l := by
  simp only [groupLabelSet, smembers, redis, CBaseMdb.smembers, RedisDb.smembers, serve,
    (Key.isWord_text _).cString, set, RedisDb.members, Option.getD_some, List.mem_map,
    G.m.mem_listing]

theorem keptByLabels_iff (redis : G.type = .redis) (pos : 0 < user_id)
    {h : AList fun _ : Text => Text}
    (hash : hashAt (db (Key.userLabelSet user_id.toInt).text) = some h) {S : Finset Text}
    (set : setAt (db (Key.adGroup mall_id.toInt it.toInt .targetLabelSet).text) = some S)
    (some : S.Nonempty) (plain : ∀ l, l ∈ h ∨ l ∈ S → nul ∉ l) :
    keptByLabels G db user_id mall_id it = true ↔ ∃ t ∈ S, word t ∈ h := by
  have full : (groupLabelSet G db mall_id it).isEmpty = false := by
    obtain ⟨t, ht⟩ := some
    have mem := (mem_groupLabelSet redis set _).mpr ⟨t, ht, rfl⟩
    cases labels : groupLabelSet G db mall_id it with
    | nil => rw [labels] at mem; cases mem
    | cons a as => rfl
  simp only [keptByLabels, pos, decide_true, full, Bool.not_false, Bool.true_and, Bool.not_not,
    checkIntersection, List.any_eq_true, List.contains_iff_mem]
  constructor
  · rintro ⟨l, hl, mem⟩
    obtain ⟨t, ht, read⟩ := (mem_groupLabelSet redis set l).mp hl
    rw [cString_of_no_nul (plain t (Or.inr ht)), extract_eq_word] at read
    refine ⟨t, ht, ?_⟩
    rw [read]
    exact (mem_userLabelSet redis pos hash (fun f hf => plain f (Or.inl hf)) l).mp mem
  · rintro ⟨t, ht, mem⟩
    refine ⟨word t, (mem_groupLabelSet redis set _).mpr ⟨t, ht, ?_⟩,
      (mem_userLabelSet redis pos hash (fun f hf => plain f (Or.inl hf)) _).mpr mem⟩
    rw [cString_of_no_nul (plain t (Or.inr ht)), extract_eq_word]

/-! ## Labels with white space -/

def HasSpace (l : Text) : Prop := ∃ c ∈ l, isSpace c = true

/-- Some label without white space is shared; or, among those of the group with
white space, one is the user's as a whole if and only if the first word of one is. -/
def LabelsAgree (h : AList fun _ : Text => Text) (S : Finset Text) : Prop :=
  (∃ l ∈ S, ¬HasSpace l ∧ l ∈ h) ∨
    ((∃ l ∈ S, HasSpace l ∧ l ∈ h) ↔ ∃ l ∈ S, HasSpace l ∧ word l ∈ h)

theorem word_of_not_hasSpace {l : Text} (h : ¬HasSpace l) : word l = l := by
  apply word_of_no_space
  intro c hc
  by_contra space
  exact h ⟨c, hc, by simpa using space⟩

/-- The filter keeps a group exactly if it shares a label with the user, as long as
the labels agree and only then. -/
theorem label_filter_exact_iff (redis : G.type = .redis) (pos : 0 < user_id)
    {h : AList fun _ : Text => Text}
    (hash : hashAt (db (Key.userLabelSet user_id.toInt).text) = some h) {S : Finset Text}
    (set : setAt (db (Key.adGroup mall_id.toInt it.toInt .targetLabelSet).text) = some S)
    (some : S.Nonempty) (labels : ∀ l, l ∈ h ∨ l ∈ S → l ≠ [] ∧ nul ∉ l) :
    (keptByLabels G db user_id mall_id it = true ↔ ∃ l, l ∈ h ∧ l ∈ S) ↔ LabelsAgree h S := by
  have kept : keptByLabels G db user_id mall_id it = true ↔
      (∃ l ∈ S, ¬HasSpace l ∧ l ∈ h) ∨ ∃ l ∈ S, HasSpace l ∧ word l ∈ h := by
    rw [keptByLabels_iff redis pos hash set some fun l hl => (labels l hl).2]
    constructor
    · rintro ⟨l, hl, mem⟩
      by_cases space : HasSpace l
      · exact Or.inr ⟨l, hl, space, mem⟩
      · exact Or.inl ⟨l, hl, space, word_of_not_hasSpace space ▸ mem⟩
    · rintro (⟨l, hl, space, mem⟩ | ⟨l, hl, -, mem⟩)
      · exact ⟨l, hl, (word_of_not_hasSpace space).symm ▸ mem⟩
      · exact ⟨l, hl, mem⟩
  have shared : (∃ l, l ∈ h ∧ l ∈ S) ↔
      (∃ l ∈ S, ¬HasSpace l ∧ l ∈ h) ∨ ∃ l ∈ S, HasSpace l ∧ l ∈ h := by
    constructor
    · rintro ⟨l, mem, hl⟩
      by_cases space : HasSpace l
      · exact Or.inr ⟨l, hl, space, mem⟩
      · exact Or.inl ⟨l, hl, space, mem⟩
    · rintro (⟨l, hl, -, mem⟩ | ⟨l, hl, -, mem⟩) <;> exact ⟨l, mem, hl⟩
  rw [kept, shared, LabelsAgree]
  by_cases plainly : ∃ l ∈ S, ¬HasSpace l ∧ l ∈ h
  · simp only [plainly, true_or]
  · simp only [plainly, false_or]
    exact Iff.comm

end

/-! ## Labels to compute with -/

/-- The fields of a user's hash, one for each label. -/
def fieldsOf (labels : List Text) : AList fun _ : Text => Text :=
  labels.foldl (fun h l => h.insert l ['1']) ∅

/-- User 1 has the labels `own`, and group 2 of mall 0 aims at `sought`. -/
def labelsDb (own sought : List Text) : Db :=
  (Db.empty.put (Key.userLabelSet (1 : Int32).toInt).text (.hash (fieldsOf own))).put
    (Key.adGroup (0 : Int32).toInt (2 : Int32).toInt .targetLabelSet).text (.set sought.toFinset)

def plainRedis : Globals := ⟨.redis, Machine.plain, utcFirstDay, 1, 1⟩

theorem hashAt_labelsDb (own sought : List Text) :
    hashAt (labelsDb own sought (Key.userLabelSet (1 : Int32).toInt).text) =
      some (fieldsOf own) := by
  rw [labelsDb, Db.put_of_ne (by decide), Db.put_self]
  rfl

theorem setAt_labelsDb (own sought : List Text) : setAt (labelsDb own sought
    (Key.adGroup (0 : Int32).toInt (2 : Int32).toInt .targetLabelSet).text) =
      some sought.toFinset := by
  rw [labelsDb, Db.put_self]
  rfl

theorem mem_foldl_fields (labels : List Text) (h : AList fun _ : Text => Text) (l : Text) :
    l ∈ labels.foldl (fun h l => h.insert l ['1']) h ↔ l ∈ h ∨ l ∈ labels := by
  induction labels generalizing h with
  | nil => simp
  | cons a labels ih =>
    rw [List.foldl_cons, ih, AList.mem_insert, List.mem_cons]
    tauto

theorem mem_fieldsOf {labels : List Text} {l : Text} : l ∈ fieldsOf labels ↔ l ∈ labels := by
  rw [fieldsOf, mem_foldl_fields, or_iff_right (AList.notMem_empty l)]

theorem labels_labelsDb {own sought : List Text}
    (plain : ∀ l ∈ own ++ sought, l ≠ [] ∧ nul ∉ l) (l : Text)
    (h : l ∈ fieldsOf own ∨ l ∈ sought.toFinset) : l ≠ [] ∧ nul ∉ l := by
  rw [mem_fieldsOf, List.mem_toFinset] at h
  exact plain l (List.mem_append.mpr h)

/-- The labels of the user. -/
def ownLabels : List Text := ["coffee lover".toList, "vip".toList, "student".toList]

/-- The labels a group aims at. -/
def soughtLabels : List Text := ["young mother".toList, "vip".toList]

/-- A label of one word is found among others. -/
theorem label_filter_exact_iff_plain :
    keptByLabels plainRedis (labelsDb ownLabels soughtLabels) 1 0 2 = true := by
  have space : ¬HasSpace "vip".toList := by simp [HasSpace, isSpace]
  have sought : "vip".toList ∈ soughtLabels.toFinset := by decide
  have own : "vip".toList ∈ fieldsOf ownLabels := mem_fieldsOf.mpr (by decide)
  have redis : plainRedis.type = .redis := rfl
  have kept := (label_filter_exact_iff redis (by decide) (hashAt_labelsDb _ _)
    (setAt_labelsDb _ _) ⟨_, sought⟩ (labels_labelsDb (by decide))).mpr
      (Or.inl ⟨_, sought, space, own⟩)
  exact kept.mpr ⟨_, own, sought⟩

/-- A label of two words is not found, although user and group share it. -/
theorem label_of_two_words_missed :
    hashAt (labelsDb ["coffee lover".toList] ["coffee lover".toList]
        (Key.userLabelSet (1 : Int32).toInt).text) = some (fieldsOf ["coffee lover".toList]) ∧
      setAt (labelsDb ["coffee lover".toList] ["coffee lover".toList]
        (Key.adGroup (0 : Int32).toInt (2 : Int32).toInt .targetLabelSet).text) =
        some ["coffee lover".toList].toFinset ∧
      "coffee lover".toList ∈ fieldsOf ["coffee lover".toList] ∧
      keptByLabels plainRedis (labelsDb ["coffee lover".toList] ["coffee lover".toList]) 1 0 2 =
        false := by
  refine ⟨hashAt_labelsDb _ _, setAt_labelsDb _ _, mem_fieldsOf.mpr (List.mem_singleton_self _), ?_⟩
  decide +kernel

end AdMap

end SimpleDsp
