import SimpleDsp.AdMap.Auction
import SimpleDsp.AdMap.Labels
import SimpleDsp.AdMap.Serving

/-!
# The texts of an ad on Redis

`get_ad` reads texts with the typed `get`, which extracts one word.

* `bidding_nodes`: the entries of an answer are those of the winners;
* `ad_texts_whole_iff`: when the texts in an answer are those stored.
-/

namespace SimpleDsp

open DecimalText

namespace AdMap

section
variable (db : Db)

/-- Stored texts without white space; what is behind a NUL does not matter. -/
def PlainAt (k : Key) : Prop := ∀ t, db k.text = some (.str t) → nul ∉ t → ¬HasSpace t

/-- A text that is stored comes out as it is. -/
def WholeAt (k : Key) (served : Text) : Prop :=
  ∀ t, db k.text = some (.str t) → nul ∉ t → served = t

structure PlainTexts (mall_id ad_id : Int32) : Prop where
  content : PlainAt db (.ad mall_id.toInt ad_id.toInt .content)
  jump_url : PlainAt db (.ad mall_id.toInt ad_id.toInt .jumpUrl)

structure AdNode.Whole (mall_id : Int32) (ad_node : AdNode) : Prop where
  content : WholeAt db (.ad mall_id.toInt ad_node.id.toInt .content) ad_node.content
  jump_url : WholeAt db (.ad mall_id.toInt ad_node.id.toInt .jumpUrl) ad_node.jump_url

end

section
variable {G : Globals} {db db' : Db}

theorem word_eq_self_iff {t : Text} : word t = t ↔ ¬HasSpace t := by
  constructor
  · rintro same ⟨c, hc, space⟩
    rw [← same] at hc
    rw [isSpace_of_mem_word hc] at space
    cases space
  · exact word_of_not_hasSpace

theorem wholeAt_iff (redis : G.type = .redis) (k : Key) :
    WholeAt db k (get G db .string k []) ↔ PlainAt db k := by
  have read {t : Text} (stored : db k.text = some (.str t)) (plain : nul ∉ t) :
      get G db .string k [] = t ↔ ¬HasSpace t := by
    rw [← word_eq_self_iff]
    simp only [get, redis, CBaseMdb.get, RedisDb.get, serve, (Key.isWord_text k).cString, stored,
      cString_of_no_nul plain, extract_eq_word]
  constructor
  · intro whole t stored plain
    exact (read stored plain).mp (whole t stored plain)
  · intro plainAt t stored plain
    exact (read stored plain).mpr (plainAt t stored plain)

theorem getAd_whole_iff (redis : G.type = .redis) (mall_id show_ad_group_id show_ad_id : Int32) :
    (getAd G db mall_id show_ad_group_id show_ad_id).Whole db mall_id ↔
      PlainTexts db mall_id show_ad_id := by
  constructor
  · rintro ⟨content, jump_url⟩
    exact ⟨(wholeAt_iff redis _).mp content, (wholeAt_iff redis _).mp jump_url⟩
  · rintro ⟨content, jump_url⟩
    exact ⟨(wholeAt_iff redis _).mpr content, (wholeAt_iff redis _).mpr jump_url⟩

/-! ## The entries of an answer -/

theorem getAd_onlyCounters (same : OnlyCounters db db') (mall_id group_id ad_id : Int32) :
    getAd G db' mall_id group_id ad_id = getAd G db mall_id group_id ad_id := by
  unfold getAd
  rw [get_onlyCounters same rfl, get_onlyCounters same rfl]

theorem foldl_showBid_nodes (mall_id : Int32) (bs : List Bid) (a : Ret × AdState) :
    (bs.foldl (fun a b => showBid G mall_id b a) a).1.ad =
      a.1.ad ++ bs.map fun b => getAd G a.2.db mall_id b.group b.ad := by
  induction bs generalizing a with
  | nil => simp
  | cons b bs ih =>
    have counted : OnlyCounters a.2.db (showBid G mall_id b a).2.db :=
      onlyCounters_increaseAdTime mall_id b.ad .show a.2
    rw [List.foldl_cons, ih]
    simp only [getAd_onlyCounters counted]
    simp [showBid]

theorem bidding_nodes (pos : UserPosition) (user_id space_id mall_id : Int32) (n : Nat)
    (looks : Nat → Look) (a : Ret × AdState) :
    (bidding G pos user_id space_id mall_id n looks a).1.ad =
      a.1.ad ++ (winners G a.2.db pos user_id space_id mall_id n looks).map fun b =>
        getAd G a.2.db mall_id b.group b.ad := by
  rw [bidding_shows]
  exact foldl_showBid_nodes mall_id _ a

/-- `get_ad` gives the texts that are stored exactly if they have no white space, and so an
answer does exactly if no winner has one with white space. -/
theorem ad_texts_whole_iff (redis : G.type = .redis) (s : AdState) (mall_id : Int32) :
    (∀ group_id ad_id, (getAd G s.db mall_id group_id ad_id).Whole s.db mall_id ↔
      PlainTexts s.db mall_id ad_id) ∧
    ∀ (pos : UserPosition) (user_id space_id : Int32) (n : Nat) (looks : Nat → Look),
      (∀ ad_node ∈ (bidding G pos user_id space_id mall_id n looks (Ret.empty, s)).1.ad,
        ad_node.Whole s.db mall_id) ↔
      ∀ b ∈ winners G s.db pos user_id space_id mall_id n looks,
        PlainTexts s.db mall_id b.ad := by
  constructor
  · intro group_id ad_id
    exact getAd_whole_iff redis mall_id group_id ad_id
  · intro pos user_id space_id n looks
    have nodes := bidding_nodes (G := G) pos user_id space_id mall_id n looks (Ret.empty, s)
    rw [nodes, Ret.empty, List.nil_append, List.forall_mem_map]
    constructor
    · intro whole b hb
      exact (getAd_whole_iff redis mall_id b.group b.ad).mp (whole b hb)
    · intro plain b hb
      exact (getAd_whole_iff redis mall_id b.group b.ad).mpr (plain b hb)

/-- The ad 1 of the mall 3, with a sentence. -/
def saleAd : AdState :=
  ⟨sharedAd.db.put (Key.ad 3 1 .content).text (.str "big sale".toList), []⟩

/-- The same ad with one word and an address. -/
def wordAd : AdState :=
  ⟨(sharedAd.db.put (Key.ad 3 1 .content).text (.str "sale".toList)).put
    (Key.ad 3 1 .jumpUrl).text (.str "http://shop/sale".toList), []⟩

theorem plainTexts_wordAd : PlainTexts wordAd.db 3 1 := by
  have other : (Key.ad 3 1 .content).text ≠ (Key.ad 3 1 .jumpUrl).text := by decide
  have content : wordAd.db (Key.ad 3 1 .content).text = some (.str "sale".toList) := by
    simp only [wordAd, Db.put_of_ne other, Db.put_self]
  have jump_url : wordAd.db (Key.ad 3 1 .jumpUrl).text = some (.str "http://shop/sale".toList) := by
    simp only [wordAd, Db.put_self]
  constructor
  · intro t stored _
    obtain rfl := Val.str.inj (Option.some.inj (content.symm.trans stored))
    simp [HasSpace, isSpace]
  · intro t stored _
    obtain rfl := Val.str.inj (Option.some.inj (jump_url.symm.trans stored))
    simp [HasSpace, isSpace]

/-- The texts of the one ad are given whole, the sentence of the other is not. -/
theorem ad_texts_whole_iff_sale :
    (getAd plainGlobals wordAd.db 3 4 1).Whole wordAd.db 3 ∧
      ¬(getAd plainGlobals saleAd.db 3 4 1).Whole saleAd.db 3 := by
  constructor
  · exact ((ad_texts_whole_iff (G := plainGlobals) rfl wordAd 3).1 4 1).mpr plainTexts_wordAd
  · intro whole
    have plain := ((ad_texts_whole_iff (G := plainGlobals) rfl saleAd 3).1 4 1).mp whole
    have stored : saleAd.db (Key.ad 3 1 .content).text = some (.str "big sale".toList) :=
      Db.put_self sharedAd.db (Key.ad 3 1 .content).text (.str "big sale".toList)
    exact plain.content _ stored (by simp [nul]) ⟨' ', by decide, rfl⟩

/-- Of a sentence the page gets the first word. -/
theorem sale_cut :
    saleAd.db (Key.ad 3 1 .content).text = some (.str "big sale".toList) ∧
      (oneRequest.run plainGlobals saleAd).1.ad.map AdNode.content = ["big".toList] := by
  constructor
  · exact Db.put_self sharedAd.db (Key.ad 3 1 .content).text (.str "big sale".toList)
  · decide +kernel

end

end AdMap

end SimpleDsp
