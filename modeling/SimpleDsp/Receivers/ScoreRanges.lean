import SimpleDsp.Receivers.Listings
import SimpleDsp.Receivers.UserOp

/-!
# Score ranges on Redis

`RedisDb` converts scores and bounds from double to `long long`, which cuts them
off and is undefined where the result is out of range.

* `zaddAll_spec`: the sorted set after any sequence of `zadd` calls;
* `range_exact_iff`: when a range of it is the exact one;
* `score_ranges_exact_iff`: together with the bounds of a request.
-/

namespace SimpleDsp

open DecimalText Truncation

/-! ## Calls on one key -/

/-- The member arrives at the server as it was sent and is read back so. -/
structure Arrives (m : Machine) {τ : Ty} (v : τ.Val) : Prop where
  word : IsWord (τ.print m.doubles v)
  read : τ.extract m.doubles m.uninit (τ.print m.doubles v) = v

theorem arrives_of_integral {m : Machine} {τ : Ty} (h : τ.integral = true) (v : τ.Val) :
    Arrives m v :=
  ⟨isWord_print m.doubles (ne_string_of_integral h) v, extract_print h v⟩

section
variable (m : Machine) {τ : Ty} (key : Text)

/-- `zadd(key, score, value)` for each of the calls; `none` when one of them is undefined. -/
def zaddAll (calls : List (Rat × τ.Val)) (db : Db) : Option Db :=
  calls.foldlM (fun db c => (longLong c.1).map fun _ => (RedisDb.zadd m τ key c.1 c.2 db).2) db

/-- `zrangebyscore(key, min, max)` after the calls. -/
def rangeAfter (calls : List (Rat × τ.Val)) (min max : Rat) (db : Db) : Option (List τ.Val) := do
  let db ← zaddAll m key calls db
  let _ ← longLong min
  let _ ← longLong max
  RedisDb.zrangebyscore m τ key min max db

/-- The score of the last call for `v`. -/
def LastScore (calls : List (Rat × τ.Val)) (v : τ.Val) (s : Rat) : Prop :=
  ∃ before after, calls = before ++ (s, v) :: after ∧ ∀ c ∈ after, c.2 ≠ v

/-- The members whose last score is between the bounds, each once, lower scores first. -/
structure IsRange (calls : List (Rat × τ.Val)) (min max : Rat) (l : List τ.Val) : Prop where
  nodup : l.Nodup
  mem : ∀ v, v ∈ l ↔ ∃ s, LastScore calls v s ∧ min ≤ s ∧ s ≤ max
  ascending : l.Pairwise fun a b => ∀ s t, LastScore calls a s → LastScore calls b t → s ≤ t

/-- What is cut off makes no difference to any comparison. -/
structure Distinguished (calls : List (Rat × τ.Val)) (min max : Rat) : Prop where
  scores : ∀ c ∈ calls, Convertible c.1
  bounds : Convertible min ∧ Convertible max
  below : ∀ v s, LastScore calls v s → truncated s = truncated min → min ≤ s
  above : ∀ v s, LastScore calls v s → truncated s = truncated max → s ≤ max
  /-- The server orders members by their texts where it sees no difference. -/
  ties : ∀ a b s t, LastScore calls a s → LastScore calls b t → min ≤ s → s ≤ max → min ≤ t →
    t ≤ max → truncated s = truncated t → τ.print m.doubles a < τ.print m.doubles b → s ≤ t

end

section
variable {m : Machine} {τ : Ty} {key : Text} {calls : List (Rat × τ.Val)} {v : τ.Val} {s t : Rat}

theorem not_lastScore_nil : ¬LastScore ([] : List (Rat × τ.Val)) v s := by
  rintro ⟨before, after, e, -⟩
  exact absurd e (by simp)

theorem LastScore.mem (h : LastScore calls v s) : (s, v) ∈ calls := by
  obtain ⟨before, after, rfl, -⟩ := h
  simp

theorem lastScore_snoc {c : Rat × τ.Val} :
    LastScore (calls ++ [c]) v s ↔ c = (s, v) ∨ c.2 ≠ v ∧ LastScore calls v s := by
  constructor
  · rintro ⟨before, after, e, later⟩
    obtain rfl | ⟨after, last, rfl⟩ := List.eq_nil_or_concat after
    · exact Or.inl (List.singleton_inj.mp (List.append_inj' e rfl).2)
    · rw [List.concat_eq_append] at e later
      rw [← List.cons_append, ← List.append_assoc] at e
      obtain ⟨rfl, last_eq⟩ := List.append_inj' e rfl
      obtain rfl := List.singleton_inj.mp last_eq
      refine Or.inr ⟨later c (by simp), before, after, rfl, ?_⟩
      exact fun d hd => later d (List.mem_append_left _ hd)
  · rintro (rfl | ⟨ne, before, after, rfl, later⟩)
    · exact ⟨calls, [], rfl, by simp⟩
    · refine ⟨before, after ++ [c], by simp, ?_⟩
      intro d hd
      obtain hd | hd := List.mem_append.mp hd
      · exact later d hd
      · rw [List.mem_singleton.mp hd]
        exact ne

theorem LastScore.unique (h : LastScore calls v s) (h' : LastScore calls v t) : s = t := by
  induction calls using List.reverseRecOn with
  | nil => exact absurd h not_lastScore_nil
  | append_singleton calls c ih =>
    obtain rfl | ⟨ne, h⟩ := lastScore_snoc.mp h
    · obtain same | ⟨ne, -⟩ := lastScore_snoc.mp h'
      · exact congrArg Prod.fst same
      · exact absurd rfl ne
    · obtain rfl | ⟨-, h'⟩ := lastScore_snoc.mp h'
      · exact absurd rfl ne
      · exact ih h h'

theorem LastScore.arrives (last : LastScore calls v s) (arrive : ∀ c ∈ calls, Arrives m c.2) :
    Arrives m v :=
  arrive (s, v) last.mem

theorem Arrives.inj {a b : τ.Val} (ha : Arrives m a) (hb : Arrives m b)
    (h : τ.print m.doubles a = τ.print m.doubles b) : a = b := by
  rw [← ha.read, h, hb.read]

theorem zaddAll_snoc (calls : List (Rat × τ.Val)) (c : Rat × τ.Val) (db : Db) :
    zaddAll m key (calls ++ [c]) db = (zaddAll m key calls db).bind fun db =>
      (longLong c.1).map fun _ => (RedisDb.zadd m τ key c.1 c.2 db).2 := by
  unfold zaddAll
  simp only [List.foldlM_append, List.foldlM_cons, List.foldlM_nil, bind_pure]
  rfl

/-- The sorted set holds the last score of each member, cut off. -/
theorem zaddAll_spec {db : Db} (hk : IsWord key) (fresh : db key = none)
    (arrive : ∀ c ∈ calls, Arrives m c.2) (scores : ∀ c ∈ calls, Convertible c.1) :
    ∃ db' z, zaddAll m key calls db = some db' ∧ zsetAt (db' key) = some z ∧
      ∀ x t, z.lookup x = some t ↔
        ∃ v s, x = τ.print m.doubles v ∧ LastScore calls v s ∧ t = truncated s := by
  induction calls using List.reverseRecOn with
  | nil =>
    refine ⟨db, ∅, rfl, by rw [fresh]; rfl, ?_⟩
    intro x t
    constructor
    · intro found
      cases found
    · rintro ⟨v, s, -, last, -⟩
      exact absurd last not_lastScore_nil
  | append_singleton calls c ih =>
    have earlier : ∀ d ∈ calls, d ∈ calls ++ [c] := fun d hd => List.mem_append_left _ hd
    have here : c ∈ calls ++ [c] := List.mem_append_right _ (List.mem_singleton.mpr rfl)
    obtain ⟨db', z, ran, held, lookup⟩ :=
      ih (fun d hd => arrive d (earlier d hd)) fun d hd => scores d (earlier d hd)
    have score : longLong c.1 = some (truncated c.1) := longLong_eq_some.mpr ⟨scores c here, rfl⟩
    refine ⟨(RedisDb.zadd m τ key c.1 c.2 db').2,
      z.insert (τ.print m.doubles c.2) (truncated c.1), ?_, ?_, ?_⟩
    · rw [zaddAll_snoc, ran, Option.bind_some, score, Option.map_some]
    · rw [CBaseMdb.redis_zadd_print hk (arrive c here).word, m.longLong_of_convertible (scores c here)]
      exact CBaseMdb.zsetAt_addScore held
    · intro x t
      by_cases own : x = τ.print m.doubles c.2
      · subst own
        rw [AList.lookup_insert]
        constructor
        · intro same
          exact ⟨c.2, c.1, rfl, lastScore_snoc.mpr (Or.inl rfl), (Option.some.inj same).symm⟩
        · rintro ⟨v, s, same, last, rfl⟩
          obtain rfl := (arrive c here).inj (last.arrives arrive) same
          obtain here | ⟨ne, -⟩ := lastScore_snoc.mp last
          · have score : c.1 = s := congrArg Prod.fst here
            rw [score]
          · exact absurd rfl ne
      · rw [AList.lookup_insert_ne own, lookup]
        have other {v : τ.Val} (hx : x = τ.print m.doubles v) : c.2 ≠ v := by
          rintro rfl
          exact own hx
        constructor
        · rintro ⟨v, s, hx, last, ht⟩
          exact ⟨v, s, hx, lastScore_snoc.mpr (Or.inr ⟨other hx, last⟩), ht⟩
        · rintro ⟨v, s, hx, last, ht⟩
          obtain rfl | ⟨-, last⟩ := lastScore_snoc.mp last
          · exact absurd rfl (other hx)
          · exact ⟨v, s, hx, last, ht⟩

/-- A range is what the server lists of that set, read back. -/
structure Ranged (m : Machine) (calls : List (Rat × τ.Val)) (min max : Rat) (l : List τ.Val) :
    Prop where
  nodup : l.Nodup
  mem : ∀ v, v ∈ l ↔ ∃ s, LastScore calls v s ∧ truncated min ≤ truncated s ∧
    truncated s ≤ truncated max
  ordered : l.Pairwise fun a b => ∀ s t, LastScore calls a s → LastScore calls b t →
    truncated s < truncated t ∨
      truncated s = truncated t ∧ τ.print m.doubles a ≤ τ.print m.doubles b

theorem ranged_rangeByScore {z : AList fun _ : Text => Rat} {min max : Rat}
    (arrive : ∀ c ∈ calls, Arrives m c.2)
    (lookup : ∀ x t, z.lookup x = some t ↔
      ∃ v s, x = τ.print m.doubles v ∧ LastScore calls v s ∧ t = truncated s) :
    Ranged m calls min max ((rangeByScore z (truncated min) (truncated max)).map fun t =>
      τ.extract m.doubles m.uninit (cString t)) := by
  have read {v : τ.Val} (h : Arrives m v) :
      τ.extract m.doubles m.uninit (cString (τ.print m.doubles v)) = v := by
    rw [h.word.cString, h.read]
  have listed {x : Text} (h : x ∈ rangeByScore z (truncated min) (truncated max)) :
      ∃ v s, x = τ.print m.doubles v ∧ LastScore calls v s ∧ truncated min ≤ truncated s ∧
        truncated s ≤ truncated max := by
    obtain ⟨t, found, inside⟩ := UserMap.mem_rangeByScore.mp h
    obtain ⟨v, s, hx, last, rfl⟩ := (lookup x t).mp found
    exact ⟨v, s, hx, last, Int.cast_le.mp inside.1, Int.cast_le.mp inside.2⟩
  constructor
  · apply List.Nodup.map_on _ (UserMap.nodup_rangeByScore _ _ _)
    intro x hx y hy same
    obtain ⟨v, s, rfl, last, -⟩ := listed hx
    obtain ⟨w, t, rfl, last', -⟩ := listed hy
    rw [read (last.arrives arrive), read (last'.arrives arrive)] at same
    rw [same]
  · intro v
    constructor
    · intro h
      obtain ⟨x, hx, rfl⟩ := List.mem_map.mp h
      obtain ⟨w, s, rfl, last, inside⟩ := listed hx
      rw [read (last.arrives arrive)]
      exact ⟨s, last, inside⟩
    · rintro ⟨s, last, inside⟩
      refine List.mem_map.mpr ⟨τ.print m.doubles v, ?_, read (last.arrives arrive)⟩
      exact UserMap.mem_rangeByScore.mpr ⟨truncated s, (lookup _ _).mpr ⟨v, s, rfl, last, rfl⟩,
        Int.cast_le.mpr inside.1, Int.cast_le.mpr inside.2⟩
  · rw [List.pairwise_map]
    apply (UserMap.ordered_rangeByScore z _ _).imp_of_mem
    intro x y hx hy order s t hs ht
    obtain ⟨v, s', rfl, last, -⟩ := listed hx
    obtain ⟨w, t', rfl, last', -⟩ := listed hy
    rw [read (last.arrives arrive)] at hs ⊢
    rw [read (last'.arrives arrive)] at ht ⊢
    have scored := order _ ((lookup _ _).mpr ⟨v, s, rfl, hs, rfl⟩) _
      ((lookup _ _).mpr ⟨w, t, rfl, ht, rfl⟩)
    exact_mod_cast scored

theorem rangeAfter_ranged {db : Db} {min max : Rat} (hk : IsWord key) (fresh : db key = none)
    (arrive : ∀ c ∈ calls, Arrives m c.2) (scores : ∀ c ∈ calls, Convertible c.1)
    (bounds : Convertible min ∧ Convertible max) :
    ∃ l, rangeAfter m key calls min max db = some l ∧ Ranged m calls min max l := by
  obtain ⟨db', z, ran, held, lookup⟩ := zaddAll_spec hk fresh arrive scores
  refine ⟨_, ?_, ranged_rangeByScore arrive lookup⟩
  have lo : longLong min = some (truncated min) := longLong_eq_some.mpr ⟨bounds.1, rfl⟩
  have hi : longLong max = some (truncated max) := longLong_eq_some.mpr ⟨bounds.2, rfl⟩
  simp only [rangeAfter, ran, lo, hi, Option.bind_eq_bind, Option.bind_some]
  simp only [RedisDb.zrangebyscore, hk.cString, serve, held, strictInt_decimal, RedisDb.members,
    m.longLong_of_convertible bounds.1, m.longLong_of_convertible bounds.2]

/-- No result without all conversions. -/
theorem convertible_of_zaddAll {db db' : Db} (h : zaddAll m key calls db = some db') :
    ∀ c ∈ calls, Convertible c.1 := by
  induction calls using List.reverseRecOn generalizing db' with
  | nil => exact fun c hc => absurd hc List.not_mem_nil
  | append_singleton calls c ih =>
    rw [zaddAll_snoc] at h
    obtain ⟨before, ran, h⟩ := Option.bind_eq_some_iff.mp h
    obtain ⟨score, converted, -⟩ := Option.map_eq_some_iff.mp h
    intro d hd
    obtain hd | hd := List.mem_append.mp hd
    · exact ih ran d hd
    · rw [List.mem_singleton.mp hd]
      exact (longLong_eq_some.mp converted).1

theorem convertible_of_rangeAfter {db : Db} {min max : Rat} {l : List τ.Val}
    (h : rangeAfter m key calls min max db = some l) :
    (∀ c ∈ calls, Convertible c.1) ∧ Convertible min ∧ Convertible max := by
  obtain ⟨db', ran, h⟩ := Option.bind_eq_some_iff.mp h
  obtain ⟨lo, hlo, h⟩ := Option.bind_eq_some_iff.mp h
  obtain ⟨hi, hhi, -⟩ := Option.bind_eq_some_iff.mp h
  exact ⟨convertible_of_zaddAll ran, (longLong_eq_some.mp hlo).1, (longLong_eq_some.mp hhi).1⟩

/-- Of two elements of a list, one comes first. -/
theorem pairwise_or {α : Type} {R : α → α → Prop} {l : List α} (h : l.Pairwise R) {a b : α}
    (ha : a ∈ l) (hb : b ∈ l) (ne : a ≠ b) : R a b ∨ R b a := by
  have either : l.Pairwise fun a b => R a b ∨ R b a := h.imp Or.inl
  have symm : Std.Symm fun a b => R a b ∨ R b a := ⟨fun _ _ => Or.symm⟩
  exact either.forall ha hb ne

/-- The server's order is the order of the scores exactly if ties are in it. -/
theorem range_exact_iff {db : Db} {min max : Rat} (hk : IsWord key) (fresh : db key = none)
    (arrive : ∀ c ∈ calls, Arrives m c.2) (le : min ≤ max) :
    (∃ l, rangeAfter m key calls min max db = some l ∧ IsRange calls min max l) ↔
      Distinguished m calls min max := by
  have ends := truncated_mono le
  constructor
  · rintro ⟨l, result, exact_⟩
    obtain ⟨scores, bounds⟩ := convertible_of_rangeAfter result
    obtain ⟨l', result', ranged⟩ := rangeAfter_ranged hk fresh arrive scores bounds
    obtain rfl := Option.some.inj (result'.symm.trans result)
    have inside {v : τ.Val} {s : Rat} (last : LastScore calls v s)
        (between : truncated min ≤ truncated s ∧ truncated s ≤ truncated max) :
        min ≤ s ∧ s ≤ max := by
      obtain ⟨t, last', exactly⟩ := (exact_.mem v).mp ((ranged.mem v).mpr ⟨s, last, between⟩)
      rwa [last.unique last']
    refine ⟨scores, bounds, ?_, ?_, ?_⟩
    · intro v s last same
      exact (inside last ⟨same.ge, same.le.trans ends⟩).1
    · intro v s last same
      exact (inside last ⟨ends.trans same.ge, same.le⟩).2
    · intro a b s t last last' hs hs' ht ht' same before
      have ha := (exact_.mem a).mpr ⟨s, last, hs, hs'⟩
      have hb := (exact_.mem b).mpr ⟨t, last', ht, ht'⟩
      have ne : a ≠ b := by
        rintro rfl
        exact lt_irrefl _ before
      have both := ranged.ordered.and exact_.ascending
      obtain ⟨-, up⟩ | ⟨order, -⟩ := pairwise_or both ha hb ne
      · exact up s t last last'
      · obtain lt | ⟨-, after⟩ := order t s last' last
        · omega
        · exact absurd before (not_lt.mpr after)
  · intro dist
    obtain ⟨l, result, ranged⟩ := rangeAfter_ranged hk fresh arrive dist.scores dist.bounds
    have inside {v : τ.Val} {s : Rat} (last : LastScore calls v s) :
        truncated min ≤ truncated s ∧ truncated s ≤ truncated max ↔ min ≤ s ∧ s ≤ max := by
      constructor
      · rintro ⟨lo, hi⟩
        constructor
        · by_contra low
          exact low (dist.below v s last (le_antisymm (truncated_mono (not_le.mp low).le) lo))
        · by_contra high
          exact high (dist.above v s last (le_antisymm hi (truncated_mono (not_le.mp high).le)))
      · exact fun h => ⟨truncated_mono h.1, truncated_mono h.2⟩
    have mem (v : τ.Val) : v ∈ l ↔ ∃ s, LastScore calls v s ∧ min ≤ s ∧ s ≤ max := by
      rw [ranged.mem]
      exact exists_congr fun s => and_congr_right fun last => inside last
    refine ⟨l, result, ranged.nodup, mem, ?_⟩
    apply ranged.ordered.imp_of_mem
    intro a b ha hb order s t last last'
    obtain lt | ⟨same, text⟩ := order s t last last'
    · by_contra down
      exact absurd (truncated_mono (not_le.mp down).le) (not_le.mpr lt)
    · by_cases eq : a = b
      · subst eq
        exact (last.unique last').le
      · have before : τ.print m.doubles a < τ.print m.doubles b := by
          apply lt_of_le_of_ne text
          intro e
          exact eq ((last.arrives arrive).inj (last'.arrives arrive) e)
        obtain ⟨s', hs', lo, hi⟩ := (mem a).mp ha
        obtain ⟨t', ht', lo', hi'⟩ := (mem b).mp hb
        obtain rfl := last.unique hs'
        obtain rfl := last'.unique ht'
        exact dist.ties a b s t last last' lo hi lo' hi' same before

end

/-! ## The bounds of a request -/

namespace UserMap

/-- The bounds that a call passes to `zrangebyscore`. -/
def UserCall.range : UserCall → Option (Rat × Rat)
  | .listAll start end_ _ => some (start, end_)
  | .list start end_ _ _ => some (start, end_)
  | _ => none

/-- The bounds for which a request asks. -/
def requestRange (p : Params) : Option (Rat × Rat) :=
  match userOp p with
  | .ok c => c.range
  | .error _ => none

theorem requestRange_eq (p : Params) : requestRange p =
    if p.action = "list_all".toList ∨ p.action = "list".toList then some (p.start, p.end_)
    else none := by
  unfold requestRange userOp
  by_cases all : p.action = "list_all".toList
  · simp [all, UserCall.range]
  · by_cases one : p.action = "list".toList
    · simp [one, UserCall.range]
    · rw [if_neg (not_or.mpr ⟨all, one⟩)]
      dsimp only
      rw [if_neg all, if_neg one]
      split_ifs <;> rfl

/-- The bounds of the request, if it asks for a range, are converted as defined. -/
def RangeConverted (d : Doubles) (F : Floats) (q : List QueryItem) : Prop :=
  ∀ p b, Params.initial.read d F q = some p → requestRange p = some b →
    (longLong b.1).isSome ∧ (longLong b.2).isSome

/-- The request asks for no range, or `start` and `end` can be converted. -/
def RangeConvertible (d : Doubles) (F : Floats) (q : List QueryItem) : Prop :=
  ∀ p, Params.initial.read d F q = some p →
    p.action = "list_all".toList ∨ p.action = "list".toList →
      Convertible p.start ∧ Convertible p.end_

theorem longLong_isSome {q : Rat} : (longLong q).isSome ↔ Convertible q := by
  rw [Option.isSome_iff_exists]
  constructor
  · rintro ⟨v, h⟩
    exact (longLong_eq_some.mp h).1
  · exact fun h => ⟨_, longLong_eq_some.mpr ⟨h, rfl⟩⟩

theorem rangeConverted_iff {d : Doubles} {F : Floats} {q : List QueryItem} :
    RangeConverted d F q ↔ RangeConvertible d F q := by
  constructor
  · intro converted p read action
    obtain ⟨lo, hi⟩ := converted p (p.start, p.end_) read
      (by rw [requestRange_eq, if_pos action])
    exact ⟨longLong_isSome.mp lo, longLong_isSome.mp hi⟩
  · intro convertible p b read range
    rw [requestRange_eq] at range
    split at range
    · rename_i action
      obtain rfl := Option.some.inj range
      obtain ⟨lo, hi⟩ := convertible p read action
      exact ⟨longLong_isSome.mpr lo, longLong_isSome.mpr hi⟩
    · cases range

/-! ## Score ranges -/

/-- Ranges are exact where truncation hides no order of scores and bounds, and a
request's bounds are converted where they are in range. -/
theorem score_ranges_exact_iff (m : Machine) (F : Floats) {τ : Ty} {key : Text} {db : Db}
    (hk : IsWord key) (fresh : db key = none) (calls : List (Rat × τ.Val)) (min max : Rat)
    (arrive : ∀ c ∈ calls, Arrives m c.2) (le : min ≤ max) (q : List QueryItem) :
    ((∃ l, rangeAfter m key calls min max db = some l ∧ IsRange calls min max l) ↔
      Distinguished m calls min max) ∧
    (RangeConverted m.doubles F q ↔ RangeConvertible m.doubles F q) :=
  ⟨range_exact_iff hk fresh arrive le, rangeConverted_iff⟩

def timedCalls : List (Rat × (Ty.int).Val) := [(60, 5), (120, 6)]

theorem distinguished_timedCalls : Distinguished .plain timedCalls 60 90 where
  scores c hc := by
    unfold Convertible
    simp only [timedCalls, List.mem_cons, List.not_mem_nil, or_false] at hc
    obtain rfl | rfl := hc <;> norm_num
  bounds := by
    unfold Convertible
    norm_num
  below v s last _ := by
    have called := last.mem
    simp only [timedCalls, List.mem_cons, Prod.mk.injEq, List.not_mem_nil, or_false] at called
    obtain ⟨rfl, -⟩ | ⟨rfl, -⟩ := called <;> norm_num
  above v s last same := by
    have called := last.mem
    simp only [timedCalls, List.mem_cons, Prod.mk.injEq, List.not_mem_nil, or_false] at called
    obtain ⟨rfl, -⟩ | ⟨rfl, -⟩ := called
    · norm_num
    · exact absurd same (by decide +kernel)
  ties a b s t last last' _ le _ le' _ _ := by
    have called := last.mem
    have called' := last'.mem
    simp only [timedCalls, List.mem_cons, Prod.mk.injEq, List.not_mem_nil, or_false] at called called'
    obtain ⟨rfl, -⟩ | ⟨rfl, -⟩ := called
    · obtain ⟨rfl, -⟩ | ⟨rfl, -⟩ := called'
      · exact le_refl _
      · norm_num
    · norm_num at le

/-- The one user seen in the first minute and a half. -/
theorem score_ranges_exact_iff_timed :
    (∃ l, rangeAfter .plain (decimal 2) timedCalls 60 90 Db.empty = some l ∧
        IsRange timedCalls 60 90 l) ∧
    RangeConverted Machine.plain.doubles .plain [] := by
  have fresh : Db.empty (decimal 2) = none := rfl
  obtain ⟨range, bounds⟩ := score_ranges_exact_iff .plain .plain (isWord_decimal 2) fresh timedCalls
    60 90 (fun _ _ => arrives_of_integral rfl _) (by norm_num) []
  refine ⟨range.mpr distinguished_timedCalls, bounds.mpr ?_⟩
  intro p read asked
  obtain rfl := Option.some.inj read
  exact absurd asked (by decide)

def hugeStart : List QueryItem :=
  [⟨"action".toList, some "list_all".toList⟩, ⟨"start".toList, some "10000000000000000000".toList⟩]

def halfCall : List (Rat × (Ty.int).Val) := [(1 / 2, 5)]

/-- A score of a half is listed from three quarters on, and 10^19 is no `long long`. -/
theorem score_range_inexact :
    (rangeAfter .plain (decimal 2) halfCall (3 / 4) 1 Db.empty = some [5] ∧
      ¬IsRange halfCall (3 / 4) 1 [5]) ∧
    (∃ p, Params.initial.read Machine.plain.doubles .plain hugeStart = some p ∧
      requestRange p = some (10 ^ 19, 2 ^ 32 - 1)) ∧ longLong (10 ^ 19) = none := by
  refine ⟨⟨by decide +kernel, fun range => ?_⟩, ?_, by decide +kernel⟩
  · obtain ⟨s, last, low, -⟩ := (range.mem 5).mp (List.mem_singleton_self 5)
    have called := last.mem
    simp only [halfCall, List.mem_singleton, Prod.mk.injEq] at called
    rw [called.1] at low
    norm_num at low
  · have read : (Params.initial.read Machine.plain.doubles .plain hugeStart).map requestRange =
        some (some (10 ^ 19, 2 ^ 32 - 1)) := by decide +kernel
    exact Option.map_eq_some_iff.mp read

end UserMap

end SimpleDsp
