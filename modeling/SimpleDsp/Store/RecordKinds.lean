import SimpleDsp.Lib.Records
import SimpleDsp.Store.Mdb

/-!
# Kinds of records

Neither backend knows what a key stands for: every record is text, a set, a sorted
set or a hash, and an operation of the wrong kind is refused or spoils it. What
`user_map` means by its keys is a store of typed records.

* `Key.kind`, `Suits`: the kind of every record, and the operations that fit it;
* `Represents`: the backend's records stand for typed ones;
* `Represents.run`: an operation that fits does to the typed records what it says;
* `Represents.finds`: it finds a record of the kind it expects;
* `Represents.get`: what is read is what the typed record holds;
* `StandsFor.run`: labels that are words arrive as they were sent.
-/

namespace SimpleDsp

open DecimalText

/-! ## Kinds -/

/-- A registered slice and a label are texts that may not arrive as they were sent;
of these records `Represents` tells only the kind. -/
inductive Kind
  | value (τ : Ty)
  | counter
  | members
  | scores
  | slices
  | labels
  deriving DecidableEq

def LocationProp.ty : LocationProp → Ty
  | .x | .y => .double
  | .z => .int
  | .time => .time

def LogProp.ty : LogProp → Ty
  | .mac => .ull
  | .time => .time
  | .x | .y => .double
  | .z => .int

/-- The kind of a record of `user_map`; the ads' records are no concern of its. -/
def Key.kind : Key → Option Kind
  | .location _ _ prop | .locationHex _ _ prop => some (.value prop.ty)
  | .locationShop .. => some (.value .time)
  | .logCounter .. => some .counter
  | .logDataTimeSet _ => some .slices
  | .logMacSet .. => some .members
  | .logLocLogSet .. => some .scores
  | .logEntry _ _ _ prop => some (.value prop.ty)
  | .userDuration .. | .userShopDuration .. | .shopDuration .. | .mallDuration .. => some .counter
  | .isMallVip .. => some (.value .int)
  | .vipArriveTime _ | .shopArriveTime .. => some .scores
  | .macSetDaily .. => some .members
  | .locationUpdateTime .. | .locationUpdateTimeShop .. => some .scores
  | .userLabelSet _ => some .labels
  | .userMac _ => some (.value .ull)
  | .userId _ => some (.value .int)
  | .userShopId .. => some (.value .int)
  | .adSpace .. | .adLocation .. | .ad .. | .adGroup .. | .config _ => none

theorem kind_ne_string {k : Key} {τ : Ty} (h : k.kind = some (.value τ)) : τ ≠ .string := by
  rintro rfl
  cases k with
  | location _ _ prop | locationHex _ _ prop | logEntry _ _ _ prop =>
    cases prop <;> simp [Key.kind, LocationProp.ty, LogProp.ty] at h
  | _ => simp [Key.kind] at h

/-! ## Operations that fit -/

namespace StoreOp

/-- The operation is one on records of the kind. -/
def Suits : StoreOp → Prop
  | set τ k _ => k.kind = some (.value τ)
  | get τ k _ => k.kind = some (.value τ)
  | incr k _ => k.kind = some .counter
  | sadd k v => k.kind = some .members ∧ IsWord v
  | zadd k _ v => k.kind = some .scores ∧ IsWord v ∨ k.kind = some .slices
  | hset k _ _ => k.kind = some .labels
  | zrangebyscore k _ _ => k.kind = some .scores

/-- A label and its value arrive as they are. -/
def Worded : StoreOp → Prop
  | hset _ field v => IsWord field ∧ IsWord v
  | _ => True

def Conforms (o : StoreOp) : Prop := o.Suits ∧ o.Worded

/-- The record is of the kind that the operation expects. -/
def FindsKind (v : Option Val) : StoreOp → Prop
  | set .. | get .. => ∀ x ∈ v, ∃ t, x = .str t
  | incr .. => (counterAt v).isSome = true
  | sadd .. => (setAt v).isSome = true
  | zadd .. | zrangebyscore .. => (zsetAt v).isSome = true
  | hset .. => (hashAt v).isSome = true

end StoreOp

/-- A value with its type. -/
abbrev Typed := Σ τ : Ty, τ.Val

abbrev TypedOp := Records.Op Key Typed Text Rat

abbrev TypedStore := Records.Store Key Typed Text Rat

/-- What an operation does to the typed records. -/
def StoreOp.effect : StoreOp → Option TypedOp
  | set τ k v => some (.set k ⟨τ, v⟩)
  | incr k integer => some (.count k integer.toInt)
  | sadd k v => some (.add k v)
  | zadd k score v => if k.kind = some .scores then some (.rank k v score.toInt) else none
  | hset k field v => some (.put k field v)
  | get .. | zrangebyscore .. => none

/-- The numbers a counter of the backend can show. -/
def HasRoom (type : TypeDb) (v : Int) : Prop :=
  match type with
  | .redis => InLong v
  | .tair => -2 ^ 31 ≤ v ∧ v < 2 ^ 31

instance (type : TypeDb) : DecidablePred (HasRoom type) := fun v =>
  match type with
  | .redis => inferInstanceAs (Decidable (InLong v))
  | .tair => inferInstanceAs (Decidable (_ ∧ _))

theorem hasRoom_zero (type : TypeDb) : HasRoom type 0 := by
  cases type with
  | redis => exact ⟨by decide, by decide⟩
  | tair => exact ⟨by decide, by decide⟩

/-! ## Representations -/

/-- A value as it is stored, if there is one. -/
def encoded (type : TypeDb) (m : Machine) (v : Typed) : Val := CBaseMdb.encode type m v.1 v.2

/-- The record `v` stands for what the typed store has under `k`. -/
def Kind.Holds (type : TypeDb) (m : Machine) (a : TypedStore) (k : Key) (v : Option Val) :
    Kind → Prop
  | .value τ => v = (a.value k).map (encoded type m) ∧ ∀ x ∈ a.value k, x.1 = τ
  | .counter => counterAt v = some (a.counter k) ∧ HasRoom type (a.counter k)
  | .members => ∃ s, setAt v = some s ∧ ∀ x, x ∈ s ↔ ∃ y ∈ a.members k, CBaseMdb.storedWord type y = x
  | .scores => ∃ z, zsetAt v = some z ∧ ∀ x, z.lookup (CBaseMdb.storedWord type x) = a.score k x
  | .slices => (zsetAt v).isSome = true
  | .labels => (hashAt v).isSome = true

/-- Every record of `user_map` stands for a typed one. -/
def Represents (type : TypeDb) (m : Machine) (a : TypedStore) (db : Db) : Prop :=
  ∀ (k : Key) (kind : Kind), k.kind = some kind → kind.Holds type m a k (db k.text)

variable {type : TypeDb} {m : Machine} {a : TypedStore} {db : Db}

theorem represents_empty : Represents type m .empty .empty := by
  intro k kind _
  cases kind with
  | value τ => exact ⟨rfl, by simp [Records.Store.empty]⟩
  | counter => exact ⟨rfl, hasRoom_zero type⟩
  | members => exact ⟨∅, rfl, by simp [Records.Store.empty]⟩
  | scores => exact ⟨∅, rfl, fun x => rfl⟩
  | slices | labels => rfl

theorem Kind.Holds.of_same {a' : TypedStore} {k : Key} {v : Option Val} {kind : Kind}
    (h : kind.Holds type m a k v) (same : Records.SameAt k a' a) : kind.Holds type m a' k v := by
  cases kind with
  | value τ =>
    unfold Kind.Holds
    rw [same.value]
    exact h
  | counter =>
    unfold Kind.Holds
    rw [same.counter]
    exact h
  | members =>
    unfold Kind.Holds
    rw [same.members]
    exact h
  | scores =>
    unfold Kind.Holds
    rw [same.score]
    exact h
  | slices | labels => exact h

theorem Represents.finds (h : Represents type m a db) {o : StoreOp} (fits : o.Suits) :
    o.FindsKind (db o.key.text) := by
  have text {k : Key} {τ : Ty} (kind : k.kind = some (.value τ)) :
      ∀ x ∈ db k.text, ∃ t, x = .str t := by
    obtain ⟨stored, -⟩ := h k _ kind
    rw [stored]
    intro x here
    obtain ⟨v, -, rfl⟩ := Option.map_eq_some_iff.mp here
    cases type with
    | redis => exact ⟨_, rfl⟩
    | tair => exact ⟨_, rfl⟩
  cases o with
  | set | get => exact text fits
  | incr k integer => exact Option.isSome_of_eq_some (h k _ fits).1
  | sadd k v =>
    obtain ⟨s, here, -⟩ := h k _ fits.1
    exact Option.isSome_of_eq_some here
  | zadd k score v =>
    rcases fits with ⟨scores, -⟩ | slices
    · obtain ⟨z, here, -⟩ := h k _ scores
      exact Option.isSome_of_eq_some here
    · exact h k _ slices
  | hset k field v => exact h k _ fits
  | zrangebyscore k =>
    obtain ⟨z, here, -⟩ := h k _ fits
    exact Option.isSome_of_eq_some here

/-! ## One operation -/

theorem key_effect {o : StoreOp} {e : TypedOp} (h : o.effect = some e) : e.key = o.key := by
  cases o with
  | zadd k score v =>
    obtain ⟨-, same⟩ := Option.ite_none_right_eq_some.mp h
    obtain rfl := Option.some.inj same
    rfl
  | set | incr | sadd | hset =>
    obtain rfl := Option.some.inj h
    rfl
  | get | zrangebyscore => cases h

def typedAfter (type : TypeDb) (a : TypedStore) (o : StoreOp) : TypedStore :=
  a.run (HasRoom type) o.effect.toList

theorem typedAfter_frame {o : StoreOp} {k : Key} (h : k ≠ o.key) : Records.SameAt k (typedAfter type a o) a := by
  unfold typedAfter
  cases e : o.effect with
  | none => exact ⟨rfl, rfl, rfl, rfl, rfl⟩
  | some op => exact Records.act_frame _ (by rwa [key_effect e]) a

theorem holds_set {τ : Ty} {k : Key} (v : τ.Val) (fits : k.kind = some (.value τ)) :
    (Kind.value τ).Holds type m (typedAfter type a (.set τ k v)) k
      (((StoreOp.set τ k v).run type m db).2 k.text) := by
  have stored : ((StoreOp.set τ k v).run type m db).2 k.text =
      some (encoded type m ⟨τ, v⟩) := by
    rw [StoreOp.run_set (kind_ne_string fits)]
    exact Db.put_self db _ _
  have now : (typedAfter type a (.set τ k v)).value k = some ⟨τ, v⟩ := Function.update_self ..
  unfold Kind.Holds
  rw [stored, now]
  refine ⟨rfl, ?_⟩
  rintro _ ⟨⟩
  rfl

theorem countUp_hasRoom {type : TypeDb} {c n : Int} (h : HasRoom type c) :
    HasRoom type (Records.countUp (HasRoom type) c n) :=
  Records.fits_countUp h n

theorem counter_incr {k : Key} {integer : Int32} {c : Int} (h : counterAt (db k.text) = some c)
    (room : HasRoom type c) :
    counterAt (((StoreOp.incr k integer).run type m db).2 k.text) =
      some (Records.countUp (HasRoom type) c integer.toInt) := by
  unfold Records.countUp
  cases type with
  | redis =>
    have number : strictInt (decimal integer.toInt) = some integer.toInt := strictInt_decimal _
    simp only [StoreOp.run, CBaseMdb.incr, RedisDb.incr, k.isWord_text.cString]
    by_cases fits : HasRoom .redis (c + integer.toInt)
    · rw [serve_incrby h number ⟨room, fits⟩, if_pos fits]
      simp only [Db.put_self, CBaseMdb.counterAt_decimal]
    · rw [serve_incrby_overflow h number fun both => fits both.2, if_neg fits, h]
  | tair =>
    simp only [StoreOp.run, CBaseMdb.incr, TairDb.incr, h]
    by_cases fits : HasRoom .tair (c + integer.toInt)
    · have inside : -2 ^ 31 ≤ c + integer.toInt ∧ c + integer.toInt < 2 ^ 31 := fits
      rw [if_pos fits, if_pos inside]
      simp only [TairDb.flag, if_true, Db.put_self, CBaseMdb.counterAt_decimal]
    · have outside : ¬(-2 ^ 31 ≤ c + integer.toInt ∧ c + integer.toInt < 2 ^ 31) := fits
      rw [if_neg fits, if_neg outside]
      exact h

theorem holds_incr {k : Key} {integer : Int32}
    (h : Kind.counter.Holds type m a k (db k.text)) :
    Kind.counter.Holds type m (typedAfter type a (.incr k integer)) k
      (((StoreOp.incr k integer).run type m db).2 k.text) := by
  have now : (typedAfter type a (.incr k integer)).counter k =
      Records.countUp (HasRoom type) (a.counter k) integer.toInt := Function.update_self ..
  unfold Kind.Holds
  rw [now]
  exact ⟨counter_incr h.1 h.2, countUp_hasRoom h.2⟩

theorem sadd_word {k : Key} {x : Text} (h : IsWord x) (db : Db) :
    (CBaseMdb.sadd type m .string k.text x db).2 k.text =
      CBaseMdb.addMember (CBaseMdb.storedWord type x) (db k.text) := by
  cases type with
  | redis => exact CBaseMdb.redis_sadd h db
  | tair =>
    simp only [CBaseMdb.sadd, TairDb.sadd, CBaseMdb.addMember, CBaseMdb.storedWord, Ty.bytes]
    cases e : setAt (db k.text) with
    | none => rfl
    | some s => simp [TairDb.flag]

theorem holds_sadd {k : Key} {x : Text} (word : IsWord x)
    (h : Kind.members.Holds type m a k (db k.text)) :
    Kind.members.Holds type m (typedAfter type a (.sadd k x)) k
      (((StoreOp.sadd k x).run type m db).2 k.text) := by
  obtain ⟨s, here, same⟩ := h
  have now : (typedAfter type a (.sadd k x)).members k = insert x (a.members k) := Function.update_self ..
  refine ⟨insert (CBaseMdb.storedWord type x) s, ?_, ?_⟩
  · change setAt ((CBaseMdb.sadd type m .string k.text x db).2 k.text) = _
    rw [sadd_word word]
    exact CBaseMdb.setAt_addMember here
  · intro y
    rw [now, Finset.mem_insert, same]
    simp only [Set.mem_insert_iff, exists_eq_or_imp]
    exact or_congr eq_comm Iff.rfl

theorem holds_zadd {k : Key} {score : Int64} {x : Text} (word : IsWord x)
    (kind : k.kind = some .scores) (h : Kind.scores.Holds type m a k (db k.text)) :
    Kind.scores.Holds type m (typedAfter type a (.zadd k score x)) k
      (((StoreOp.zadd k score x).run type m db).2 k.text) := by
  obtain ⟨z, here, same⟩ := h
  have effect : (StoreOp.zadd k score x).effect = some (.rank k x score.toInt) := if_pos kind
  have now : (typedAfter type a (.zadd k score x)).score k =
      Function.update (a.score k) x (some (score.toInt : Rat)) := by
    rw [typedAfter, effect]
    exact Function.update_self ..
  refine ⟨z.insert (CBaseMdb.storedWord type x) score.toInt, ?_, ?_⟩
  · change zsetAt ((CBaseMdb.zadd type m .string k.text score.toInt x db).2 k.text) = _
    rw [CBaseMdb.zadd_word word]
    exact CBaseMdb.zsetAt_addScore here
  · intro y
    rw [now]
    by_cases e : y = x
    · subst e
      rw [AList.lookup_insert, Function.update_self]
    · have ne : CBaseMdb.storedWord type y ≠ CBaseMdb.storedWord type x :=
        fun same => e (CBaseMdb.storedWord_injective type same)
      rw [AList.lookup_insert_ne ne, Function.update_of_ne e, same]

theorem isSome_zsetAt_zadd {k : Key} {score : Int64} {v : Text}
    (h : (zsetAt (db k.text)).isSome = true) :
    (zsetAt (((StoreOp.zadd k score v).run type m db).2 k.text)).isSome = true := by
  obtain ⟨z, here⟩ := Option.isSome_iff_exists.mp h
  cases type with
  | redis =>
    change (zsetAt ((CBaseMdb.zadd .redis m .string k.text score.toInt v db).2 k.text)).isSome = true
    rw [CBaseMdb.redis_zadd here]
    rfl
  | tair =>
    simp only [StoreOp.run, CBaseMdb.zadd, TairDb.zadd, here, TairDb.flag, if_true, Db.put_self]
    rfl

theorem isSome_hashAt_serve {k : Text} (h : (hashAt (db k)).isSome = true) (args : List Text) :
    (hashAt ((serve m .hset (k :: args) db).2 k)).isSome = true := by
  rcases args with _ | ⟨field, _ | ⟨value, rest⟩⟩
  · exact h
  · exact h
  · obtain ⟨fields, here⟩ := Option.isSome_iff_exists.mp h
    simp only [serve, here]
    cases fieldPairs rest with
    | none => exact h
    | some pairs =>
      simp only [Db.put_self]
      rfl

theorem isSome_hashAt_hset {k : Key} {field v : Text} (h : (hashAt (db k.text)).isSome = true) :
    (hashAt (((StoreOp.hset k field v).run type m db).2 k.text)).isSome = true := by
  obtain ⟨fields, here⟩ := Option.isSome_iff_exists.mp h
  cases type with
  | redis =>
    simp only [StoreOp.run, CBaseMdb.hset, RedisDb.hset, redisCommand,
      formatArgs_cons k.isWord_text]
    cases formatArgs m.stray (field ++ ' ' :: Ty.print m.doubles .string v) with
    | none => exact h
    | some args => exact isSome_hashAt_serve h args
  | tair =>
    simp only [StoreOp.run, CBaseMdb.hset, TairDb.hset, here, TairDb.flag, if_true, Db.put_self]
    rfl

/-- An operation that fits does to the typed records what it says, and every record keeps
its kind. -/
theorem Represents.run (h : Represents type m a db) {o : StoreOp} (fits : o.Suits) :
    Represents type m (typedAfter type a o) (o.run type m db).2 := by
  intro k kind known
  by_cases ne : k ≠ o.key
  · rw [StoreOp.run_frame ne]
    exact (h k kind known).of_same (typedAfter_frame ne)
  · obtain rfl := not_not.mp ne
    have here := h o.key kind known
    cases o with
    | set τ k v =>
      obtain rfl := Option.some.inj (known.symm.trans fits)
      exact holds_set v fits
    | get | zrangebyscore => exact here
    | incr k integer =>
      obtain rfl := Option.some.inj (known.symm.trans fits)
      exact holds_incr here
    | sadd k v =>
      obtain rfl := Option.some.inj (known.symm.trans fits.1)
      exact holds_sadd fits.2 here
    | zadd k score v =>
      rcases fits with ⟨scores, word⟩ | slices
      · obtain rfl := Option.some.inj (known.symm.trans scores)
        exact holds_zadd word scores here
      · obtain rfl := Option.some.inj (known.symm.trans slices)
        exact isSome_zsetAt_zadd here
    | hset k field v =>
      obtain rfl := Option.some.inj (known.symm.trans fits)
      exact isSome_hashAt_hset here

/-! ## Labels -/

/-- The label records have the labels of the typed store. -/
def LabelsAs (type : TypeDb) (a : TypedStore) (db : Db) : Prop :=
  ∀ k : Key, k.kind = some .labels → ∃ h, hashAt (db k.text) = some h ∧
    ∀ f, h.lookup (CBaseMdb.storedWord type f) = (a.field k f).map (CBaseMdb.storedWord type)

theorem labelsAs_empty : LabelsAs type .empty .empty := fun _ _ => ⟨∅, rfl, fun _ => rfl⟩

theorem hset_word {k : Key} {field v : Text} (hf : IsWord field) (hv : IsWord v)
    {h : AList fun _ : Text => Text} (here : hashAt (db k.text) = some h) :
    hashAt (((StoreOp.hset k field v).run type m db).2 k.text) =
      some (h.insert (CBaseMdb.storedWord type field) (CBaseMdb.storedWord type v)) := by
  cases type with
  | redis =>
    have args : formatArgs m.stray (k.text ++ ' ' :: (field ++ ' ' :: v)) =
        some [k.text, field, v] := by
      rw [formatArgs_cons k.isWord_text, formatArgs_two hf hv]
      rfl
    simp only [StoreOp.run, CBaseMdb.hset, RedisDb.hset, redisCommand, Ty.print, args, serve, here,
      fieldPairs, Db.put_self]
    rfl
  | tair =>
    simp only [StoreOp.run, CBaseMdb.hset, TairDb.hset, here, TairDb.flag, if_true, Db.put_self]
    rfl

theorem LabelsAs.run (h : LabelsAs type a db) {o : StoreOp} (fits : o.Conforms) :
    LabelsAs type (typedAfter type a o) (o.run type m db).2 := by
  obtain ⟨suits, worded⟩ := fits
  intro k kind
  obtain ⟨labels, here, same⟩ := h k kind
  by_cases ne : k ≠ o.key
  · rw [StoreOp.run_frame ne, (typedAfter_frame ne).field]
    exact ⟨labels, here, same⟩
  · obtain rfl := not_not.mp ne
    cases o with
    | hset k field v =>
      refine ⟨_, hset_word worded.1 worded.2 here, fun f => ?_⟩
      have now : (typedAfter type a (.hset k field v)).field (StoreOp.hset k field v).key f =
          (if field = f then some v else none).or (a.field k f) := by
        have given : (typedAfter type a (.hset k field v)).field k f = _ :=
          Records.giveAt_apply a.field k k f field v
        simp only [true_and] at given
        exact given
      rw [now]
      by_cases e : field = f
      · subst e
        rw [AList.lookup_insert, if_pos rfl]
        rfl
      · have other : CBaseMdb.storedWord type f ≠ CBaseMdb.storedWord type field :=
          fun same => e (CBaseMdb.storedWord_injective type same).symm
        rw [AList.lookup_insert_ne other, if_neg e, same]
        rfl
    | get | zrangebyscore => exact ⟨labels, here, same⟩
    | set | incr => cases kind.symm.trans suits
    | sadd => cases kind.symm.trans suits.1
    | zadd =>
      rcases suits with ⟨scores, -⟩ | slices
      · cases kind.symm.trans scores
      · cases kind.symm.trans slices

/-- The store has the records and the labels of the typed one. -/
structure StandsFor (type : TypeDb) (m : Machine) (a : TypedStore) (db : Db) : Prop where
  records : Represents type m a db
  labels : LabelsAs type a db

theorem standsFor_empty : StandsFor type m .empty .empty := ⟨represents_empty, labelsAs_empty⟩

theorem StandsFor.run (h : StandsFor type m a db) {o : StoreOp} (fits : o.Conforms) :
    StandsFor type m (typedAfter type a o) (o.run type m db).2 :=
  ⟨h.records.run fits.1, h.labels.run fits⟩

/-! ## Reading -/

/-- What is read of an integer is the value that was set last, whoever set it. -/
theorem Represents.get (h : Represents type m a db) {τ : Ty} {k : Key} {d : τ.Val}
    (fits : (StoreOp.get τ k d).Suits) (integral : τ.integral = true) :
    ∃ x : Option τ.Val, a.value k = x.map (⟨τ, ·⟩) ∧
      ((StoreOp.get τ k d).run type m db).1 = x.getD d := by
  obtain ⟨stored, typed⟩ := h k (.value τ) fits
  rw [StoreOp.run_get]
  cases value : a.value k with
  | none =>
    rw [value] at stored
    exact ⟨none, rfl, CBaseMdb.get_none stored⟩
  | some v =>
    obtain ⟨τ', x⟩ := v
    obtain rfl := typed _ value
    rw [value] at stored
    exact ⟨some x, rfl, CBaseMdb.get_encode integral stored⟩

end SimpleDsp
