import SimpleDsp.Store.Tair

/-!
# The store behind both backends

`CBaseMdb` passes each operation on to the backend it is set to.

* `set_spec`, `get_encode`: a value that was stored is the value that is read;
* `incr_counted`: what counting up by one returns;
* `StoreOp.run_frame`: an operation changes the record it names and no other.
-/

namespace SimpleDsp

open DecimalText

inductive TypeDb
  | redis | tair
  deriving DecidableEq

namespace CBaseMdb

variable (type : TypeDb) (m : Machine)

def set (τ : Ty) (key : Text) (value : τ.Val) (db : Db) : Int32 × Db :=
  match type with
  | .redis => RedisDb.set m τ key value db
  | .tair => TairDb.set m τ key value db

def get (τ : Ty) (key : Text) (default_v : τ.Val) (db : Db) : τ.Val :=
  match type with
  | .redis => RedisDb.get m τ key default_v db
  | .tair => TairDb.get m τ key default_v db

/-- The comment of the source: `0----fail   success value`. -/
def incr (key : Text) (integer : Int32) (db : Db) : Int32 × Db :=
  match type with
  | .redis => RedisDb.incr m key integer db
  | .tair => TairDb.incr key integer db

def zadd (τ : Ty) (key : Text) (score : Rat) (value : τ.Val) (db : Db) : Int32 × Db :=
  match type with
  | .redis => RedisDb.zadd m τ key score value db
  | .tair => TairDb.zadd m τ key score value db

def sadd (τ : Ty) (key : Text) (value : τ.Val) (db : Db) : Int32 × Db :=
  match type with
  | .redis => RedisDb.sadd m τ key value db
  | .tair => TairDb.sadd m τ key value db

def hset (τ : Ty) (key field : Text) (value : τ.Val) (db : Db) : Int32 × Db :=
  match type with
  | .redis => RedisDb.hset m τ key field value db
  | .tair => TairDb.hset m τ key field value db

/-- The elements appended to an empty vector; an error appends none. -/
def smembers (τ : Ty) (key : Text) (db : Db) : List τ.Val :=
  match type with
  | .redis => (RedisDb.smembers m τ key db).getD []
  | .tair => TairDb.smembers m τ key db

def zmembers (τ : Ty) (key : Text) (db : Db) : List τ.Val :=
  match type with
  | .redis => (RedisDb.zmembers m τ key db).getD []
  | .tair => TairDb.zmembers m τ key db

def zrangebyscore (τ : Ty) (key : Text) (min max : Rat) (db : Db) : List τ.Val :=
  match type with
  | .redis => (RedisDb.zrangebyscore m τ key min max db).getD []
  | .tair => TairDb.zrangebyscore m τ key min max db

def hget (τ : Ty) (key : Text) (db : Db) : List (Text × τ.Val) :=
  match type with
  | .redis => (RedisDb.hget m τ key db).getD []
  | .tair => TairDb.hget m τ key db

def removeKey (key : Text) (db : Db) : Int32 × Db :=
  match type with
  | .redis => RedisDb.removeKey m key db
  | .tair => TairDb.removeKey key db

/-! ## What is stored is what is read -/

/-- A value as the backend keeps it. -/
def encode (τ : Ty) (v : τ.Val) : Val :=
  match type with
  | .redis => .str (τ.print m.doubles v)
  | .tair => .str (τ.bytes m.doubles v)

end CBaseMdb

theorem formatArgs_two {stray : Text → Option (Text × Nat)} {a b : Text} (ha : IsWord a)
    (hb : IsWord b) : formatArgs stray (a ++ ' ' :: b) = some [a, b] := by
  simp [formatArgs_cons ha, formatArgs_word hb]

namespace CBaseMdb

variable {type : TypeDb} {m : Machine}

theorem set_spec {τ : Ty} (hτ : τ ≠ .string) (k : Key) (v : τ.Val) (db : Db) :
    set type m τ k.text v db = (1, db.put k.text (encode type m τ v)) := by
  cases type with
  | redis =>
    have args : formatArgs m.stray _ = _ :=
      formatArgs_two k.isWord_text (isWord_print m.doubles hτ v)
    simp [set, RedisDb.set, redisCommand, args, serve_set, encode]
  | tair => rfl

theorem get_encode {τ : Ty} (hτ : τ.integral = true) {k : Key} {v d : τ.Val} {db : Db}
    (h : db k.text = some (encode type m τ v)) : get type m τ k.text d db = v := by
  cases type with
  | redis =>
    have plain : cString (τ.print m.doubles v) = τ.print m.doubles v :=
      (isWord_print m.doubles (ne_string_of_integral hτ) v).cString
    simp only [encode] at h
    simp [get, RedisDb.get, serve, k.isWord_text.cString, h, plain, extract_print hτ]
  | tair =>
    simp only [encode] at h
    simp [get, TairDb.get, h, getValue_bytes hτ]

theorem get_none {τ : Ty} {k : Key} {d : τ.Val} {db : Db} (h : db k.text = none) :
    get type m τ k.text d db = d := by
  cases type with
  | redis => simp [get, RedisDb.get, serve, k.isWord_text.cString, h]
  | tair => simp [get, TairDb.get, h]

/-- What `incr` writes reads as a text. -/
theorem get_decimal {k : Key} {d : Text} {v : Int} {db : Db}
    (h : db k.text = some (.str (decimal v))) : get type m .string k.text d db = decimal v := by
  have plain : cString (decimal v) = decimal v := (isWord_decimal v).cString
  cases type with
  | redis =>
    simp [get, RedisDb.get, serve, k.isWord_text.cString, h, plain, Ty.extract, Ty.parse,
      decimal_ne_nil]
  | tair => simp [get, TairDb.get, h, Ty.getValue, plain]

/-- A value is read from its own record. -/
theorem get_congr {τ : Ty} {k : Key} {d : τ.Val} {db db' : Db} (h : db k.text = db' k.text) :
    get type m τ k.text d db = get type m τ k.text d db' := by
  cases type with
  | redis =>
    simp only [get, RedisDb.get, serve, k.isWord_text.cString, h]
    cases db' k.text with
    | none => rfl
    | some v => cases v <;> rfl
  | tair => simp only [get, TairDb.get, h]

/-- A set is listed from its own record. -/
theorem smembers_congr {τ : Ty} {k : Key} {db db' : Db} (h : db k.text = db' k.text) :
    smembers type m τ k.text db = smembers type m τ k.text db' := by
  cases type with
  | redis =>
    simp only [smembers, RedisDb.smembers, serve, k.isWord_text.cString, h]
    cases setAt (db' k.text) with
    | none => rfl
    | some s => rfl
  | tair => simp only [smembers, TairDb.smembers, h]

theorem zmembers_congr {τ : Ty} {k : Key} {db db' : Db} (h : db k.text = db' k.text) :
    zmembers type m τ k.text db = zmembers type m τ k.text db' := by
  cases type with
  | redis =>
    simp only [zmembers, RedisDb.zmembers, serve, k.isWord_text.cString, h]
    cases zsetAt (db' k.text) with
    | none => rfl
    | some z => rfl
  | tair => simp only [zmembers, TairDb.zmembers, h]

theorem zrangebyscore_congr {τ : Ty} {k : Key} {min max : Rat} {db db' : Db}
    (h : db k.text = db' k.text) : zrangebyscore type m τ k.text min max db =
      zrangebyscore type m τ k.text min max db' := by
  cases type with
  | redis =>
    simp only [zrangebyscore, RedisDb.zrangebyscore, k.isWord_text.cString,
      (serve_congr .zrangebyscore [decimal (m.longLong min), decimal (m.longLong max)] h).1]
  | tair => simp only [zrangebyscore, TairDb.zrangebyscore, h]

theorem smembers_none {τ : Ty} {k : Key} {db : Db} (h : db k.text = none) :
    smembers type m τ k.text db = [] := by
  have empty : m.listing k.text ∅ = [] := by
    apply List.eq_nil_iff_forall_not_mem.mpr
    intro x hx
    exact absurd ((m.mem_listing _ _ _).mp hx) (Finset.notMem_empty x)
  cases type with
  | redis =>
    simp [smembers, RedisDb.smembers, serve, k.isWord_text.cString, h, setAt, empty,
      RedisDb.members]
  | tair => simp [smembers, TairDb.smembers, h, setAt, empty]

theorem zmembers_none {τ : Ty} {k : Key} {db : Db} (h : db k.text = none) :
    zmembers type m τ k.text db = [] := by
  cases type with
  | redis =>
    simp [zmembers, RedisDb.zmembers, serve, k.isWord_text.cString, h, zsetAt, rangeOrder,
      rangeEntries, RedisDb.members]
  | tair => simp [zmembers, TairDb.zmembers, h, zsetAt, rangeOrder, rangeEntries]

/-! ## Counters -/

/-- The largest number a counter of the backend holds. -/
def counterMax : TypeDb → Nat
  | .redis => 2 ^ 63 - 1
  | .tair => 2 ^ 31 - 1

theorem int_le_counterMax (type : TypeDb) : 2 ^ 31 - 1 ≤ counterMax type := by
  cases type with
  | redis => decide
  | tair => exact Nat.le_refl _

/-- The counter at a key has been counted up `n` times; it stops at the largest
number. -/
def Counted (type : TypeDb) (v : Option Val) (n : Nat) : Prop :=
  counterAt v = some ((min n (counterMax type) : Nat) : Int)

/-- What `incr` returns when it counts up by one for the `n`-th time, `n` from
zero: on Redis what is left of the new value in the freed reply, on Tair whether
it succeeded. -/
def nthIncr (type : TypeDb) (m : Machine) (n : Nat) : Int32 :=
  match type with
  | .redis => if n + 1 < 2 ^ 63 then m.freed (n + 1 : Nat) else 0
  | .tair => if n + 1 < 2 ^ 31 then 1 else 0

theorem counted_none : Counted type none 0 := by
  simp [Counted, counterAt]

@[simp] theorem counterAt_decimal (v : Int) : counterAt (some (.str (decimal v))) = some v := by
  simp [counterAt]

theorem redis_incr_one {k : Key} {db : Db} {v : Int} (hv : counterAt (db k.text) = some v)
    (fits : InLong v ∧ InLong (v + 1)) :
    incr .redis m k.text 1 db =
      (m.freed (v + 1), db.put k.text (.str (decimal (v + 1)))) := by
  have one : strictInt (decimal (1 : Int32).toInt) = some 1 := strictInt_decimal 1
  simp only [incr, RedisDb.incr, k.isWord_text.cString, serve_incrby hv one fits,
    RedisDb.freedInteger]

theorem redis_incr_one_overflow {k : Key} {db : Db} {v : Int}
    (hv : counterAt (db k.text) = some v) (beyond : ¬(InLong v ∧ InLong (v + 1))) :
    incr .redis m k.text 1 db = (0, db) := by
  have one : strictInt (decimal (1 : Int32).toInt) = some 1 := strictInt_decimal 1
  simp only [incr, RedisDb.incr, k.isWord_text.cString, serve_incrby_overflow hv one beyond,
    RedisDb.freedInteger]

theorem tair_incr_one {k : Key} {db : Db} {v : Int} (hv : counterAt (db k.text) = some v)
    (fits : -2 ^ 31 ≤ v + 1 ∧ v + 1 < 2 ^ 31) :
    incr .tair m k.text 1 db = (1, db.put k.text (.str (decimal (v + 1)))) := by
  have one : (1 : Int32).toInt = 1 := rfl
  simp only [incr, TairDb.incr, hv, one, if_pos fits, TairDb.flag, if_true]

theorem tair_incr_one_overflow {k : Key} {db : Db} {v : Int}
    (hv : counterAt (db k.text) = some v) (beyond : ¬(-2 ^ 31 ≤ v + 1 ∧ v + 1 < 2 ^ 31)) :
    incr .tair m k.text 1 db = (0, db) := by
  have one : (1 : Int32).toInt = 1 := rfl
  simp only [incr, TairDb.incr, hv, one, if_neg beyond, TairDb.flag, Bool.false_eq_true, if_false]

/-- A counter that has room counts up by one. -/
theorem incr_one {k : Key} {db : Db} {n : Nat} (hn : counterAt (db k.text) = some (n : Int))
    (room : n + 1 ≤ counterMax type) :
    (incr type m k.text 1 db).2 = db.put k.text (.str (decimal (n + 1 : Nat))) := by
  cases type with
  | redis =>
    simp only [counterMax] at room
    rw [redis_incr_one hn (by simp only [InLong]; omega)]
    rfl
  | tair =>
    simp only [counterMax] at room
    rw [tair_incr_one hn (by omega)]
    rfl

theorem incr_counted {k : Key} {db : Db} {n : Nat} (h : Counted type (db k.text) n) :
    (incr type m k.text 1 db).1 = nthIncr type m n ∧
      Counted type ((incr type m k.text 1 db).2 k.text) (n + 1) := by
  have counted {v : Int} (e : v = (min (n + 1) (counterMax type) : Nat)) :
      Counted type (db.put k.text (.str (decimal v)) k.text) (n + 1) := by
    rw [Counted, Db.put_self, counterAt_decimal, e]
  have full (e : counterMax type ≤ n) : Counted type (db k.text) (n + 1) := by
    unfold Counted at h
    rw [Counted, h, Nat.min_eq_right e, Nat.min_eq_right (Nat.le_succ_of_le e)]
  cases type with
  | redis =>
    simp only [counterMax] at counted full
    by_cases fits : n + 1 < 2 ^ 63
    · rw [Counted, counterMax, Nat.min_eq_left (by omega)] at h
      rw [redis_incr_one h (by simp only [InLong]; omega), nthIncr, if_pos fits]
      exact ⟨rfl, counted (by omega)⟩
    · rw [redis_incr_one_overflow h (by simp only [counterMax, InLong]; omega), nthIncr, if_neg fits]
      exact ⟨rfl, full (by omega)⟩
  | tair =>
    simp only [counterMax] at counted full
    by_cases fits : n + 1 < 2 ^ 31
    · rw [Counted, counterMax, Nat.min_eq_left (by omega)] at h
      rw [tair_incr_one h (by omega), nthIncr, if_pos fits]
      exact ⟨rfl, counted (by omega)⟩
    · rw [tair_incr_one_overflow h (by simp only [counterMax]; omega), nthIncr, if_neg fits]
      exact ⟨rfl, full (by omega)⟩

/-! ## Sets on Redis -/

/-- The argument hiredis makes of a text that ends a command, if it makes
exactly one. -/
def oneArg (m : Machine) (v : Text) : Option Text :=
  match formatArgs m.stray v with
  | some [x] => some x
  | _ => none

/-- What is left of a member is the member, or the command is rejected. -/
def zaddEffect (m : Machine) (score : Int64) (v : Text) (z : AList fun _ : Text => Rat) :
    AList fun _ : Text => Rat :=
  match oneArg m v with
  | some x => z.insert x score.toInt
  | none => z

theorem redis_zadd {k : Key} {score : Int64} {v : Text} {db : Db} {z : AList fun _ : Text => Rat}
    (hz : zsetAt (db k.text) = some z) :
    zsetAt ((zadd .redis m .string k.text score.toInt v db).2 k.text) =
      some (zaddEffect m score v z) := by
  have args : formatArgs m.stray (k.text ++ ' ' :: (decimal score.toInt ++ ' ' :: v)) =
      (formatArgs m.stray v).map fun vs => k.text :: decimal score.toInt :: vs := by
    rw [formatArgs_cons k.isWord_text, formatArgs_cons (isWord_decimal score.toInt), Option.map_map]
    rfl
  simp only [zadd, RedisDb.zadd, Machine.longLong_toInt, redisCommand, Ty.print, args, zaddEffect,
    oneArg]
  cases formatArgs m.stray v with
  | none => exact hz
  | some vs =>
    cases vs with
    | nil => exact hz
    | cons x rest =>
      cases rest with
      | nil =>
        simp only [Option.map_some, serve, hz, strictInt_decimal, Db.put_self]
        rfl
      | cons y rest => exact hz

/-- A member that is a word is added; a value that is no set stays. -/
def addMember (x : Text) (v : Option Val) : Option Val :=
  match setAt v with
  | some s => some (.set (insert x s))
  | none => v

def addScore (x : Text) (score : Rat) (v : Option Val) : Option Val :=
  match zsetAt v with
  | some z => some (.zset (z.insert x score))
  | none => v

theorem setAt_addMember {x : Text} {v : Option Val} {s : Finset Text} (h : setAt v = some s) :
    setAt (addMember x v) = some (insert x s) := by
  simp only [addMember, h]
  rfl

theorem zsetAt_addScore {x : Text} {score : Rat} {v : Option Val}
    {z : AList fun _ : Text => Rat} (h : zsetAt v = some z) :
    zsetAt (addScore x score v) = some (z.insert x score) := by
  simp only [addScore, h]
  rfl

theorem redis_sadd {k : Key} {x : Text} (h : IsWord x) (db : Db) :
    (sadd .redis m .string k.text x db).2 k.text = addMember x (db k.text) := by
  have args : formatArgs m.stray (k.text ++ ' ' :: x) = some [k.text, x] :=
    formatArgs_two k.isWord_text h
  simp only [sadd, RedisDb.sadd, redisCommand, Ty.print, args, serve, addMember]
  cases setAt (db k.text) with
  | none => rfl
  | some s => simp

/-- A member of any type that prints as a word. -/
theorem redis_zadd_print {key : Text} (hk : IsWord key) {τ : Ty} {v : τ.Val}
    (h : IsWord (τ.print m.doubles v)) (score : Rat) (db : Db) :
    (RedisDb.zadd m τ key score v db).2 key =
      addScore (τ.print m.doubles v) (m.longLong score) (db key) := by
  have args : formatArgs m.stray
      (key ++ ' ' :: (decimal (m.longLong score) ++ ' ' :: τ.print m.doubles v)) =
      some [key, decimal (m.longLong score), τ.print m.doubles v] := by
    rw [formatArgs_cons hk, formatArgs_two (isWord_decimal _) h]
    rfl
  simp only [RedisDb.zadd, redisCommand, args, serve, addScore, strictInt_decimal]
  cases zsetAt (db key) with
  | none => rfl
  | some z => simp

theorem redis_zadd_word {k : Key} {x : Text} (h : IsWord x) (score : Int64) (db : Db) :
    (zadd .redis m .string k.text score.toInt x db).2 k.text =
      addScore x score.toInt (db k.text) := by
  have added := redis_zadd_print (m := m) (τ := .string) k.isWord_text h score.toInt db
  rwa [Machine.longLong_toInt] at added

/-- A word as the backend keeps it in a set. -/
def storedWord (type : TypeDb) (x : Text) : Text :=
  match type with
  | .redis => x
  | .tair => x ++ [nul]

theorem storedWord_injective (type : TypeDb) : Function.Injective (storedWord type) := by
  intro a b h
  cases type with
  | redis => exact h
  | tair => exact List.append_cancel_right h

theorem zadd_word {k : Key} {x : Text} (h : IsWord x) (score : Int64) (db : Db) :
    (zadd type m .string k.text score.toInt x db).2 k.text =
      addScore (storedWord type x) score.toInt (db k.text) := by
  cases type with
  | redis => exact redis_zadd_word h score db
  | tair =>
    simp only [zadd, TairDb.zadd, addScore, storedWord, Ty.bytes]
    cases e : zsetAt (db k.text) with
    | none => rfl
    | some z => simp [TairDb.flag]

end CBaseMdb

/-! ## Operations -/

/-- The operations of `CBaseMdb` that `user_map` performs, as values. -/
inductive StoreOp
  | set (τ : Ty) (k : Key) (v : τ.Val)
  | get (τ : Ty) (k : Key) (default_v : τ.Val)
  | incr (k : Key) (integer : Int32)
  | zadd (k : Key) (score : Int64) (v : Text)
  | sadd (k : Key) (v : Text)
  | hset (k : Key) (field v : Text)
  | zrangebyscore (k : Key) (min max : Rat)

namespace StoreOp

abbrev Reply : StoreOp → Type
  | get τ _ _ => τ.Val
  | zrangebyscore .. => List Text
  | _ => Int32

def key : StoreOp → Key
  | set _ k _ => k
  | get _ k _ => k
  | incr k _ => k
  | zadd k _ _ => k
  | sadd k _ => k
  | hset k _ _ => k
  | zrangebyscore k _ _ => k

/-- What is returned when the server does not answer. -/
def failed : (o : StoreOp) → o.Reply
  | set _ _ _ => (0 : Int32)
  | get _ _ default_v => default_v
  | incr _ _ => (0 : Int32)
  | zadd _ _ _ => (0 : Int32)
  | sadd _ _ => (0 : Int32)
  | hset _ _ _ => (0 : Int32)
  | zrangebyscore .. => ([] : List Text)

def run (type : TypeDb) (m : Machine) : (o : StoreOp) → Db → o.Reply × Db
  | set τ k v, db => CBaseMdb.set type m τ k.text v db
  | get τ k default_v, db => (CBaseMdb.get type m τ k.text default_v db, db)
  | incr k integer, db => CBaseMdb.incr type m k.text integer db
  | zadd k score v, db => CBaseMdb.zadd type m .string k.text score.toInt v db
  | sadd k v, db => CBaseMdb.sadd type m .string k.text v db
  | hset k field v, db => CBaseMdb.hset type m .string k.text field v db
  | zrangebyscore k min max, db => (CBaseMdb.zrangebyscore type m .string k.text min max db, db)

variable {type : TypeDb} {m : Machine}

@[simp] theorem run_get (τ : Ty) (k : Key) (d : τ.Val) (db : Db) :
    (get τ k d).run type m db = (CBaseMdb.get type m τ k.text d db, db) := rfl

theorem run_set {τ : Ty} (hτ : τ ≠ .string) (k : Key) (v : τ.Val) (db : Db) :
    (set τ k v).run type m db = (1, db.put k.text (CBaseMdb.encode type m τ v)) :=
  CBaseMdb.set_spec hτ k v db

/-- An operation changes the record it names and no other. -/
theorem run_frame {o : StoreOp} {k : Key} (h : k ≠ o.key) (db : Db) :
    (o.run type m db).2 k.text = db k.text := by
  have ne : k.text ≠ o.key.text := fun e => h (Key.text_inj.mp e)
  cases type with
  | redis =>
    cases o with
    | set τ k' v =>
      have f : (redisCommand m .set (k'.text ++ ' ' :: τ.print m.doubles v) db).2 k.text = _ :=
        redisCommand_frame ne
      simp only [run, CBaseMdb.set, RedisDb.set]
      split <;> simp_all
    | get τ k' d => rfl
    | incr k' n => exact serve_frame (k'.isWord_text.cString.symm ▸ ne)
    | zadd k' score v => exact redisCommand_frame ne
    | sadd k' v => exact redisCommand_frame ne
    | hset k' field v => exact redisCommand_frame ne
    | zrangebyscore k' min max => rfl
  | tair =>
    cases o with
    | set τ k' v => exact Db.put_of_ne ne
    | get τ k' d => rfl
    | incr k' n =>
      simp only [run, CBaseMdb.incr, TairDb.incr]
      split
      · split
        · exact Db.put_of_ne ne
        · rfl
      · rfl
    | zadd k' score v =>
      simp only [run, CBaseMdb.zadd, TairDb.zadd]
      split
      · exact Db.put_of_ne ne
      · rfl
    | sadd k' v =>
      simp only [run, CBaseMdb.sadd, TairDb.sadd]
      split
      · exact Db.put_of_ne ne
      · rfl
    | hset k' field v =>
      simp only [run, CBaseMdb.hset, TairDb.hset]
      split
      · exact Db.put_of_ne ne
      · rfl
    | zrangebyscore k' min max => rfl

/-- An operation depends on the record it names alone. -/
theorem run_congr {o : StoreOp} {db db' : Db} (h : db o.key.text = db' o.key.text) :
    (o.run type m db).1 = (o.run type m db').1 ∧
      (o.run type m db).2 o.key.text = (o.run type m db').2 o.key.text := by
  cases o with
  | get τ k d => exact ⟨CBaseMdb.get_congr h, h⟩
  | zrangebyscore k min max => exact ⟨CBaseMdb.zrangebyscore_congr h, h⟩
  | set τ k v =>
    cases type with
    | redis =>
      have sent := redisCommand_congr (m := m) .set (k := k) (τ.print m.doubles v) h
      simp only [run, CBaseMdb.set, RedisDb.set]
      cases ha : redisCommand m .set (k.text ++ ' ' :: τ.print m.doubles v) db with
      | mk ra da =>
        cases hb : redisCommand m .set (k.text ++ ' ' :: τ.print m.doubles v) db' with
        | mk rb d =>
          rw [ha, hb] at sent
          obtain ⟨same, value⟩ := sent
          obtain rfl : ra = rb := same
          cases ra with
          | none => exact ⟨rfl, value⟩
          | some r => cases r <;> exact ⟨rfl, value⟩
    | tair => exact ⟨rfl, by simp [run, CBaseMdb.set, TairDb.set, TairDb.flag, key]⟩
  | incr k n =>
    cases type with
    | redis =>
      obtain ⟨reply, value⟩ := serve_congr (m := m) .incrby [decimal n.toInt] h
      simp only [run, CBaseMdb.incr, RedisDb.incr, k.isWord_text.cString]
      exact ⟨congrArg (fun r => RedisDb.freedInteger m (some r)) reply, value⟩
    | tair =>
      simp only [run, CBaseMdb.incr, TairDb.incr, show db k.text = db' k.text from h]
      repeat' split
      all_goals simp_all [TairDb.flag, key]
  | zadd k score v =>
    cases type with
    | redis =>
      obtain ⟨reply, value⟩ := redisCommand_congr (m := m) .zadd
        (decimal (m.longLong (score.toInt : Rat)) ++ ' ' :: v) h
      exact ⟨congrArg RedisDb.integerOf reply, value⟩
    | tair =>
      simp only [run, CBaseMdb.zadd, TairDb.zadd, show db k.text = db' k.text from h]
      split
      all_goals simp_all [TairDb.flag, key]
  | sadd k v =>
    cases type with
    | redis =>
      obtain ⟨reply, value⟩ := redisCommand_congr (m := m) .sadd v h
      exact ⟨congrArg RedisDb.integerOf reply, value⟩
    | tair =>
      simp only [run, CBaseMdb.sadd, TairDb.sadd, show db k.text = db' k.text from h]
      split
      all_goals simp_all [TairDb.flag, key]
  | hset k field v =>
    cases type with
    | redis =>
      obtain ⟨reply, value⟩ := redisCommand_congr (m := m) .hset (field ++ ' ' :: v) h
      exact ⟨congrArg (RedisDb.freedInteger m) reply, value⟩
    | tair =>
      simp only [run, CBaseMdb.hset, TairDb.hset, show db k.text = db' k.text from h]
      split
      all_goals simp_all [TairDb.flag, key]

/-! ## Replies that are read too late -/

/-- The reply is not read from a freed object. -/
def Copied (type : TypeDb) : StoreOp → Prop
  | incr .. | hset .. => type = .tair
  | _ => True

@[simp] theorem run_finding_snd (o : StoreOp) (freed : Int → Int32) (db : Db) :
    (o.run type (m.finding freed) db).2 = (o.run type m db).2 := by
  cases o <;> cases type <;> rfl

theorem run_finding_of_copied {o : StoreOp} (copied : o.Copied type) (freed : Int → Int32)
    (db : Db) : o.run type (m.finding freed) db = o.run type m db := by
  cases type with
  | redis => cases o <;> first | rfl | cases copied
  | tair => cases o <;> rfl

/-! ## Commands that are not sent -/

/-- hiredis does not take the text of the command as a format. The formats of `get`, `incr`
and `zrangebyscore` are fixed. -/
def Rejected (m : Machine) : StoreOp → Prop
  | set τ k v => formatArgs m.stray (k.text ++ ' ' :: τ.print m.doubles v) = none
  | zadd k score v =>
    formatArgs m.stray (k.text ++ ' ' :: (decimal (m.longLong score.toInt) ++ ' ' :: v)) = none
  | sadd k v => formatArgs m.stray (k.text ++ ' ' :: v) = none
  | hset k field v => formatArgs m.stray (k.text ++ ' ' :: (field ++ ' ' :: v)) = none
  | _ => False

instance (m : Machine) : (o : StoreOp) → Decidable (o.Rejected m)
  | set .. | zadd .. | sadd .. | hset .. => inferInstanceAs (Decidable (_ = none))
  | get .. | incr .. | zrangebyscore .. => inferInstanceAs (Decidable False)

end StoreOp

end SimpleDsp
