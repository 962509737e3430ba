import SimpleDsp.Store.Redis

/-!
# The Tair backend

`TairDb` copies the memory of a value into an entry. A counter is an `int` that
the server keeps as text: the tests and `get_eCPM` read counters as strings.
-/

namespace SimpleDsp

open DecimalText

namespace TairDb

/-- `TAIR_RETURN_SUCCESS` is zero; the methods turn it into one. -/
def flag (db db' : Db) (success : Bool) : Int32 × Db :=
  if success then (1, db') else (0, db)

def set (m : Machine) (τ : Ty) (key : Text) (value : τ.Val) (db : Db) : Int32 × Db :=
  flag db (db.put key (.str (τ.bytes m.doubles value))) true

def get (m : Machine) (τ : Ty) (key : Text) (default_v : τ.Val) (db : Db) : τ.Val :=
  match db key with
  | some (.str data) => τ.getValue m.doubles (m.beyond data) data
  | _ => default_v

def incr (key : Text) (integer : Int32) (db : Db) : Int32 × Db :=
  match counterAt (db key) with
  | some value =>
    if -2 ^ 31 ≤ value + integer.toInt ∧ value + integer.toInt < 2 ^ 31 then
      flag db (db.put key (.str (decimal (value + integer.toInt)))) true
    else flag db db false
  | none => flag db db false

def zadd (m : Machine) (τ : Ty) (key : Text) (score : Rat) (value : τ.Val) (db : Db) : Int32 × Db :=
  match zsetAt (db key) with
  | some z => flag db (db.put key (.zset (z.insert (τ.bytes m.doubles value) score))) true
  | none => flag db db false

def sadd (m : Machine) (τ : Ty) (key : Text) (value : τ.Val) (db : Db) : Int32 × Db :=
  match setAt (db key) with
  | some s => flag db (db.put key (.set (insert (τ.bytes m.doubles value) s))) true
  | none => flag db db false

def hset (m : Machine) (τ : Ty) (key field : Text) (value : τ.Val) (db : Db) : Int32 × Db :=
  match hashAt (db key) with
  | some h =>
    flag db (db.put key (.hash (h.insert (field ++ [nul]) (τ.bytes m.doubles value)))) true
  | none => flag db db false

def smembers (m : Machine) (τ : Ty) (key : Text) (db : Db) : List τ.Val :=
  match setAt (db key) with
  | some s => (m.listing key s).map fun data => τ.getValue m.doubles (m.beyond data) data
  | none => []

def zmembers (m : Machine) (τ : Ty) (key : Text) (db : Db) : List τ.Val :=
  match zsetAt (db key) with
  | some z => (rangeOrder z).map fun data => τ.getValue m.doubles (m.beyond data) data
  | none => []

def zrangebyscore (m : Machine) (τ : Ty) (key : Text) (min max : Rat) (db : Db) : List τ.Val :=
  match zsetAt (db key) with
  | some z => (rangeByScore z min max).map fun data => τ.getValue m.doubles (m.beyond data) data
  | none => []

def hget (m : Machine) (τ : Ty) (key : Text) (db : Db) : List (Text × τ.Val) :=
  match hashAt (db key) with
  | some h => h.entries.map fun e => (cString e.1, τ.getValue m.doubles (m.beyond e.2) e.2)
  | none => []

/-- `TAIR_RETURN_DATA_NOT_EXIST` -/
def dataNotExist : Int32 := -3998

/-- The one method that hands on what the client returned. -/
def removeKey (key : Text) (db : Db) : Int32 × Db :=
  match db key with
  | some _ => (0, Function.update db key none)
  | none => (dataNotExist, db)

end TairDb

end SimpleDsp
