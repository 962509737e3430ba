import SimpleDsp.Lib.Truncation
import SimpleDsp.Store.Value
import Mathlib.Data.List.AList
import Mathlib.Data.Finset.Sort
import Mathlib.Data.List.Lex
import Mathlib.Data.Char

/-!
# The Redis backend

`RedisDb` sends a text that hiredis takes as a format: it is split on blanks,
`%` starts a conversion and a NUL ends it (`formatArgs`). `serve` is the server.

`formatArgs_word`, `formatArgs_cons`: words without blanks, `%` and NUL arrive as they were sent.
-/

namespace SimpleDsp

open DecimalText Truncation

/-- What the source leaves to the compiler, the libraries and the server. -/
structure Machine where
  doubles : Doubles
  /-- The previous contents of a variable. -/
  uninit : (τ : Ty) → τ.Val
  /-- The memory after the characters of an entry or a string. -/
  beyond : Text → Text
  /-- What a conversion that hiredis has no argument for turns into, and how many
  characters after the `%` belong to it. -/
  stray : Text → Option (Text × Nat)
  /-- What is read in place of the number of a reply that has been freed. -/
  freed : Int → Int32
  /-- What a double beyond the range of `long long` is converted to. -/
  indefinite : Rat → Int64
  /-- The order in which the set at a key is listed. -/
  listing : Text → Finset Text → List Text
  listing_nodup : ∀ k s, (listing k s).Nodup
  mem_listing : ∀ k s m, m ∈ listing k s ↔ m ∈ s

/-- A machine to compute with: doubles are cut off at the point, variables start
at zero, a freed reply keeps its number and sets are listed in the order of their members. -/
def Machine.plain : Machine where
  doubles := {
    print := fun q => decimal q.floor
    print_word := fun q => isWord_decimal q.floor
    read := fun t => ((scanInt t).map (·.1)).getD 0
    bits := fun q => q.floor.toInt64.toUInt64
    ofBits := fun b => b.toInt64.toInt }
  uninit
    | .int => (0 : Int32)
    | .ull => (0 : UInt64)
    | .time => (0 : Int64)
    | .double => (0 : Rat)
    | .string => []
  beyond := fun _ => []
  stray := fun _ => none
  freed := Int32.ofInt
  indefinite := fun _ => Int64.minValue
  listing := fun _ s => s.sort (· ≤ ·)
  listing_nodup := fun _ s => s.sort_nodup (· ≤ ·)
  mem_listing := fun _ _ _ => Finset.mem_sort (· ≤ ·)

inductive Val
  | str (t : Text)
  | set (members : Finset Text)
  | zset (scores : AList fun _ : Text => Rat)
  | hash (fields : AList fun _ : Text => Text)

abbrev Db := Text → Option Val

/-- A freed reply keeps its number. -/
def Untouched (freed : Int → Int32) : Prop := freed = Int32.ofInt

/-- The machine with another memory behind the freed replies. -/
def Machine.finding (m : Machine) (freed : Int → Int32) : Machine := { m with freed := freed }

def Db.empty : Db := fun _ => none

def Db.put (db : Db) (k : Text) (v : Val) : Db := Function.update db k (some v)

@[simp] theorem Db.put_self (db : Db) (k : Text) (v : Val) : db.put k v k = some v := by
  simp [Db.put]

@[simp] theorem Db.put_of_ne {db : Db} {k k' : Text} {v : Val} (h : k' ≠ k) :
    db.put k v k' = db k' := by
  simp [Db.put, h]

/-! ## `long long` -/

/-- The range of `long long`, in which the server counts. -/
def InLong (v : Int) : Prop := -2 ^ 63 ≤ v ∧ v < 2 ^ 63

instance (v : Int) : Decidable (InLong v) := inferInstanceAs (Decidable (_ ∧ _))

theorem inLong_toInt (t : Int64) : InLong t.toInt := ⟨t.le_toInt, t.toInt_lt⟩

/-- A conversion to `long long`; `none` where it is undefined. -/
def longLong (q : Rat) : Option Int := if InLong (truncated q) then some (truncated q) else none

/-- The doubles that can be converted. -/
def Convertible (q : Rat) : Prop := -2 ^ 63 - 1 < q ∧ q < 2 ^ 63

theorem inLong_truncated_iff {q : Rat} : InLong (truncated q) ↔ Convertible q := by
  have bounds : Convertible q ↔
      ((-2 ^ 63 : Int) : Rat) - 1 < q ∧ q < ((2 ^ 63 - 1 : Int) : Rat) + 1 := by
    unfold Convertible
    norm_num
  rw [bounds, ← truncated_between (by decide) (by decide)]
  unfold InLong
  omega

theorem longLong_eq_some {q : Rat} {v : Int} :
    longLong q = some v ↔ Convertible q ∧ v = truncated q := by
  rw [longLong, ← inLong_truncated_iff]
  by_cases inside : InLong (truncated q)
  · simp [inside, eq_comm]
  · simp [inside]

/-- What the code gets from a conversion to `long long`. -/
def Machine.longLong (m : Machine) (q : Rat) : Int :=
  (SimpleDsp.longLong q).getD (m.indefinite q).toInt

theorem Machine.longLong_of_convertible (m : Machine) {q : Rat} (h : Convertible q) :
    m.longLong q = truncated q := by
  rw [Machine.longLong, longLong_eq_some.mpr ⟨h, rfl⟩, Option.getD_some]

theorem Machine.longLong_intCast (m : Machine) {v : Int} (h : InLong v) : m.longLong v = v := by
  have whole : truncated (v : Rat) = v := truncated_intCast v
  rw [Machine.longLong, SimpleDsp.longLong, whole, if_pos h, Option.getD_some]

@[simp] theorem Machine.longLong_toInt (m : Machine) (t : Int64) :
    m.longLong (t.toInt : Rat) = t.toInt :=
  m.longLong_intCast (inLong_toInt t)

/-! ## hiredis -/

/-- Blanks are `none`, anything else is `some` of the text it adds to the
argument at hand. The number counts characters that a conversion has taken. -/
def pieces (stray : Text → Option (Text × Nat)) : Nat → Text → Option (List (Option Text))
  | _, [] => some []
  | skip + 1, _ :: t => pieces stray skip t
  | 0, c :: t =>
    if c = nul then some []
    else if c = ' ' then (pieces stray 0 t).map (none :: ·)
    else if c = '%' ∧ cString t ≠ [] then
      if t.head? = some '%' then (pieces stray 1 t).map (some ['%'] :: ·)
      else (stray t).bind fun e => (pieces stray e.2 t).map (some e.1 :: ·)
    else (pieces stray 0 t).map (some [c] :: ·)

/-- Arguments from pieces; the first parameter is the argument begun. -/
def gather : Option Text → List (Option Text) → List Text
  | cur, [] => cur.toList
  | cur, none :: ps => cur.toList ++ gather none ps
  | cur, some e :: ps => gather (some (cur.getD [] ++ e)) ps

/-- `redisFormatCommand`; `none` when the format is rejected. -/
def formatArgs (stray : Text → Option (Text × Nat)) (fmt : Text) : Option (List Text) :=
  (pieces stray 0 fmt).map (gather none)

theorem pieces_plain {stray : Text → Option (Text × Nat)} {w : Text}
    (h : ∀ c ∈ w, c ≠ ' ' ∧ c ≠ '%' ∧ c ≠ nul) (t : Text) :
    pieces stray 0 (w ++ t) = (pieces stray 0 t).map (w.map (fun c => some [c]) ++ ·) := by
  induction w with
  | nil => simp
  | cons c w ih =>
    obtain ⟨blank, percent, zero⟩ := h c (by simp)
    have rest := ih fun c' hc => h c' (by simp [hc])
    simp [pieces, blank, percent, zero, rest, Function.comp_def]

theorem gather_append (a w : Text) (ps : List (Option Text)) :
    gather (some a) (w.map (fun c => some [c]) ++ ps) = gather (some (a ++ w)) ps := by
  induction w generalizing a with
  | nil => simp
  | cons c w ih => simp [gather, ih]

theorem gather_word {w : Text} (h : w ≠ []) (ps : List (Option Text)) :
    gather none (w.map (fun c => some [c]) ++ ps) = gather (some w) ps := by
  cases w with
  | nil => exact absurd rfl h
  | cons c w => simpa [gather] using gather_append [c] w ps

theorem formatArgs_word {stray : Text → Option (Text × Nat)} {w : Text} (h : IsWord w) :
    formatArgs stray w = some [w] := by
  have e : pieces stray 0 (w ++ []) = _ := pieces_plain h.plain []
  have g := gather_word h.ne_nil []
  rw [List.append_nil] at e g
  simp [formatArgs, e, pieces, g, gather]

theorem formatArgs_cons {stray : Text → Option (Text × Nat)} {w : Text} (h : IsWord w)
    (t : Text) : formatArgs stray (w ++ ' ' :: t) = (formatArgs stray t).map (w :: ·) := by
  have blank : pieces stray 0 (' ' :: t) = (pieces stray 0 t).map (none :: ·) := by
    simp [pieces, show ' ' ≠ nul by decide]
  simp [formatArgs, pieces_plain h.plain, blank, gather_word h.ne_nil, gather, Function.comp_def]

/-! ## The server -/

inductive Verb
  | get | set | incrby | sadd | smembers | zadd | zrange | zrangebyscore | hset | hgetall | del
  deriving DecidableEq

inductive Reply
  | nil
  | ok
  | error
  | integer (n : Int)
  | string (t : Text)
  | array (ts : List Text)

/-- The number a counter holds; `none` when the value is none. -/
def counterAt : Option Val → Option Int
  | none => some 0
  | some (.str t) => strictInt t
  | some _ => none

def setAt : Option Val → Option (Finset Text)
  | none => some ∅
  | some (.set s) => some s
  | some _ => none

def zsetAt : Option Val → Option (AList fun _ : Text => Rat)
  | none => some ∅
  | some (.zset z) => some z
  | some _ => none

def hashAt : Option Val → Option (AList fun _ : Text => Text)
  | none => some ∅
  | some (.hash h) => some h
  | some _ => none

/-- Lower scores first, equal scores in the order of the members. -/
def rangeEntries (z : AList fun _ : Text => Rat) : List (Sigma fun _ : Text => Rat) :=
  z.entries.insertionSort fun a b => a.2 < b.2 ∨ a.2 = b.2 ∧ a.1 ≤ b.1

def rangeOrder (z : AList fun _ : Text => Rat) : List Text := (rangeEntries z).map (·.1)

theorem perm_rangeEntries (z : AList fun _ : Text => Rat) : (rangeEntries z).Perm z.entries :=
  List.perm_insertionSort _ _

theorem perm_rangeOrder (z : AList fun _ : Text => Rat) : (rangeOrder z).Perm z.keys :=
  (perm_rangeEntries z).map _

def rangeByScore (z : AList fun _ : Text => Rat) (min max : Rat) : List Text :=
  ((rangeEntries z).filter fun e => min ≤ e.2 ∧ e.2 ≤ max).map (·.1)

def flatFields (h : AList fun _ : Text => Text) : List Text :=
  h.entries.flatMap fun e => [e.1, e.2]

/-- What the words after the value ask of `SET`. -/
structure SetOptions where
  nx : Bool
  xx : Bool
  ex : Bool
  px : Bool
  /-- The time to live, of which only the check is modelled. -/
  expire : Option Text

def SetOptions.start : SetOptions := ⟨false, false, false, false, none⟩

def isOption (name : String) (arg : Text) : Bool := arg.map Char.toLower = name.toList

def setOptions (o : SetOptions) : List Text → Option SetOptions
  | [] => some o
  | [a] =>
    if isOption "nx" a ∧ o.xx = false then some { o with nx := true }
    else if isOption "xx" a ∧ o.nx = false then some { o with xx := true }
    else none
  | a :: next :: rest =>
    if isOption "nx" a ∧ o.xx = false then setOptions { o with nx := true } (next :: rest)
    else if isOption "xx" a ∧ o.nx = false then setOptions { o with xx := true } (next :: rest)
    else if isOption "ex" a ∧ o.px = false then
      setOptions { o with ex := true, expire := some next } rest
    else if isOption "px" a ∧ o.ex = false then
      setOptions { o with px := true, expire := some next } rest
    else none

def SetOptions.expireOk (o : SetOptions) : Bool :=
  match o.expire with
  | none => true
  | some t => (strictInt t).any fun n => decide (0 < n)

/-- The pairs of `HSET`; `none` when a value is missing. -/
def fieldPairs : List Text → Option (List (Text × Text))
  | [] => some []
  | [_] => none
  | f :: v :: rest => (fieldPairs rest).map ((f, v) :: ·)

def setFields (h : AList fun _ : Text => Text) (ps : List (Text × Text)) :
    AList fun _ : Text => Text :=
  ps.foldl (fun h p => h.insert p.1 p.2) h

def serve (m : Machine) (verb : Verb) (args : List Text) (db : Db) : Reply × Db :=
  match verb, args with
  | .get, [k] =>
    match db k with
    | none => (.nil, db)
    | some (.str t) => (.string t, db)
    | some _ => (.error, db)
  | .set, k :: v :: options =>
    match setOptions .start options with
    | some o =>
      if o.expireOk then
        if (o.nx = true ∧ (db k).isSome) ∨ (o.xx = true ∧ (db k).isNone) then (.nil, db)
        else (.ok, db.put k (.str v))
      else (.error, db)
    | none => (.error, db)
  | .incrby, [k, by_] =>
    match counterAt (db k), strictInt by_ with
    | some v, some i =>
      if InLong v ∧ InLong (v + i) then
        (.integer (v + i), db.put k (.str (decimal (v + i))))
      else (.error, db)
    | _, _ => (.error, db)
  | .sadd, k :: v :: vs =>
    match setAt (db k) with
    | some s =>
      let s' := (v :: vs).foldl (fun s m => insert m s) s
      (.integer (s'.card - s.card), db.put k (.set s'))
    | none => (.error, db)
  | .smembers, [k] =>
    match setAt (db k) with
    | some s => (.array (m.listing k s), db)
    | none => (.error, db)
  -- One score and one member, as the repository means it.
  | .zadd, [k, score, v] =>
    match zsetAt (db k), strictInt score with
    | some z, some s => (.integer (if v ∈ z then 0 else 1), db.put k (.zset (z.insert v (s : Rat))))
    | _, _ => (.error, db)
  | .zrange, [k] =>
    match zsetAt (db k) with
    | some z => (.array (rangeOrder z), db)
    | none => (.error, db)
  | .zrangebyscore, [k, min, max] =>
    match zsetAt (db k), strictInt min, strictInt max with
    | some z, some lo, some hi => (.array (rangeByScore z lo hi), db)
    | _, _, _ => (.error, db)
  | .hset, k :: f :: v :: rest =>
    match fieldPairs rest, hashAt (db k) with
    | some ps, some h =>
      let h' := setFields h ((f, v) :: ps)
      (.integer (h'.keys.length - h.keys.length), db.put k (.hash h'))
    | _, _ => (.error, db)
  | .hgetall, [k] =>
    match hashAt (db k) with
    | some h => (.array (flatFields h), db)
    | none => (.error, db)
  | .del, [k] => (.integer (if (db k).isSome then 1 else 0), Function.update db k none)
  | _, _ => (.error, db)

theorem serve_set {m : Machine} {k v : Text} {db : Db} :
    serve m .set [k, v] db = (.ok, db.put k (.str v)) := by
  simp [serve, setOptions, SetOptions.start, SetOptions.expireOk]

theorem serve_incrby {m : Machine} {k t : Text} {db : Db} {v i : Int}
    (hv : counterAt (db k) = some v) (hi : strictInt t = some i)
    (fits : InLong v ∧ InLong (v + i)) :
    serve m .incrby [k, t] db = (.integer (v + i), db.put k (.str (decimal (v + i)))) := by
  simp only [serve, hv, hi, if_pos fits]

theorem serve_incrby_overflow {m : Machine} {k t : Text} {db : Db} {v i : Int}
    (hv : counterAt (db k) = some v) (hi : strictInt t = some i)
    (beyond : ¬(InLong v ∧ InLong (v + i))) : serve m .incrby [k, t] db = (.error, db) := by
  simp only [serve, hv, hi, if_neg beyond]

/-- The server changes only the key that is named first. -/
theorem serve_frame {m : Machine} {verb : Verb} {k k' : Text} {args : List Text} {db : Db}
    (h : k' ≠ k) : (serve m verb (k :: args) db).2 k' = db k' := by
  unfold serve
  split
  all_goals rename_i e
  all_goals try (obtain ⟨rfl, rfl⟩ := List.cons.inj e)
  all_goals repeat' split
  all_goals simp [h]

/-- What the server replies and does depends on the key that is named first. -/
theorem serve_congr {m : Machine} (verb : Verb) {k : Text} (args : List Text) {db db' : Db}
    (h : db k = db' k) : (serve m verb (k :: args) db).1 = (serve m verb (k :: args) db').1 ∧
      (serve m verb (k :: args) db).2 k = (serve m verb (k :: args) db').2 k := by
  unfold serve
  split
  all_goals rename_i e
  all_goals try (obtain ⟨rfl, rfl⟩ := List.cons.inj e)
  all_goals simp only [h]
  all_goals repeat' split
  all_goals simp_all

/-- A command whose text after the verb is `fmt`; no reply when hiredis rejects it. -/
def redisCommand (m : Machine) (verb : Verb) (fmt : Text) (db : Db) : Option Reply × Db :=
  match formatArgs m.stray fmt with
  | some args => let r := serve m verb args db; (some r.1, r.2)
  | none => (none, db)

theorem redisCommand_frame {m : Machine} {verb : Verb} {k : Key} {k' t : Text} {db : Db}
    (h : k' ≠ k.text) : (redisCommand m verb (k.text ++ ' ' :: t) db).2 k' = db k' := by
  rw [redisCommand, formatArgs_cons k.isWord_text]
  cases formatArgs m.stray t with
  | none => rfl
  | some args => exact serve_frame h

theorem redisCommand_congr {m : Machine} (verb : Verb) {k : Key} (t : Text) {db db' : Db}
    (h : db k.text = db' k.text) :
    (redisCommand m verb (k.text ++ ' ' :: t) db).1 =
        (redisCommand m verb (k.text ++ ' ' :: t) db').1 ∧
      (redisCommand m verb (k.text ++ ' ' :: t) db).2 k.text =
        (redisCommand m verb (k.text ++ ' ' :: t) db').2 k.text := by
  simp only [redisCommand, formatArgs_cons k.isWord_text]
  cases formatArgs m.stray t with
  | none => exact ⟨rfl, h⟩
  | some args =>
    obtain ⟨reply, value⟩ := serve_congr (m := m) verb args h
    exact ⟨congrArg some reply, value⟩

namespace RedisDb

/-- The `int` that becomes of a `long long` reply. -/
def integerOf : Option Reply → Int32
  | some (.integer n) => Int32.ofInt n
  | _ => 0

/-- The number is read after the reply has been freed. -/
def freedInteger (m : Machine) : Option Reply → Int32
  | some (.integer n) => m.freed n
  | _ => 0

def set (m : Machine) (τ : Ty) (key : Text) (value : τ.Val) (db : Db) : Int32 × Db :=
  match redisCommand m .set (key ++ ' ' :: τ.print m.doubles value) db with
  | (some .ok, db') => (1, db')
  | (_, db') => (0, db')

def get (m : Machine) (τ : Ty) (key : Text) (default_v : τ.Val) (db : Db) : τ.Val :=
  match (serve m .get [cString key] db).1 with
  | .string t => τ.extract m.doubles m.uninit (cString t)
  | _ => default_v

def incr (m : Machine) (key : Text) (integer : Int32) (db : Db) : Int32 × Db :=
  let r := serve m .incrby [cString key, decimal integer.toInt] db
  (freedInteger m (some r.1), r.2)

/-- The score is cut off before it is sent. -/
def zadd (m : Machine) (τ : Ty) (key : Text) (score : Rat) (value : τ.Val) (db : Db) : Int32 × Db :=
  let r := redisCommand m .zadd
    (key ++ ' ' :: (decimal (m.longLong score) ++ ' ' :: τ.print m.doubles value)) db
  (integerOf r.1, r.2)

def sadd (m : Machine) (τ : Ty) (key : Text) (value : τ.Val) (db : Db) : Int32 × Db :=
  let r := redisCommand m .sadd (key ++ ' ' :: τ.print m.doubles value) db
  (integerOf r.1, r.2)

def hset (m : Machine) (τ : Ty) (key field : Text) (value : τ.Val) (db : Db) : Int32 × Db :=
  let r := redisCommand m .hset (key ++ ' ' :: (field ++ ' ' :: τ.print m.doubles value)) db
  (freedInteger m r.1, r.2)

/-- The elements of an array reply, read one by one; `none` stands for `NULL`. -/
def members (m : Machine) (τ : Ty) : Reply → Option (List τ.Val)
  | .array ts => some (ts.map fun t => τ.extract m.doubles m.uninit (cString t))
  | _ => none

def smembers (m : Machine) (τ : Ty) (key : Text) (db : Db) : Option (List τ.Val) :=
  members m τ (serve m .smembers [cString key] db).1

/-- The range `0 … (long long)DBL_MAX` is the whole set. -/
def zmembers (m : Machine) (τ : Ty) (key : Text) (db : Db) : Option (List τ.Val) :=
  members m τ (serve m .zrange [cString key] db).1

def zrangebyscore (m : Machine) (τ : Ty) (key : Text) (min max : Rat) (db : Db) :
    Option (List τ.Val) :=
  members m τ (serve m .zrangebyscore
    [cString key, decimal (m.longLong min), decimal (m.longLong max)] db).1

/-- `std::map::insert` keeps the first value of a field. -/
def pairs (m : Machine) (τ : Ty) : List Text → List (Text × τ.Val)
  | f :: v :: ts => (cString f, τ.extract m.doubles m.uninit (cString v)) :: pairs m τ ts
  | _ => []

def hget (m : Machine) (τ : Ty) (key : Text) (db : Db) : Option (List (Text × τ.Val)) :=
  match (serve m .hgetall [cString key] db).1 with
  | .array ts => some (pairs m τ ts)
  | _ => none

def removeKey (m : Machine) (key : Text) (db : Db) : Int32 × Db :=
  let r := serve m .del [cString key] db
  (freedInteger m (some r.1), r.2)

end RedisDb

end SimpleDsp
