import SimpleDsp.Receivers.Positions

/-!
# Requests to user_op

The parameters of a query string, the call that `user_op` makes of them, and its
answers over runs of requests.

* `read_last`: a field holds the last value given for its parameter;
* `Served.kept`: what requests and calls keep of the places;
* `user_op_round_trip_iff`: when a query answers what was added.
-/

namespace SimpleDsp

open DecimalText Programs

namespace UserMap

open AdMap (GeoInfo UserPosition)
open Prog (call)

/-! ## Parameters -/

/-- An item of the list that uriparser makes; without a `=` it has no value. -/
structure QueryItem where
  key : Text
  value : Option Text

inductive ParamKey
  | action | x | y | z | mac | start | end_ | mall_id | phone | shop_id
  deriving DecidableEq

/-- The comparisons of the loop. -/
def paramKey (key : Text) : Option ParamKey :=
  if key = "action".toList then some .action
  else if key = "x".toList ∨ key = "longitude".toList then some .x
  else if key = "y".toList ∨ key = "latitude".toList then some .y
  else if key = "z".toList ∨ key = "level".toList then some .z
  else if key = "mac".toList then some .mac
  else if key = "start".toList then some .start
  else if key = "end".toList then some .end_
  else if key = "mall_id".toList then some .mall_id
  else if key = "phone".toList then some .phone
  else if key = "shop_id".toList then some .shop_id
  else none

/-- The local variables of `user_op`. -/
structure Params where
  action : Text
  mac : UInt64
  x : Rat
  y : Rat
  z : Int32
  start : Rat
  end_ : Rat
  mall_id : Int32
  phone : Text
  shop_id : Int32
  deriving DecidableEq

/-- `INT_MIN` as an `unsigned long long` -/
def noMac : UInt64 := INT_MIN.toInt64.toUInt64

def FLT_MAX : Rat := (2 ^ 24 - 1) * 2 ^ 104

def Params.initial : Params where
  action := []
  mac := noMac
  x := FLT_MAX
  y := FLT_MAX
  z := INT_MIN
  start := 0
  end_ := 2 ^ 32 - 1
  mall_id := 2
  phone := []
  shop_id := 0

section
variable (d : Doubles) (F : Floats)

/-- `stringstream(value) >> v`; from a blank text nothing is read. -/
def streamInto (τ : Ty) (value : Text) (v : τ.Val) : τ.Val :=
  if skipSpace value = [] then v else τ.parse d value

def streamFloat (value : Text) (v : Rat) : Rat := if skipSpace value = [] then v else F.read value

def Params.set (p : Params) (value : Text) : ParamKey → Params
  | .action => { p with action := value }
  | .x => { p with x := streamFloat F value p.x }
  | .y => { p with y := streamFloat F value p.y }
  | .z => { p with z := streamInto d .int value p.z }
  | .mac => { p with mac := streamInto d .ull value p.mac }
  | .start => { p with start := streamInto d .double value p.start }
  | .end_ => { p with end_ := streamInto d .double value p.end_ }
  | .mall_id => { p with mall_id := streamInto d .int value p.mall_id }
  | .phone => { p with phone := value }
  | .shop_id => { p with shop_id := streamInto d .int value p.shop_id }

/-- The loop over the list; `none` when it reads a value that is not there. -/
def Params.read (p : Params) : List QueryItem → Option Params
  | [] => some p
  | item :: rest =>
    match paramKey item.key with
    | none => p.read rest
    | some k => item.value.bind fun value => (p.set d F value k).read rest

end

/-- The last value given for a parameter. -/
def lastValue (k : ParamKey) : List QueryItem → Option Text
  | [] => none
  | item :: rest =>
    (lastValue k rest).or (if paramKey item.key = some k then item.value else none)

section
variable {d : Doubles} {F : Floats} {α : Type} {field : Params → α} {k : ParamKey}
  {q : List QueryItem} {p p' : Params}

@[simp] theorem set_action (p : Params) (value : Text) : (p.set d F value k).action =
    if k = .action then value else p.action := by
  cases k <;> rfl

@[simp] theorem set_mac (p : Params) (value : Text) : (p.set d F value k).mac =
    if k = .mac then streamInto d .ull value p.mac else p.mac := by
  cases k <;> rfl

@[simp] theorem set_mall_id (p : Params) (value : Text) : (p.set d F value k).mall_id =
    if k = .mall_id then streamInto d .int value p.mall_id else p.mall_id := by
  cases k <;> rfl

@[simp] theorem set_x (p : Params) (value : Text) : (p.set d F value k).x =
    if k = .x then streamFloat F value p.x else p.x := by
  cases k <;> rfl

@[simp] theorem set_y (p : Params) (value : Text) : (p.set d F value k).y =
    if k = .y then streamFloat F value p.y else p.y := by
  cases k <;> rfl

@[simp] theorem set_z (p : Params) (value : Text) : (p.set d F value k).z =
    if k = .z then streamInto d .int value p.z else p.z := by
  cases k <;> rfl

/-- A parameter that is not given leaves its field alone. -/
theorem read_absent (other : ∀ (p : Params) value k', k' ≠ k → field (p.set d F value k') = field p)
    (absent : lastValue k q = none) (read : p.read d F q = some p') : field p' = field p := by
  induction q generalizing p with
  | nil => exact congrArg field (Option.some.inj read).symm
  | cons item rest ih =>
    obtain ⟨absent, here⟩ := Option.or_eq_none_iff.mp absent
    rw [Params.read] at read
    cases key : paramKey item.key with
    | none =>
      rw [key] at read
      exact ih absent read
    | some k' =>
      rw [key] at read
      obtain ⟨value, given, read⟩ := Option.bind_eq_some_iff.mp read
      have ne : k' ≠ k := by
        rintro rfl
        rw [if_pos key, given] at here
        cases here
      rw [ih absent read, other p value k' ne]

/-- The last value decides, if it is one that can be read. -/
theorem read_last (other : ∀ (p : Params) value k', k' ≠ k → field (p.set d F value k') = field p)
    {value : Text} {a : α} (own : ∀ p : Params, field (p.set d F value k) = a)
    (last : lastValue k q = some value) (read : p.read d F q = some p') : field p' = a := by
  induction q generalizing p with
  | nil => cases last
  | cons item rest ih =>
    rw [lastValue] at last
    rw [Params.read] at read
    cases later : lastValue k rest with
    | some value' =>
      rw [later, Option.some_or] at last
      obtain rfl := Option.some.inj last
      cases key : paramKey item.key with
      | none =>
        rw [key] at read
        exact ih later read
      | some k' =>
        rw [key] at read
        obtain ⟨value', -, read⟩ := Option.bind_eq_some_iff.mp read
        exact ih later read
    | none =>
      rw [later, Option.none_or] at last
      split at last
      · rename_i key
        rw [key] at read
        obtain ⟨value', given, read⟩ := Option.bind_eq_some_iff.mp read
        obtain rfl := Option.some.inj (given.symm.trans last)
        rw [read_absent other later read, own p]
      · cases last

/-- Only a value that is missing stops the loop. -/
theorem read_of_values (given : ∀ item ∈ q, item.value.isSome) : ∃ p', p.read d F q = some p' := by
  induction q generalizing p with
  | nil => exact ⟨p, rfl⟩
  | cons item rest ih =>
    obtain ⟨value, has⟩ := Option.isSome_iff_exists.mp (given item List.mem_cons_self)
    have later : ∀ item ∈ rest, item.value.isSome := fun item h => given item (List.mem_cons_of_mem _ h)
    rw [Params.read, has]
    cases paramKey item.key with
    | none => exact ih later
    | some k => exact ih later

theorem streamInto_decimal {τ : Ty} {v : Int} (old : τ.Val) :
    streamInto d τ (decimal v) old = τ.parse d (decimal v) := by
  have text : skipSpace (decimal v) ≠ [] := by simp [decimal_ne_nil]
  rw [streamInto, if_neg text]

theorem streamFloat_decimal {v : Int} (old : Rat) : streamFloat F (decimal v) old = F.read (decimal v) := by
  have text : skipSpace (decimal v) ≠ [] := by simp [decimal_ne_nil]
  rw [streamFloat, if_neg text]

end

/-! ## Calls -/

/-- The calls that `user_op` makes. -/
inductive UserCall
  | add (mac : UInt64) (x y : Rat) (z mall_id : Int32)
  | remove (mac mall_id : Int32)
  | update (mac : UInt64) (phone : Text)
  | query (mac : UInt64) (mall_id : Int32)
  | listAll (start end_ : Rat) (mall_id : Int32)
  | list (start end_ : Rat) (mall_id shop_id : Int32)
  | getId (mac : UInt64)

/-- `user_op` from the end of the loop on: the call it makes, or its `result`
without one. -/
def userOp (p : Params) : Except Text UserCall :=
  let unlocated := p.mac = noMac ∨ p.x = FLT_MAX ∨ p.y = FLT_MAX ∨ p.z = INT_MIN
  if p.action = "add".toList then
    if unlocated then .error "fail".toList else .ok (.add p.mac p.x p.y p.z p.mall_id)
  else if p.action = "remove".toList then
    if p.mac = noMac then .error "fail".toList else .ok (.remove p.mac.toUInt32.toInt32 p.mall_id)
  else if p.action = "update".toList then
    if unlocated then .error "fail".toList else .ok (.update p.mac p.phone)
  else if p.action = "query".toList then
    -- The mall is not passed on, and its default is 0.
    if p.mac = noMac then .error "fail".toList else .ok (.query p.mac 0)
  else if p.action = "list_all".toList then .ok (.listAll p.start p.end_ p.mall_id)
  else if p.action = "list".toList then .ok (.list p.start p.end_ p.mall_id p.shop_id)
  else if p.action = "get_id".toList then
    if p.mac = noMac then .error "fail".toList else .ok (.getId p.mac)
  else .error "none".toList

/-- What `ret` is filled with. A position and a user id come with the result
`success`, the listings with none. -/
inductive Ret
  | result (result : Text)
  | position (position : GeoInfo)
  | userId (user_id : Int32)
  | users (list : UserListAll)
  | list (list : UserList)

def success : Ret := .result "success".toList

/-- The reading of the clock that both listings begin with. -/
def listingTime : UserM Int64 := do
  userMapInit
  call Cmd.time

/-- The call returns and `ret` is filled. -/
def UserCall.Performs (E : Env) (cfg : Config) (F : Floats) (pid : Nat) :
    UserCall → Linked → Ret → Linked → Prop
  | .add mac x y z mall_id, v, ret, v' =>
    ∃ a, (userAdd cfg mac x y z mall_id).Runs (linked E pid) v (.ok a) v' ∧ ret = success
  -- `user_remove` only returns -1.
  | .remove _ _, v, ret, v' => ret = success ∧ v' = v
  -- The phone goes to a column of PG's table that is not modelled.
  | .update mac _, v, ret, v' =>
    ∃ user_id, (userGetId mac).Runs (linked E pid) v (.ok user_id) v' ∧ ret = success
  | .query mac mall_id, v, ret, v' =>
    ∃ pos, (userQuery F mac mall_id).Runs (linked E pid) v (.ok pos) v' ∧ ret = .position pos.position
  | .listAll start end_ mall_id, v, ret, v' =>
    ∃ t_now, listingTime.Runs (linked E pid) v (.ok t_now) v' ∧
      ret = .users (userListAll E.type E.m cfg (v'.reads pid) t_now start end_ mall_id)
  | .list start end_ mall_id shop_id, v, ret, v' =>
    ∃ t_now, listingTime.Runs (linked E pid) v (.ok t_now) v' ∧
      ret = .list (userList E.type E.m cfg (v'.reads pid) t_now start end_ mall_id shop_id)
  | .getId mac, v, ret, v' =>
    ∃ user_id, (userGetId mac).Runs (linked E pid) v (.ok user_id) v' ∧ ret = .userId user_id

/-! ## Requests -/

/-- A request to the process `pid`. -/
structure Request where
  pid : Nat
  query : List QueryItem

/-- The request, made in `v` with the clock at `t`, is answered with `ret`. -/
def Answered (E : Env) (cfg : Config) (F : Floats) (v : Linked) (r : Request) (t : Int64) (ret : Ret)
    (v' : Linked) : Prop :=
  ∃ p, Params.initial.read E.m.doubles F r.query = some p ∧
    match userOp p with
    | .error result => ret = .result result ∧ v' = v
    | .ok c => c.Performs E cfg F r.pid (v.at [t]) ret v'

/-- The sightings a call records. -/
def UserCall.records (t : Int64) : UserCall → List Record
  | .add mac x y z mall_id => [⟨mac, mall_id, t, some ⟨x, y, z⟩⟩]
  | _ => []

def Request.records (d : Doubles) (F : Floats) (r : Request) (t : Int64) : List Record :=
  match (Params.initial.read d F r.query).map userOp with
  | some (.ok c) => c.records t
  | _ => []

/-- Of the sightings that a process means to record, those that reach the store. -/
def Linked.heard (v : Linked) (pid : Nat) (rs : List Record) : List Record :=
  if v.err pid then [] else rs

/-- Requests that were answered and calls of `user_add` that have returned, in any
order, and the sightings they have recorded, the latest first. -/
inductive Served (E : Env) (cfg : Config) (F : Floats) (v0 : Linked) : List Record → Linked → Prop
  | start : Served E cfg F v0 [] v0
  | request {log : List Record} {v v' : Linked} {r : Request} {t : Int64} {ret : Ret}
      (before : Served E cfg F v0 log v) (answered : Answered E cfg F v r t ret v') :
      Served E cfg F v0 (v.heard r.pid (r.records E.m.doubles F t) ++ log) v'
  | add {log : List Record} {v v' : Linked} {s : Sighting} {t : Int64} {a : Int32}
      (before : Served E cfg F v0 log v) (runs : LinkedCall E cfg v s t (.ok a) v') :
      Served E cfg F v0 (v.heard s.pid [s.record t] ++ log) v'

section
variable {E : Env} {cfg : Config} {F : Floats} {pid : Nat} {v v' v0 : Linked} {log : List Record}
  {t : Int64} {ret : Ret}

variable {P : List Record → World → Prop}

theorem LinkedCall.kept (keeps : KeepsPlaces E P) (answered : ¬E.lossy) {s : Sighting} {a : Int32}
    (runs : LinkedCall E cfg v s t (.ok a) v') (h : P log v.world) :
    P (v.heard s.pid [s.record t] ++ log) v'.world := by
  unfold Linked.heard
  cases dead : v.err s.pid with
  | false => exact keeps.add _ _ _ _ _ t ⟨s.x, s.y, s.z⟩ (runs.places answered dead) h
  | true => exact keeps.of_db (w := v.world) (Runs.unheard (v := v.at [t]) dead runs).2 h

theorem UserCall.Performs.kept (keeps : KeepsPlaces E P) (answered : ¬E.lossy) {c : UserCall}
    (performs : c.Performs E cfg F pid (v.at [t]) ret v') (h : P log v.world) :
    P (v.heard pid (c.records t) ++ log) v'.world := by
  have ids {mac : UInt64} {x : Except Exn Int32}
      (runs : (userGetId mac).Runs (linked E pid) (v.at [t]) x v') : P log v'.world := by
    have id : (userGetId mac).Every (Within BesidesPlace) := every_userGetId trivial fun _ => trivial
    exact keeps.quiet log v.world v'.world (runs.post _ (wp_linkedFrame id _)) h
  have listing {x : Except Exn Int64} (runs : listingTime.Runs (linked E pid) (v.at [t]) x v') :
      P log v'.world := by
    apply keeps.of_db (w := v.world) _ h
    apply runs.post (Q := fun _ u => u.world.db = v.world.db)
    intro ok v1 begun
    obtain ⟨started, -⟩ := (linked_other (by simp)).mp begun
    have db1 : v1.world.db = v.world.db := (exec_init started).1
    cases ok with
    | false => exact db1
    | true =>
      intro t_now v2 reading
      exact (exec_db ((linked_other (by simp)).mp reading).1 (by simp)).trans db1
  have quiet (none : c.records t = []) (h : P log v'.world) :
      P (v.heard pid (c.records t) ++ log) v'.world := by
    rw [none, Linked.heard, ite_self]
    exact h
  cases c with
  | add mac x y z mall_id =>
    obtain ⟨a, runs, -⟩ := performs
    exact LinkedCall.kept (s := ⟨pid, mac, x, y, z, mall_id⟩) keeps answered runs h
  | remove mac mall_id =>
    obtain ⟨-, rfl⟩ := performs
    exact quiet rfl (keeps.of_db (w := v.world) rfl h)
  | update mac phone =>
    obtain ⟨user_id, runs, -⟩ := performs
    exact quiet rfl (ids runs)
  | query mac mall_id =>
    obtain ⟨pos, runs, -⟩ := performs
    obtain ⟨db, -⟩ := runs.post _ (wp_userQuery_linked answered _) pos rfl
    exact quiet rfl (keeps.of_db (w := v.world) db h)
  | listAll start end_ mall_id =>
    obtain ⟨t_now, runs, -⟩ := performs
    exact quiet rfl (listing runs)
  | list start end_ mall_id shop_id =>
    obtain ⟨t_now, runs, -⟩ := performs
    exact quiet rfl (listing runs)
  | getId mac =>
    obtain ⟨user_id, runs, -⟩ := performs
    exact quiet rfl (ids runs)

theorem Answered.kept (keeps : KeepsPlaces E P) (answered : ¬E.lossy) {r : Request}
    (made : Answered E cfg F v r t ret v') (h : P log v.world) :
    P (v.heard r.pid (r.records E.m.doubles F t) ++ log) v'.world := by
  obtain ⟨p, read, made⟩ := made
  simp only [Request.records, read, Option.map_some]
  cases op : userOp p with
  | error result =>
    rw [op] at made
    obtain ⟨-, rfl⟩ := made
    have nothing : v'.heard r.pid [] = [] := ite_self _
    rw [nothing]
    exact h
  | ok c =>
    rw [op] at made
    exact UserCall.Performs.kept keeps answered made h

theorem Served.kept (keeps : KeepsPlaces E P) (answered : ¬E.lossy) {log0 : List Record}
    (start : P log0 v0.world) (run : Served E cfg F v0 log v) : P (log ++ log0) v.world := by
  induction run with
  | start => exact start
  | request _ request ih =>
    rw [List.append_assoc]
    exact request.kept keeps answered ih
  | add _ runs ih =>
    rw [List.append_assoc]
    exact runs.kept keeps answered ih

/-! ## Adding and asking -/

/-- The request asks for the action, with the MAC and the mall, among other things. -/
structure Request.Asks (r : Request) (action : String) (mac : UInt64) (mall_id : Int32) : Prop where
  action : lastValue .action r.query = some action.toList
  mac : lastValue .mac r.query = some (Key.macText mac)
  mall_id : lastValue .mall_id r.query = some (decimal mall_id.toInt)

/-- The request has the place. -/
structure Request.Locates (r : Request) (x y : Int) (z : Int32) : Prop where
  x : lastValue .x r.query = some (decimal x)
  y : lastValue .y r.query = some (decimal y)
  z : lastValue .z r.query = some (decimal z.toInt)

section
variable {d : Doubles} {r : Request} {p : Params} {action : String} {mac : UInt64} {mall_id z : Int32}
  {x y : Int}

theorem parse_macText (mac : UInt64) : Ty.parse d .ull (Key.macText mac) = mac :=
  parse_print (d := d) (τ := .ull) rfl mac

theorem parse_int (v : Int32) : Ty.parse d .int (decimal v.toInt) = v :=
  parse_print (d := d) (τ := .int) rfl v

theorem Request.Asks.params (asks : r.Asks action mac mall_id)
    (read : Params.initial.read d F r.query = some p) :
    p.action = action.toList ∧ p.mac = mac ∧ p.mall_id = mall_id := by
  refine ⟨?_, ?_, ?_⟩
  · exact read_last (fun p value k ne => by simp [ne]) (fun p => by simp) asks.action read
  · refine read_last (fun p value k ne => by simp [ne]) (fun p => ?_) asks.mac read
    rw [set_mac, if_pos rfl, Key.macText, ← decimal_ofNat, streamInto_decimal]
    exact parse_macText mac
  · refine read_last (fun p value k ne => by simp [ne]) (fun p => ?_) asks.mall_id read
    rw [set_mall_id, if_pos rfl, streamInto_decimal]
    exact parse_int mall_id

theorem Request.Locates.params (exact : ExactIntegers d F) (hx : x.natAbs < 10 ^ 6)
    (hy : y.natAbs < 10 ^ 6) (locates : r.Locates x y z)
    (read : Params.initial.read d F r.query = some p) : p.x = x ∧ p.y = y ∧ p.z = z := by
  refine ⟨?_, ?_, ?_⟩
  · refine read_last (fun p value k ne => by simp [ne]) (fun p => ?_) locates.x read
    rw [set_x, if_pos rfl, streamFloat_decimal, exact.readFloat x hx]
  · refine read_last (fun p value k ne => by simp [ne]) (fun p => ?_) locates.y read
    rw [set_y, if_pos rfl, streamFloat_decimal, exact.readFloat y hy]
  · refine read_last (fun p value k ne => by simp [ne]) (fun p => ?_) locates.z read
    rw [set_z, if_pos rfl, streamInto_decimal]
    exact parse_int z

theorem ne_FLT_MAX (small : x.natAbs < 10 ^ 6) : (x : Rat) ≠ FLT_MAX := by
  intro e
  have whole : x = (2 ^ 24 - 1) * 2 ^ 104 := by
    have cast : (x : Rat) = (((2 ^ 24 - 1) * 2 ^ 104 : Int) : Rat) := by
      rw [e, FLT_MAX]
      norm_cast
    exact_mod_cast cast
  omega

theorem Request.Asks.adds (exact : ExactIntegers d F) (hx : x.natAbs < 10 ^ 6)
    (hy : y.natAbs < 10 ^ 6) (hz : z ≠ INT_MIN) (asks : r.Asks "add" mac mall_id)
    (locates : r.Locates x y z) (read : Params.initial.read d F r.query = some p) :
    userOp p = if mac = noMac then .error "fail".toList else .ok (.add mac x y z mall_id) := by
  obtain ⟨action, rfl, rfl⟩ := asks.params read
  obtain ⟨px, py, rfl⟩ := locates.params exact hx hy read
  simp only [userOp, action, px, py, ne_FLT_MAX hx, ne_FLT_MAX hy, hz, or_false, if_true]

theorem Request.Asks.queries (asks : r.Asks "query" mac mall_id)
    (read : Params.initial.read d F r.query = some p) :
    userOp p = if mac = noMac then .error "fail".toList else .ok (.query mac 0) := by
  obtain ⟨action, rfl, -⟩ := asks.params read
  have ne : "query".toList ≠ "add".toList ∧ "query".toList ≠ "remove".toList ∧
      "query".toList ≠ "update".toList := by decide
  simp only [userOp, action, if_neg ne.1, if_neg ne.2.1, if_neg ne.2.2, if_true]

end

theorem Answered.added (answered : ¬E.lossy) (exact : ExactIntegers E.m.doubles F)
    {mac : UInt64} {mall_id z : Int32} {x y : Int} (hx : x.natAbs < 10 ^ 6) (hy : y.natAbs < 10 ^ 6)
    (hz : z ≠ INT_MIN) {r : Request} (asks : r.Asks "add" mac mall_id) (locates : r.Locates x y z)
    (named : mac ≠ noMac) (placed : Placed E log v.world) (h : Answered E cfg F v r t ret v') :
    Placed E (v.heard r.pid [⟨mac, mall_id, t, some ⟨x, y, z⟩⟩] ++ log) v'.world := by
  obtain ⟨p, read, made⟩ := h
  rw [asks.adds exact hx hy hz locates read, if_neg named] at made
  exact UserCall.Performs.kept keepsPlaces_placed answered made placed

/-- A query is about mall 0, whatever mall it names. -/
theorem Answered.queried (answered : ¬E.lossy) {mac : UInt64} {mall_id : Int32} {r : Request}
    (asks : r.Asks "query" mac mall_id) (h : Answered E cfg F v r t ret v') :
    ret = if mac = noMac then .result "fail".toList
      else .position (placeIn E F 0 mac (v.reads r.pid)) := by
  obtain ⟨p, read, made⟩ := h
  rw [asks.queries read] at made
  split
  · rename_i unnamed
    rw [if_pos unnamed] at made
    exact made.1
  · rename_i named
    rw [if_neg named] at made
    obtain ⟨pos, runs, rfl⟩ := made
    obtain ⟨-, rfl⟩ := runs.post _ (wp_userQuery_linked answered _) pos rfl
    rfl

theorem placeIn_nowhere (zero : F.ofDouble 0 = 0) (mall_id : Int32) (mac : UInt64) :
    placeIn E F mall_id mac Db.empty = ⟨0, 0, 0⟩ := by
  simp only [placeIn, CBaseMdb.get_none (show Db.empty _ = none from rfl), zero]

/-- A query answers the place that was added before if and only if the MAC is not taken for a
missing one and what the query reads in mall 0 is that place: nothing over a connection in
error; the place itself if it was added there and heard; else what mall 0 had before. -/
theorem user_op_round_trip_iff (answered : ¬E.lossy) (exact : ExactIntegers E.m.doubles F)
    (clean : ∀ (mall_id : Int32) mac prop,
      v0.world.db (Key.location mall_id.toInt mac prop).text = none)
    {mac : UInt64} {mall_id z : Int32} {x y : Int} (hx : x.natAbs < 10 ^ 6) (hy : y.natAbs < 10 ^ 6)
    (hz : z ≠ INT_MIN) {add query : Request} (adds : add.Asks "add" mac mall_id)
    (locates : add.Locates x y z) (queries : query.Asks "query" mac mall_id)
    {v1 v2 v3 : Linked} {others : List Record} {t' : Int64} {ret' : Ret}
    (before : Served E cfg F v0 log v) (added : Answered E cfg F v add t ret v1)
    (between : Served E cfg F v1 others v2)
    (apart : ∀ r ∈ others, ¬(r.mall_id = mall_id ∧ r.mac = mac))
    (queried : Answered E cfg F v2 query t' ret' v3) :
    ret' = .position ⟨x, y, z⟩ ↔ mac ≠ noMac ∧
      if v2.err query.pid then x = 0 ∧ y = 0 ∧ z = 0
      else (mall_id = 0 ∧ v.err add.pid = false) ∨
        readPlace E F 0 mac (others ++ log) = ⟨x, y, z⟩ := by
  have answers := queried.queried answered queries
  by_cases unnamed : mac = noMac
  · rw [if_pos unnamed] at answers
    simp [answers, unnamed]
  rw [if_neg unnamed] at answers
  simp only [answers, Ret.position.injEq, unnamed, ne_eq, not_false_eq_true, true_and]
  cases dead : v2.err query.pid with
  | true =>
    have zero : F.ofDouble 0 = 0 := by exact_mod_cast exact.ofDouble 0 (by decide)
    rw [Linked.reads_dead dead, placeIn_nowhere zero, if_pos rfl]
    simp [eq_comm]
  | false =>
    have places : Placed E (log ++ []) v.world :=
      before.kept keepsPlaces_placed answered fun mall_id mac prop _ => clean mall_id mac prop
    rw [List.append_nil] at places
    have places1 := added.added answered exact hx hy hz adds locates unnamed places
    have places2 := between.kept keepsPlaces_placed answered places1
    rw [Linked.reads_sound dead, places2.placeIn, if_neg (by simp)]
    have elsewhere : ¬(mall_id = 0 ∧ v.err add.pid = false) →
        readPlace E F 0 mac (others ++ (v.heard add.pid [⟨mac, mall_id, t, some ⟨x, y, z⟩⟩] ++ log)) =
          readPlace E F 0 mac (others ++ log) := by
      intro no
      apply readPlace_without
      intro r hr mine
      unfold Linked.heard at hr
      split at hr
      · cases hr
      · rename_i sound
        rw [List.mem_singleton.mp hr] at mine
        exact no ⟨mine.1, by simpa using sound⟩
    by_cases here : mall_id = 0 ∧ v.err add.pid = false
    · obtain ⟨rfl, sound⟩ := here
      have latest : readPlace E F 0 mac (others ++ ⟨mac, 0, t, some ⟨x, y, z⟩⟩ :: log) =
          readPlace E F 0 mac (⟨mac, 0, t, some ⟨x, y, z⟩⟩ :: log) := readPlace_without apart []
      simp [Linked.heard, sound, latest, readPlace_exact exact hx hy hz]
    · rw [elsewhere here]
      simp [here]

end

/-! ## Requests to compute with -/

def QueryItem.of (key : String) (value : Text) : QueryItem := ⟨key.toList, some value⟩

/-- Adds MAC 5 at the place 1, 2, 3. -/
def addFive (mall_id : Int32) : Request where
  pid := 0
  query := [.of "mac" (Key.macText 5), .of "action" "add".toList, .of "longitude" (decimal 1),
    .of "y" (decimal 2), .of "mall_id" (decimal mall_id.toInt), .of "level" (decimal 3)]

def queryFive (mall_id : Int32) : Request where
  pid := 0
  query := [.of "action" "query".toList, .of "mac" (Key.macText 5),
    .of "mall_id" (decimal mall_id.toInt)]

theorem addFive_asks (mall_id : Int32) : (addFive mall_id).Asks "add" 5 mall_id := ⟨rfl, rfl, rfl⟩

theorem addFive_locates (mall_id : Int32) : (addFive mall_id).Locates 1 2 3 := ⟨rfl, rfl, rfl⟩

theorem queryFive_asks (mall_id : Int32) : (queryFive mall_id).Asks "query" 5 mall_id :=
  ⟨rfl, rfl, rfl⟩

/-- No user has a place yet, and all connections are sound. -/
abbrev nowhere : Linked := .sound (World.fresh oneUser [])

/-- Both requests, one after the other, and the answer to the second. -/
theorem addFive_queryFive (mall_id : Int32) (t : Int64) (x y : Rat) (z : Int32) (dead : Bool)
    (runs : ((userAdd everyone 5 1 2 3 mall_id).eval linkedFull (nowhere.at [t])).bind (fun r =>
        ((userQuery .plain 5 0).eval linkedFull (r.2.at [t + 100])).map fun s =>
          (r.1, r.2.err 0,
            s.1.toOption.map fun pos => (pos.position.x, pos.position.y, pos.position.z))) =
      some (.ok 0, dead, some (x, y, z))) :
    ∃ v v', Answered fullEnv everyone .plain nowhere (addFive mall_id) t success v ∧
      v.err 0 = dead ∧
      Answered fullEnv everyone .plain v (queryFive mall_id) (t + 100) (.position ⟨x, y, z⟩) v' := by
  obtain ⟨⟨a, v⟩, first, rest⟩ := Option.bind_eq_some_iff.mp runs
  obtain ⟨⟨pos, v'⟩, second, ends⟩ := Option.map_eq_some_iff.mp rest
  simp only [Prod.mk.injEq] at ends
  obtain ⟨rfl, err, found⟩ := ends
  have given (r : Request) (values : r.query.all (·.value.isSome) = true) :
      ∃ p, Params.initial.read Machine.plain.doubles .plain r.query = some p :=
    read_of_values (List.all_eq_true.mp values)
  obtain ⟨p, read⟩ := given (addFive mall_id) rfl
  obtain ⟨p', read'⟩ := given (queryFive mall_id) rfl
  have named : (5 : UInt64) ≠ noMac := by decide
  refine ⟨v, v', ⟨p, read, ?_⟩, err, p', read', ?_⟩
  · rw [(addFive_asks mall_id).adds exactIntegers_plain (by decide) (by decide) (by decide)
      (addFive_locates mall_id) read, if_neg named]
    exact ⟨0, Prog.runs_eval _ (linked_answer exec_answerFull) first, rfl⟩
  · rw [(queryFive_asks mall_id).queries read', if_neg named]
    cases pos with
    | error e => cases found
    | ok pos =>
      obtain ⟨mac, x, y, z⟩ := pos
      cases found
      exact ⟨_, Prog.runs_eval _ (linked_answer exec_answerFull) second, rfl⟩

/-- In mall 0 the place comes back. -/
theorem user_op_round_trip_iff_zero : ∃ v v' ret,
    Answered fullEnv everyone .plain nowhere (addFive 0) 300 success v ∧
    Answered fullEnv everyone .plain v (queryFive 0) 400 ret v' ∧ ret = .position ⟨1, 2, 3⟩ := by
  obtain ⟨v, v', added, sound, queried⟩ := addFive_queryFive 0 300 1 2 3 false (by decide +kernel)
  refine ⟨v, v', _, added, queried, ?_⟩
  refine (user_op_round_trip_iff not_false exactIntegers_plain (fun _ _ _ => rfl) (by decide)
    (by decide) (by decide) (addFive_asks 0) (addFive_locates 0) (queryFive_asks 0) .start added
    .start (by simp) queried).mpr ⟨by decide, ?_⟩
  rw [show (queryFive 0).pid = 0 from rfl, sound]
  exact Or.inl ⟨rfl, rfl⟩

/-- In mall 2 it is added, and the query looks in mall 0. -/
theorem query_forgets_mall : ∃ v v' ret,
    (addFive 2).Asks "add" 5 2 ∧ (addFive 2).Locates 1 2 3 ∧ (queryFive 2).Asks "query" 5 2 ∧
    Answered fullEnv everyone .plain nowhere (addFive 2) 300 success v ∧
    Answered fullEnv everyone .plain v (queryFive 2) 400 ret v' ∧
    ret = .position ⟨0, 0, 0⟩ ∧ ret ≠ .position ⟨1, 2, 3⟩ := by
  obtain ⟨v, v', added, -, queried⟩ := addFive_queryFive 2 300 0 0 0 false (by decide +kernel)
  exact ⟨v, v', _, addFive_asks 2, addFive_locates 2, queryFive_asks 2, added, queried, rfl, by simp⟩

/-- So it is in mall 0 after the reading 21285, which puts the connection in error. -/
theorem query_unheard : ∃ v v' ret,
    Answered fullEnv everyone .plain nowhere (addFive 0) 21285 success v ∧ v.err 0 = true ∧
    Answered fullEnv everyone .plain v (queryFive 0) 21385 ret v' ∧ ret = .position ⟨0, 0, 0⟩ := by
  obtain ⟨v, v', added, dead, queried⟩ := addFive_queryFive 0 21285 0 0 0 true (by decide +kernel)
  exact ⟨v, v', _, added, dead, queried, rfl⟩

end UserMap

end SimpleDsp
