import SimpleDsp.AdMap.Filters
import SimpleDsp.Store.FloatFormats
import SimpleDsp.Receivers.Listings

/-!
# Positions

`user_query` reads the place that `user_add` has stored last, in the mall it is
asked about.

* `LinkedCall.places`: what a call of `user_add` leaves of its place;
* `KeepsPlaces`, `Placed`: the places after calls, one after the other;
* `wp_userQuery`, `readPlace`: what is read of them.
-/

namespace SimpleDsp

open DecimalText Programs

/-- How floats are read from a stream and made from doubles. -/
structure Floats where
  read : Text → Rat
  ofDouble : Rat → Rat

/-- Integers of at most six digits, as a stream prints and reads them; a float
and the memory of a double hold them. -/
structure ExactIntegers (d : Doubles) (F : Floats) : Prop where
  print : ∀ n : Int, n.natAbs < 10 ^ 6 → d.print n = decimal n
  read : ∀ n : Int, n.natAbs < 10 ^ 6 → d.read (decimal n) = n
  bits : ∀ n : Int, n.natAbs < 10 ^ 6 → d.ofBits (d.bits n) = n
  readFloat : ∀ n : Int, n.natAbs < 10 ^ 6 → F.read (decimal n) = n
  ofDouble : ∀ n : Int, n.natAbs < 10 ^ 6 → F.ofDouble n = n

/-- Floats to compute with, beside `Machine.plain`. -/
def Floats.plain : Floats := ⟨fun t => ((scanInt t).map (·.1)).getD 0, id⟩

theorem exactIntegers_plain : ExactIntegers Machine.plain.doubles .plain where
  print n _ := by simp [Machine.plain]
  read n _ := by simp [Machine.plain]
  bits n small := by
    have fits : (Int64.ofInt n).toInt = n := Int64.toInt_ofInt_of_le (by omega) (by omega)
    simp [Machine.plain, Int.toInt64, fits]
  readFloat n _ := by simp [Floats.plain]
  ofDouble _ _ := rfl

/-- A float is read to the nearest, and a double in its range converted so. -/
structure Floats.IsBinary32 (F : Floats) : Prop where
  read : ∀ t, F.read t = binary32.read t
  ofDouble : ∀ q, |binary32.nearest q| ≤ binary32.greatest → F.ofDouble q = binary32.nearest q

def Floats.binary32 : Floats := ⟨SimpleDsp.binary32.read, SimpleDsp.binary32.nearest⟩

theorem Floats.isBinary32 : Floats.binary32.IsBinary32 := ⟨fun _ => rfl, fun _ _ => rfl⟩

namespace UserMap

open AdMap (GeoInfo UserPosition)
open Prog (call)

def userQuery (F : Floats) (mac : UInt64) (mall_id : Int32) : UserM UserPosition := do
  userMapInit
  let x ← get .double (.location mall_id.toInt mac .x) (0 : Rat)
  let y ← get .double (.location mall_id.toInt mac .y) (0 : Rat)
  let z ← get .int (.location mall_id.toInt mac .z) (0 : Int32)
  pure ⟨mac, ⟨F.ofDouble x, F.ofDouble y, z⟩⟩

section
variable {E : Env} {cfg : Config} {F : Floats} {pid : Nat} {mac : UInt64} {mall_id z : Int32}
  {x y : Rat} {t : Int64} {w v : World} {log : List Record}

theorem conforming_userQuery : Conforming (userQuery F mac mall_id) :=
  conforming_userMapInit.bind fun _ => (conforming_get rfl).bind fun _ =>
    (conforming_get rfl).bind fun _ => (conforming_get rfl).bind fun _ => trivial

/-! ## What a call leaves -/

/-- The records that hold no coordinates. -/
def BesidesPlace : Key → Prop
  | .location _ _ prop => prop = .time
  | _ => True

theorem Does.places {p : Place} (does : Does E Unsighted (sightOps cfg ⟨mac, mall_id, t, some p⟩) w v) :
    Does E BesidesPlace (placeOps mac p.x p.y p.z mall_id) w v where
  db k hk := by
    have located : ∃ mall mac prop, k = .location mall mac prop ∧ prop ≠ .time := by
      cases k <;> simp_all [BesidesPlace]
    obtain ⟨mall, mac', prop, rfl, ne⟩ := located
    rw [does.db (.location mall mac' prop) not_false, sightOps, after_append,
      after_timeOps_frame (by simp [ne]) (by simp)]
  users out := absurd trivial (out 0)

/-- What a call leaves of the place, if its process is heard. -/
theorem LinkedCall.places (answered : ¬E.lossy) {s : Sighting} {a : Int32} {v v' : Linked}
    (runs : LinkedCall E cfg v s t (.ok a) v') (sound : v.err s.pid = false) :
    Does E BesidesPlace (placeOps s.mac s.x s.y s.z s.mall_id) v.world v'.world := by
  have does : Does E Unsighted (sightOps cfg (s.record t)) (v.at [t]).world v'.world :=
    runs.post _ (wp_userAdd_sighted (v := v.at [t]) answered sound rfl) a rfl
  have sighted : Does E Unsighted (sightOps cfg (s.record t)) v.world v'.world :=
    ⟨does.db, does.users⟩
  exact sighted.places

/-! ## The places after calls -/

/-- What one call keeps of the places, a run of calls keeps. -/
structure KeepsPlaces (E : Env) (P : List Record → World → Prop) : Prop where
  quiet : ∀ log w v, (∀ k, ¬BesidesPlace k → v.db k.text = w.db k.text) → P log w → P log v
  add : ∀ log w v mac mall_id t (p : Place),
    Does E BesidesPlace (placeOps mac p.x p.y p.z mall_id) w v → P log w →
      P (⟨mac, mall_id, t, some p⟩ :: log) v

theorem KeepsPlaces.of_db {P : List Record → World → Prop} (keeps : KeepsPlaces E P)
    (db : v.db = w.db) (h : P log w) : P log v :=
  keeps.quiet log w v (fun k _ => by rw [db]) h

/-- The coordinates of the users are those stored last. -/
def Placed (E : Env) (log : List Record) (w : World) : Prop :=
  ∀ (mall_id : Int32) (mac : UInt64) (prop : LocationProp), prop ≠ .time →
    w.db (Key.location mall_id.toInt mac prop).text = lastStored E mall_id mac prop log

/-- The place of one user is left alone by the sightings of others. -/
theorem Does.placeOps_frame {p : Place}
    (does : Does E BesidesPlace (placeOps mac p.x p.y p.z mall_id) w v) {mall_id' : Int32}
    {mac' : UInt64} {prop : LocationProp} (ne : prop ≠ .time)
    (other : ¬(mall_id = mall_id' ∧ mac = mac')) :
    v.db (Key.location mall_id'.toInt mac' prop).text =
      w.db (Key.location mall_id'.toInt mac' prop).text := by
  rw [does.db (Key.location mall_id'.toInt mac' prop) ne]
  apply after_frame
  intro o ho e
  obtain ⟨prop', -, key⟩ := key_placeOps ho
  rw [key] at e
  obtain ⟨mall, mac, -⟩ := Key.location.inj e
  exact other ⟨Int32.toInt_inj.mp mall, mac⟩

theorem keepsPlaces_placed : KeepsPlaces E (Placed E) where
  quiet log w v same placed := by
    intro mall_id mac prop ne
    rw [same (Key.location mall_id.toInt mac prop) ne]
    exact placed mall_id mac prop ne
  add log w v mac mall_id t p does placed := by
    intro mall_id' mac' prop ne
    rw [lastStored, List.findSome?_cons]
    by_cases mine : mall_id = mall_id' ∧ mac = mac'
    · obtain ⟨rfl, rfl⟩ := mine
      rw [if_pos ⟨rfl, rfl⟩, does.db (Key.location mall_id.toInt mac prop) ne,
        after_placeOps mac p mall_id ne t, placed mall_id mac prop ne]
      cases (⟨mac, mall_id, t, some p⟩ : Record).stored E prop <;> rfl
    · rw [if_neg mine, does.placeOps_frame ne mine, placed mall_id' mac' prop ne]
      rfl

/-! ## What is read of them -/

/-- The place of a user, as it is read from the store. -/
def placeIn (E : Env) (F : Floats) (mall_id : Int32) (mac : UInt64) (db : Db) : GeoInfo where
  x := F.ofDouble
    (CBaseMdb.get E.type E.m .double (Key.location mall_id.toInt mac .x).text (0 : Rat) db)
  y := F.ofDouble
    (CBaseMdb.get E.type E.m .double (Key.location mall_id.toInt mac .y).text (0 : Rat) db)
  z := CBaseMdb.get E.type E.m .int (Key.location mall_id.toInt mac .z).text (0 : Int32) db

/-- The place of a user, as it is read after the sightings `log`. -/
def readPlace (E : Env) (F : Floats) (mall_id : Int32) (mac : UInt64) (log : List Record) : GeoInfo where
  x := F.ofDouble ((lastPlace (fun p => some p.x) mall_id mac log).elim 0 (doubleBack E.type E.m))
  y := F.ofDouble ((lastPlace (fun p => some p.y) mall_id mac log).elim 0 (doubleBack E.type E.m))
  z := (lastPlace Place.level mall_id mac log).getD 0

theorem wp_userQuery (answered : ¬E.lossy) :
    (userQuery F mac mall_id).wp (exec E pid) (fun r v => ∀ pos, r = .ok pos →
      v.db = w.db ∧ pos = ⟨mac, placeIn E F mall_id mac w.db⟩) w := by
  apply wp_init
  · intro u db users _
    have nothing : Does E (fun _ => False) [] w u := .of_same db users
    apply wp_does_get answered nothing not_false
    apply wp_does_get answered nothing not_false
    apply wp_does_get answered nothing not_false
    intro pos ended
    cases ended
    exact ⟨db, rfl⟩
  · exact fun _ _ _ => not_ok_error _

/-- Over a connection in error the user is nowhere. -/
theorem wp_userQuery_linked (answered : ¬E.lossy) (v : Linked) :
    (userQuery F mac mall_id).wp (linked E pid) (fun r v' => ∀ pos, r = .ok pos →
      v'.world.db = v.world.db ∧ pos = ⟨mac, placeIn E F mall_id mac (v.reads pid)⟩) v := by
  cases dead : v.err pid with
  | false =>
    rw [Linked.reads_sound dead]
    have steady : (userQuery F mac mall_id).Every (Within Steady) :=
      every_userMapInit.bind fun _ => (every_get trivial).bind fun _ => (every_get trivial).bind
        fun _ => (every_get trivial).bind fun _ => trivial
    have quiet := taken_of_steady (E := E) conforming_userQuery steady
    exact Prog.wp_mono _ (wp_linked quiet dead (wp_userQuery answered)) fun _ _ found => found.1
  | true =>
    rw [Linked.reads_dead dead]
    intro ok v1 begun
    obtain ⟨started, err1⟩ := (linked_other (by simp)).mp begun
    have db1 : v1.world.db = v.world.db := (exec_init started).1
    have dead1 : v1.err pid = true := by rw [err1, dead]
    cases ok with
    | false => exact not_ok_error _
    | true =>
      intro px v2 readX
      obtain ⟨rfl, rfl⟩ := (linked_dead dead1).mp readX
      intro py v3 readY
      obtain ⟨rfl, rfl⟩ := (linked_dead dead1).mp readY
      intro pz v4 readZ
      obtain ⟨rfl, rfl⟩ := (linked_dead dead1).mp readZ
      intro pos ended
      cases ended
      refine ⟨db1, ?_⟩
      simp only [UserMap.placeIn, CBaseMdb.get_none (show Db.empty _ = none from rfl)]
      rfl

theorem Placed.placeIn (placed : Placed E log w) :
    UserMap.placeIn E F mall_id mac w.db = readPlace E F mall_id mac log := by
  rw [UserMap.placeIn, getDouble_stored (placed mall_id mac .x (by decide)) Record.stored_x,
    getDouble_stored (placed mall_id mac .y (by decide)) Record.stored_y,
    getInt_stored (placed mall_id mac .z (by decide))]
  rfl

theorem lastPlace_append {α : Type} (f : Place → Option α) (later : List Record) :
    lastPlace f mall_id mac (later ++ log) =
      (lastPlace f mall_id mac later).or (lastPlace f mall_id mac log) :=
  List.findSome?_append

/-- Sightings of other users, or in other malls, do not move a user. -/
theorem readPlace_without {others : List Record}
    (apart : ∀ r ∈ others, ¬(r.mall_id = mall_id ∧ r.mac = mac)) (later : List Record) :
    readPlace E F mall_id mac (later ++ (others ++ log)) = readPlace E F mall_id mac (later ++ log) := by
  have nothing {α : Type} (f : Place → Option α) : lastPlace f mall_id mac others = none :=
    List.findSome?_eq_none_iff.mpr fun r hr => if_neg (apart r hr)
  simp only [readPlace, lastPlace_append, nothing, Option.none_or]

theorem doubleBack_exact {type : TypeDb} {m : Machine} (exact : ExactIntegers m.doubles F) {n : Int}
    (small : n.natAbs < 10 ^ 6) : doubleBack type m n = n := by
  cases type with
  | redis =>
    have text : skipSpace (decimal n) ≠ [] := by simp [decimal_ne_nil]
    simp only [doubleBack, reread, exact.print n small, Ty.extract, if_neg text, Ty.parse]
    exact exact.read n small
  | tair => exact exact.bits n small

/-- A place with small whole coordinates is read as it was given. -/
theorem readPlace_exact (exact : ExactIntegers E.m.doubles F) {x y : Int} {z : Int32}
    (hx : x.natAbs < 10 ^ 6) (hy : y.natAbs < 10 ^ 6) (hz : z ≠ INT_MIN) :
    readPlace E F mall_id mac (⟨mac, mall_id, t, some ⟨x, y, z⟩⟩ :: log) = ⟨x, y, z⟩ := by
  have last {α : Type} {f : Place → Option α} {a : α} (given : f ⟨x, y, z⟩ = some a) :
      lastPlace f mall_id mac (⟨mac, mall_id, t, some ⟨x, y, z⟩⟩ :: log) = some a := by
    rw [lastPlace, List.findSome?_cons, if_pos ⟨rfl, rfl⟩, Option.bind_some, given]
  have level : Place.level ⟨x, y, z⟩ = some z := if_pos hz
  simp only [readPlace, last level, last (f := fun p => some p.x) rfl,
    last (f := fun p => some p.y) rfl, Option.elim_some, Option.getD_some, doubleBack_exact exact hx,
    doubleBack_exact exact hy, exact.ofDouble x hx, exact.ofDouble y hy]

end

end UserMap

end SimpleDsp
