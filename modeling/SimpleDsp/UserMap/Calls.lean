import SimpleDsp.UserMap.Footprint

/-!
# Calls of user_add

`Calls`: one call after the other, each with its reading of the clock. A call
may end with an exception; the next one starts from what it left.
-/

namespace SimpleDsp

open DecimalText Programs

namespace UserMap

open Prog (call)

/-- A call of `user_add` in process `pid`. -/
structure Sighting where
  pid : Nat
  mac : UInt64
  x : Rat
  y : Rat
  z : Int32
  mall_id : Int32

def Sighting.start (cfg : Config) (s : Sighting) : UserM Int32 :=
  userAdd cfg s.mac s.x s.y s.z s.mall_id

def dateOf (cfg : Config) (t : Int) : Stamp := getDateStr cfg.localtime t

def sliceOf (cfg : Config) (t : Int) : Stamp := getDateTimeStr cfg.localtime t cfg.time_slice

/-- The world `w'` in which the call `s`, made in `w` and reading the clock at
`t`, may end with `x`. -/
def Call (E : Env) (cfg : Config) (w : World) (s : Sighting) (t : Int64) (x : Except Exn Int32)
    (w' : World) : Prop :=
  (s.start cfg).Runs (exec E s.pid) { w with clock := [t] } x w'

/-- The calls made so far and the world they have led to; `C` holds of each call
and the world it was made in. -/
inductive Calls (E : Env) (cfg : Config)
    (C : World → Sighting → Int64 → Except Exn Int32 → Prop) (w0 : World) :
    List (Sighting × Int64) → World → Prop
  | start : Calls E cfg C w0 [] w0
  | call {h : List (Sighting × Int64)} {w w' : World} {s : Sighting} {t : Int64}
      {x : Except Exn Int32} (before : Calls E cfg C w0 h w) (holds : C w s t x)
      (runs : Call E cfg w s t x w') : Calls E cfg C w0 (h ++ [(s, t)]) w'

theorem Calls.mono {E : Env} {cfg : Config} {C C' : World → Sighting → Int64 → Except Exn Int32 → Prop}
    {w0 w : World} {h : List (Sighting × Int64)} (run : Calls E cfg C w0 h w)
    (le : ∀ w s t x, C w s t x → C' w s t x) : Calls E cfg C' w0 h w := by
  induction run with
  | start => exact .start
  | call _ holds runs ih => exact ih.call (le _ _ _ _ holds) runs

variable {E : Env} {pid : Nat}

/-- `user_add` reads the clock once and then records the sighting, unless the
initialisation fails. -/
theorem wp_userAdd {cfg : Config} {mac : UInt64} {x y : Rat} {z mall_id : Int32} {t : Int64}
    {Q : Except Exn Int32 → World → Prop} {w : World} (clock : w.clock = [t])
    (hfail : ∀ v, v.db = w.db → v.users = w.users → Unchanged (fun _ => False) w v →
      Q (.error .initFailed) v)
    (hok : ∀ v, v.db = w.db → v.users = w.users → Unchanged (fun _ => False) w v →
      (recordSighting cfg mac x y z mall_id t).wp (exec E pid) Q v) :
    (userAdd cfg mac x y z mall_id).wp (exec E pid) Q w := by
  intro r v hinit
  obtain ⟨db, users, hclock, quiet⟩ := exec_init hinit
  cases r with
  | false => exact hfail v db users quiet
  | true =>
    intro t_now u htime
    have e : t = t_now ∧ [] = u.clock := by
      have := htime.1
      rw [hclock, clock] at this
      exact List.cons.inj this
    have here : u = { v with clock := u.clock } := htime.2
    rw [here, ← e.1]
    exact hok { v with clock := u.clock } db users ⟨quiet.db, quiet.lastSlice, quiet.users⟩

/-! ## Calls to compute with -/

/-- Nothing is known about PG. -/
def Pg.any : Pg := ⟨fun _ _ _ _ => True, fun _ _ _ => True⟩

abbrev plainEnv (type : TypeDb) : Env := ⟨type, Machine.plain, Pg.any, False, Untouched⟩

/-- The same surroundings, where a freed reply turns out as `freed` says. -/
abbrev Env.finding (E : Env) (freed : Int → Int32) : Env :=
  { E with m := E.m.finding freed, freed := fun found => found = freed }

abbrev firstDay : Config := Config.ini utcFirstDay

/-- A sighting in mall 2. -/
def sightingOf (mac : UInt64) : Sighting := ⟨0, mac, 1, 2, 3, 2⟩

/-- The call computed, with 7 for the id of every user. -/
def callOf (E : Env) (w : World) (s : Sighting) (t : Int64) : Option (Except Exn Int32 × World) :=
  (s.start firstDay).eval (answer E (fun _ _ => some (decimal 7)) (fun _ _ => []) s.pid)
    { w with clock := [t] }

theorem call_of_callOf {E : Env} (own : E.freed E.m.freed) (pg : E.pg = Pg.any) {w : World}
    {s : Sighting} {t : Int64} {r : Except Exn Int32 × World} (h : callOf E w s t = some r) :
    Call E firstDay w s t r.1 r.2 := by
  refine Prog.runs_eval _ (exec_answer own ?_ ?_) h
  · intro _ _ _ _
    rw [pg]
    trivial
  · intro _ _
    rw [pg]
    trivial

end UserMap

end SimpleDsp
