import SimpleDsp.Lib.Interleaving
import SimpleDsp.Store.Mdb

/-!
# What user_map does to the world

A function of `user_map` is a program over the operations of `Cmd`: the store
operations, the clock, the shell commands that reach PG, and what a process
keeps to itself. `exec` says how each of them acts on the world.
-/

namespace SimpleDsp

open DecimalText Programs

namespace UserMap

inductive Cmd
  | store (o : StoreOp)
  /-- `time(0)` -/
  | time
  /-- `exec` of `add_user_sql` -/
  | addUser (mac : UInt64)
  /-- `exec` of `query_user_id_sql` -/
  | queryUserId (user_id : Int32)
  /-- `exec` of `add_user_location_sql` -/
  | addUserLocation (log_id : Int32) (mac : UInt64) (x y : Rat) (zz : Int32) (t_time : Int64)
  /-- `apmac_get_shopid`, which asks PG over a connection of its own -/
  | apmacGetShopid (mac : UInt64)
  /-- The question of `mac_is_vip` to PG -/
  | macIsVip (mac_string : Text) (shop_id : Int32)
  /-- `last_date_time_map[mall_id]` -/
  | lastDateTime (mall_id : Int32)
  | setLastDateTime (mall_id : Int32) (s_date_time : Stamp)
  /-- `user_map_init`; the reply tells whether it returned. -/
  | init
  | lock
  | unlock

abbrev Cmd.Reply : Cmd → Type
  | store o => o.Reply
  | time => Int64
  | addUser _ => Text
  | queryUserId _ => Text
  | addUserLocation .. => Text
  | apmacGetShopid _ => Int32
  | macIsVip .. => Bool
  | lastDateTime _ => Option Stamp
  | setLastDateTime .. => Unit
  | init => Bool
  | lock => Unit
  | unlock => Unit

/-- The standard exceptions the functions let through. -/
inductive Exn
  | invalidArgument | outOfRange | initFailed
  deriving DecidableEq

abbrev UserM := Prog Cmd Cmd.Reply Exn

/-- What a process keeps in its own memory. -/
structure Process where
  started : Bool
  locked : Bool
  last_date_time_map : Int32 → Option Stamp

def Process.fresh : Process := ⟨false, false, fun _ => none⟩

/-- PG's table `users`, by MAC. -/
abbrev Users := UInt64 → Option Int

structure World where
  db : Db
  users : Users
  /-- The readings of the clock to come. -/
  clock : List Int64
  process : Nat → Process

def World.setProcess (w : World) (pid : Nat) (p : Process) : World :=
  { w with process := Function.update w.process pid p }

/-- What the shell commands may print, and what they may do to the table. -/
structure Pg where
  addUser : Users → UInt64 → Text → Users → Prop
  queryUserId : Users → Int32 → Text → Prop

/-- The surroundings of a run. -/
structure Env where
  type : TypeDb
  m : Machine
  pg : Pg
  /-- Whether a store operation may go unanswered. -/
  lossy : Prop
  /-- What the memory of a freed reply may turn its number into. -/
  freed : (Int → Int32) → Prop

/-- An operation is carried out and answered, whatever its freed reply holds; or, in a
lossy store, the reply is lost, and perhaps the command before it. -/
def Env.serves (E : Env) (o : StoreOp) (db : Db) (r : o.Reply) (db' : Db) : Prop :=
  (∃ freed, E.freed freed ∧ (r, db') = o.run E.type (E.m.finding freed) db) ∨
    E.lossy ∧ r = o.failed ∧ (db' = db ∨ db' = (o.run E.type E.m db).2)

/-- The operation `c` of process `pid` in the world `w` is answered by `r` and
leaves the world `w'`. -/
def exec (E : Env) (pid : Nat) : (c : Cmd) → World → c.Reply → World → Prop
  | .store o, w, r, w' => E.serves o w.db r w'.db ∧ w' = { w with db := w'.db }
  | .time, w, r, w' => w.clock = r :: w'.clock ∧ w' = { w with clock := w'.clock }
  | .addUser mac, w, r, w' =>
    E.pg.addUser w.users mac r w'.users ∧ w' = { w with users := w'.users }
  | .queryUserId user_id, w, r, w' => E.pg.queryUserId w.users user_id r ∧ w' = w
  | .addUserLocation .., w, _, w' => w' = w
  | .apmacGetShopid _, w, _, w' => w' = w
  | .macIsVip .., w, _, w' => w' = w
  | .lastDateTime mall_id, w, r, w' =>
    r = (w.process pid).last_date_time_map mall_id ∧ w' = w
  | .setLastDateTime mall_id s_date_time, w, _, w' =>
    let p := w.process pid
    w' = w.setProcess pid
      { p with last_date_time_map :=
          Function.update p.last_date_time_map mall_id (some s_date_time) }
  -- The first initialisation makes the mutex anew, before it can still fail.
  | .init, w, r, w' =>
    let p := w.process pid
    if p.started then r = true ∧ w' = w
    else
      r = true ∧ w' = w.setProcess pid { p with started := true, locked := false } ∨
        r = false ∧ (w' = w ∨ w' = w.setProcess pid { p with locked := false })
  | .lock, w, _, w' =>
    let p := w.process pid
    p.locked = false ∧ w' = w.setProcess pid { p with locked := true }
  | .unlock, w, _, w' =>
    let p := w.process pid
    w' = w.setProcess pid { p with locked := false }

/-- The world as a function, for a store that answers, commands that print what
is given and leave the table alone, and an initialisation that succeeds. -/
def answer (E : Env) (addUser : Users → UInt64 → Option Text)
    (queryUserId : Users → Int32 → Text) (pid : Nat) : (c : Cmd) → World → Option (c.Reply × World)
  | .store o, w => let r := o.run E.type E.m w.db; some (r.1, { w with db := r.2 })
  | .time, w =>
    match w.clock with
    | [] => none
    | t :: ts => some (t, { w with clock := ts })
  | .addUser mac, w => (addUser w.users mac).map fun out => (out, w)
  | .queryUserId user_id, w => some (queryUserId w.users user_id, w)
  | .addUserLocation .., w => some ([], w)
  | .apmacGetShopid _, w => some ((0 : Int32), w)
  | .macIsVip .., w => some (false, w)
  | .lastDateTime mall_id, w => some ((w.process pid).last_date_time_map mall_id, w)
  | .setLastDateTime mall_id s_date_time, w =>
    let p := w.process pid
    some ((), w.setProcess pid
      { p with last_date_time_map :=
          Function.update p.last_date_time_map mall_id (some s_date_time) })
  | .init, w =>
    let p := w.process pid
    some (true, if p.started then w else w.setProcess pid { p with started := true, locked := false })
  | .lock, w =>
    let p := w.process pid
    if p.locked then none else some ((), w.setProcess pid { p with locked := true })
  | .unlock, w => some ((), w.setProcess pid { w.process pid with locked := false })

theorem exec_answer {E : Env} {addUser : Users → UInt64 → Option Text}
    {queryUserId : Users → Int32 → Text} {pid : Nat} (own : E.freed E.m.freed)
    (add : ∀ u mac, ∀ out ∈ addUser u mac, E.pg.addUser u mac out u)
    (query : ∀ u id, E.pg.queryUserId u id (queryUserId u id)) (c : Cmd) (w : World)
    (r : c.Reply × World) (h : answer E addUser queryUserId pid c w = some r) :
    exec E pid c w r.1 r.2 := by
  cases c with
  | store o => obtain rfl := Option.some.inj h; exact ⟨Or.inl ⟨_, own, rfl⟩, rfl⟩
  | time =>
    simp only [answer] at h
    split at h
    · cases h
    · rename_i e
      obtain rfl := Option.some.inj h
      exact ⟨e, rfl⟩
  | addUser mac =>
    obtain ⟨out, printed, rfl⟩ := Option.map_eq_some_iff.mp h
    exact ⟨add _ _ out printed, rfl⟩
  | queryUserId user_id => obtain rfl := Option.some.inj h; exact ⟨query _ _, rfl⟩
  | addUserLocation => obtain rfl := Option.some.inj h; rfl
  | apmacGetShopid => obtain rfl := Option.some.inj h; rfl
  | macIsVip => obtain rfl := Option.some.inj h; rfl
  | lastDateTime => obtain rfl := Option.some.inj h; exact ⟨rfl, rfl⟩
  | setLastDateTime => obtain rfl := Option.some.inj h; rfl
  | init =>
    obtain rfl := Option.some.inj h
    simp only [exec]
    split
    · exact ⟨trivial, rfl⟩
    · exact Or.inl ⟨trivial, rfl⟩
  | lock =>
    simp only [answer] at h
    split at h
    · cases h
    · rename_i free
      obtain rfl := Option.some.inj h
      exact ⟨by simpa using free, rfl⟩
  | unlock => obtain rfl := Option.some.inj h; rfl

/-- A world before any call. -/
structure World.Fresh (w : World) : Prop where
  db : w.db = Db.empty
  process : ∀ pid, w.process pid = Process.fresh

def World.fresh (users : Users) (clock : List Int64) : World :=
  ⟨Db.empty, users, clock, fun _ => Process.fresh⟩

theorem World.fresh_is_fresh (users : Users) (clock : List Int64) :
    (World.fresh users clock).Fresh :=
  ⟨rfl, fun _ => rfl⟩

@[simp] theorem setProcess_db (w : World) (pid : Nat) (p : Process) :
    (w.setProcess pid p).db = w.db := rfl

@[simp] theorem setProcess_users (w : World) (pid : Nat) (p : Process) :
    (w.setProcess pid p).users = w.users := rfl

@[simp] theorem setProcess_clock (w : World) (pid : Nat) (p : Process) :
    (w.setProcess pid p).clock = w.clock := rfl

@[simp] theorem setProcess_process (w : World) (pid : Nat) (p : Process) :
    (w.setProcess pid p).process pid = p := by
  simp [World.setProcess]

/-- A store that always answers is a function of what the freed reply holds. -/
theorem Env.serves_iff {E : Env} (h : ¬E.lossy) {o : StoreOp} {db db' : Db} {r : o.Reply} :
    E.serves o db r db' ↔ ∃ freed, E.freed freed ∧
      r = (o.run E.type (E.m.finding freed) db).1 ∧ db' = (o.run E.type E.m db).2 := by
  simp [Env.serves, h, Prod.ext_iff]

theorem Env.answered_db {E : Env} (h : ¬E.lossy) {o : StoreOp} {db db' : Db} {r : o.Reply}
    (served : E.serves o db r db') : db' = (o.run E.type E.m db).2 := by
  obtain ⟨_, _, _, hdb⟩ := (E.serves_iff h).mp served
  exact hdb

theorem Env.answered_reply {E : Env} (h : ¬E.lossy) {o : StoreOp} (copied : o.Copied E.type)
    {db db' : Db} {r : o.Reply} (served : E.serves o db r db') :
    r = (o.run E.type E.m db).1 := by
  obtain ⟨freed, _, hr, _⟩ := (E.serves_iff h).mp served
  rwa [StoreOp.run_finding_of_copied copied] at hr

theorem Env.serves_frame {E : Env} {o : StoreOp} {db db' : Db} {r : o.Reply}
    (h : E.serves o db r db') {k : Key} (hk : k ≠ o.key) : db' k.text = db k.text := by
  rcases h with ⟨freed, -, h⟩ | ⟨_, _, rfl | rfl⟩
  · have e : db' = (o.run E.type (E.m.finding freed) db).2 := congrArg Prod.snd h
    rw [e]
    exact StoreOp.run_frame hk db
  · rfl
  · exact StoreOp.run_frame hk db

/-- The record an operation is about. The slice that a process remembers for a
mall is about the mall's registered slices, PG's row of a MAC about its id. -/
def Cmd.Touches : Cmd → Key → Prop
  | .store o, k => o.key = k
  | .addUser mac, k => Key.userId mac = k
  | .setLastDateTime mall_id _, k => Key.logDataTimeSet mall_id.toInt = k
  | _, _ => False

/-- The slice the process `pid` remembers for a mall. -/
def World.lastSlice (w : World) (pid : Nat) (mall_id : Int32) : Option Stamp :=
  (w.process pid).last_date_time_map mall_id

theorem lastSlice_setProcess {w : World} {p : Process} {pid pid' : Nat} {mall_id : Int32}
    (h : p.last_date_time_map mall_id = w.lastSlice pid mall_id) :
    (w.setProcess pid p).lastSlice pid' mall_id = w.lastSlice pid' mall_id := by
  by_cases same : pid' = pid
  · subst same
    simp [World.lastSlice, World.setProcess, h]
  · simp [World.lastSlice, World.setProcess, same]

/-- What an operation of the process `pid` can change: one record of the store, the
clock, PG's table, or what the process keeps. -/
inductive Changes (E : Env) (pid : Nat) : Cmd → World → World → Prop
  | nothing {c : Cmd} {w : World} : Changes E pid c w w
  | store {o : StoreOp} {w : World} {db : Db} (frame : ∀ k : Key, k ≠ o.key → db k.text = w.db k.text) :
      Changes E pid (.store o) w { w with db := db }
  | clock {w : World} {ts : List Int64} : Changes E pid .time w { w with clock := ts }
  | users {mac : UInt64} {w : World} {out : Text} {users : Users}
      (printed : E.pg.addUser w.users mac out users) :
      Changes E pid (.addUser mac) w { w with users := users }
  | slice {mall_id : Int32} {s_date_time : Stamp} {w : World} {p : Process}
      (started : p.started = (w.process pid).started) (locked : p.locked = (w.process pid).locked)
      (others : ∀ mall_id', mall_id' ≠ mall_id →
        p.last_date_time_map mall_id' = (w.process pid).last_date_time_map mall_id') :
      Changes E pid (.setLastDateTime mall_id s_date_time) w (w.setProcess pid p)
  /-- The lock, and whether the process has started. -/
  | flags {c : Cmd} {w : World} {p : Process} (own : c = .init ∨ c = .lock ∨ c = .unlock)
      (started : (w.process pid).started = true → p.started = true)
      (slices : p.last_date_time_map = (w.process pid).last_date_time_map) :
      Changes E pid c w (w.setProcess pid p)

theorem exec_changes {E : Env} {pid : Nat} {c : Cmd} {w w' : World} {r : c.Reply}
    (h : exec E pid c w r w') : Changes E pid c w w' := by
  cases c with
  | store o =>
    rw [h.2]
    exact .store fun k ne => Env.serves_frame h.1 ne
  | time =>
    rw [h.2]
    exact .clock
  | addUser mac =>
    rw [h.2]
    exact .users h.1
  | queryUserId user_id => exact h.2 ▸ .nothing
  | addUserLocation | apmacGetShopid | macIsVip => exact h ▸ .nothing
  | lastDateTime => exact h.2 ▸ .nothing
  | setLastDateTime => exact h ▸ .slice rfl rfl fun _ ne => Function.update_of_ne ne _ _
  | init =>
    simp only [exec] at h
    split at h
    · exact h.2 ▸ .nothing
    · obtain ⟨-, rfl⟩ | ⟨-, rfl | rfl⟩ := h
      · exact .flags (Or.inl rfl) (fun _ => rfl) rfl
      · exact .nothing
      · exact .flags (Or.inl rfl) id rfl
  | lock => exact h.2 ▸ .flags (Or.inr (Or.inl rfl)) id rfl
  | unlock => exact h ▸ .flags (Or.inr (Or.inr rfl)) id rfl

/-- An operation changes no record but the one it names. -/
theorem exec_frame {E : Env} {pid : Nat} {c : Cmd} {w w' : World} {r : c.Reply}
    (h : exec E pid c w r w') {k : Key} (hk : ¬c.Touches k) : w'.db k.text = w.db k.text := by
  cases exec_changes h with
  | store frame => exact frame k fun e => hk e.symm
  | nothing | clock | users | slice | flags => rfl

theorem exec_lastSlice {E : Env} {pid : Nat} {c : Cmd} {w w' : World} {r : c.Reply}
    (h : exec E pid c w r w') {mall_id : Int32} (hk : ¬c.Touches (.logDataTimeSet mall_id.toInt))
    (pid' : Nat) : w'.lastSlice pid' mall_id = w.lastSlice pid' mall_id := by
  cases exec_changes h with
  | nothing | store | clock | users => rfl
  | slice _ _ others =>
    apply lastSlice_setProcess
    apply others
    rintro rfl
    exact hk rfl
  | flags _ _ slices => exact lastSlice_setProcess (congrFun slices mall_id)

theorem exec_users {E : Env} {pid : Nat} {c : Cmd} {w w' : World} {r : c.Reply}
    (h : exec E pid c w r w') (hk : ∀ mac, ¬c.Touches (.userId mac)) : w'.users = w.users := by
  cases exec_changes h with
  | @users mac => exact absurd rfl (hk mac)
  | nothing | store | clock | slice | flags => rfl

theorem exec_clock {E : Env} {pid : Nat} {c : Cmd} {w w' : World} {r : c.Reply}
    (h : exec E pid c w r w') (hc : c ≠ .time) : w'.clock = w.clock := by
  cases exec_changes h with
  | clock => exact absurd rfl hc
  | nothing | store | users | slice | flags => rfl

/-- Once started, a process stays so. -/
theorem exec_started {E : Env} {pid : Nat} {c : Cmd} {w w' : World} {r : c.Reply}
    (h : exec E pid c w r w') (started : (w.process pid).started = true) :
    (w'.process pid).started = true := by
  cases exec_changes h with
  | nothing | store | clock | users => exact started
  | slice same => rwa [setProcess_process, same]
  | flags _ kept => simpa using kept started

/-- Only the initialisation and the lock's own operations have to do with the lock. -/
theorem exec_locked {E : Env} {pid : Nat} {c : Cmd} {w w' : World} {r : c.Reply}
    (h : exec E pid c w r w') (out : ¬(c = .init ∨ c = .lock ∨ c = .unlock)) :
    (w'.process pid).locked = (w.process pid).locked := by
  cases exec_changes h with
  | nothing | store | clock | users => rfl
  | slice _ same => rwa [setProcess_process]
  | flags own => exact absurd own out

end UserMap

end SimpleDsp
