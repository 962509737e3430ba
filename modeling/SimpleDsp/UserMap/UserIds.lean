import SimpleDsp.UserMap.Functions

/-!
# User ids and MAC addresses

Any number of processes run `user_get_id` and `user_get_mac`, one step at a time
and over a store that may lose commands and replies.

* `Agrees`: the cached entries agree with PG's table. It is the invariant, and
  the growth of the table is all a thread has to expect from the others;
* `reachable_agrees`: what is cached and what is returned in any interleaving.
-/

namespace SimpleDsp

open DecimalText Programs

namespace UserMap

open Prog (call)

/-! ## What PG promises -/

def Users.Grows (u u' : Users) : Prop := ∀ mac id, u mac = some id → u' mac = some id

structure Users.Valid (u : Users) : Prop where
  pos : ∀ mac id, u mac = some id → 0 < id
  distinct : ∀ mac mac' id, u mac = some id → u mac' = some id → mac = mac'

theorem Users.Grows.trans {a b c : Users} (h : a.Grows b) (h' : b.Grows c) : a.Grows c :=
  fun mac id e => h' mac id (h mac id e)

/-- `users` only grows and keeps one row for each MAC; `add_user` prints the id
of the row or nothing, the select the MAC of an id or nothing. -/
structure Pg.KeepsUsers (pg : Pg) : Prop where
  grows : ∀ u mac out u', pg.addUser u mac out u' → u.Grows u'
  valid : ∀ u mac out u', pg.addUser u mac out u' → u.Valid → u'.Valid
  addUser : ∀ u mac out u', pg.addUser u mac out u' → out ≠ [] →
    ∃ id rest, scanInt out = some (id, rest) ∧ u' mac = some id
  queryUserId : ∀ u user_id out, pg.queryUserId u user_id out → out ≠ [] →
    ∃ mac, stoull out = .ok mac ∧ u mac = some user_id.toInt

/-! ## The calls -/

inductive IdCall
  | getId (pid : Nat) (mac : UInt64)
  | getMac (pid : Nat) (user_id : Int32)

inductive IdResult
  | id (user_id : Int32)
  | mac (mac : UInt64)
  deriving DecidableEq

def IdCall.pid : IdCall → Nat
  | getId pid _ => pid
  | getMac pid _ => pid

def IdCall.start : IdCall → UserM IdResult
  | getId _ mac => do
    let user_id ← userGetId mac
    pure (.id user_id)
  | getMac _ user_id => do
    let mac ← userGetMac user_id
    pure (.mac mac)

/-- The rows that others add to the table keep its promises. -/
structure UsersDrift (w w' : World) : Prop where
  same : w' = { w with users := w'.users }
  grows : w.users.Grows w'.users
  valid : w.users.Valid → w'.users.Valid

def idSystem (E : Env) : System Cmd Cmd.Reply Exn IdResult IdCall World where
  start := IdCall.start
  exec _ call := exec E call.pid
  drift := UsersDrift

/-! ## The invariant -/

def later (w w' : World) : Prop := w.users.Grows w'.users

/-- An entry is missing or holds what the table says. -/
structure Agrees (E : Env) (w : World) : Prop where
  valid : w.users.Valid
  id_entry : ∀ mac, w.db (Key.userId mac).text = none ∨
    ∃ v, w.db (Key.userId mac).text = some (CBaseMdb.encode E.type E.m .int v) ∧
      w.users mac = some v.toInt
  mac_entry : ∀ id, w.db (Key.userMac id).text = none ∨
    ∃ mac, w.db (Key.userMac id).text = some (CBaseMdb.encode E.type E.m .ull mac) ∧
      w.users mac = some id

theorem later_refl (w : World) : later w w := fun _ _ h => h

theorem later_trans (a b c : World) (h : later a b) (h' : later b c) : later a c := h.trans h'

variable {E : Env}

theorem Agrees.start {w : World} (fresh : w.Fresh) (valid : w.users.Valid) : Agrees E w where
  valid := valid
  id_entry _ := Or.inl (by simp [fresh.db, Db.empty])
  mac_entry _ := Or.inl (by simp [fresh.db, Db.empty])

theorem Agrees.of_grows {w w' : World} (h : Agrees E w) (db : w'.db = w.db)
    (grows : w.users.Grows w'.users) (valid : w'.users.Valid) : Agrees E w' where
  valid := valid
  id_entry mac := by
    rw [db]
    rcases h.id_entry mac with e | ⟨v, e, hv⟩
    · exact Or.inl e
    · exact Or.inr ⟨v, e, grows _ _ hv⟩
  mac_entry id := by
    rw [db]
    rcases h.mac_entry id with e | ⟨mac, e, hm⟩
    · exact Or.inl e
    · exact Or.inr ⟨mac, e, grows _ _ hm⟩

theorem Agrees.of_same {w w' : World} (h : Agrees E w) (db : w'.db = w.db)
    (users : w'.users = w.users) : Agrees E w' :=
  h.of_grows db (by rw [users]; exact later_refl w) (users ▸ h.valid)

theorem Agrees.get_id {w : World} (h : Agrees E w) {mac : UInt64} {v : Int32}
    (e : CBaseMdb.get E.type E.m .int (Key.userId mac).text 0 w.db = v) (nz : v ≠ 0) :
    w.users mac = some v.toInt := by
  rcases h.id_entry mac with none | ⟨v', some, hv⟩
  · rw [CBaseMdb.get_none none] at e
    exact absurd e.symm nz
  · rw [CBaseMdb.get_encode rfl some] at e
    exact e ▸ hv

theorem Agrees.get_mac {w : World} (h : Agrees E w) {user_id : Int} {mac : UInt64}
    (e : CBaseMdb.get E.type E.m .ull (Key.userMac user_id).text 0 w.db = mac) (nz : mac ≠ 0) :
    w.users mac = some user_id := by
  rcases h.mac_entry user_id with none | ⟨mac', some, hm⟩
  · rw [CBaseMdb.get_none none] at e
    exact absurd e.symm nz
  · rw [CBaseMdb.get_encode rfl some] at e
    exact e ▸ hm

/-! ## One operation -/

/-- What a lost command may leave: the store as it was or as it should be. -/
theorem serves_set {τ : Ty} (hτ : τ ≠ .string) {k : Key} {v : τ.Val} {db db' : Db}
    {r : Int32} (h : E.serves (.set τ k v) db r db') :
    db' = db ∨ db' = db.put k.text (CBaseMdb.encode E.type E.m τ v) := by
  rcases h with ⟨_, _, h⟩ | ⟨_, _, h | h⟩
  · rw [StoreOp.run_set hτ] at h
    exact Or.inr (congrArg Prod.snd h)
  · exact Or.inl h
  · rw [StoreOp.run_set hτ] at h
    exact Or.inr h

theorem serves_get {τ : Ty} {k : Key} {d : τ.Val} {db db' : Db} {r : τ.Val}
    (h : E.serves (.get τ k d) db r db') :
    db' = db ∧ (r = CBaseMdb.get E.type E.m τ k.text d db ∨ r = d) := by
  rcases h with ⟨_, _, h⟩ | ⟨_, h, h' | h'⟩
  · exact ⟨congrArg Prod.snd h, Or.inl (congrArg Prod.fst h)⟩
  · exact ⟨h', Or.inr h⟩
  · exact ⟨h', Or.inr h⟩

theorem Agrees.set_id {w w' : World} (h : Agrees E w) {pid : Nat} {mac : UInt64} {v r : Int32}
    (row : w.users mac = some v.toInt)
    (x : exec E pid (.store (.set .int (.userId mac) v)) w r w') : Agrees E w' := by
  have users : w'.users = w.users := by rw [x.2]
  cases serves_set (by decide) x.1 with
  | inl e => exact h.of_same e users
  | inr e =>
    refine ⟨users ▸ h.valid, fun mac' => ?_, fun id => ?_⟩
    · rw [e, users]
      by_cases same : mac' = mac
      · subst same
        exact Or.inr ⟨v, by simp, row⟩
      · rw [Db.put_of_ne (by simpa using same)]
        exact h.id_entry mac'
    · rw [e, users, Db.put_of_ne (by simp)]
      exact h.mac_entry id

theorem Agrees.set_mac {w w' : World} (h : Agrees E w) {pid : Nat} {id : Int} {mac : UInt64}
    {r : Int32} (row : w.users mac = some id)
    (x : exec E pid (.store (.set .ull (.userMac id) mac)) w r w') : Agrees E w' := by
  have users : w'.users = w.users := by rw [x.2]
  cases serves_set (by decide) x.1 with
  | inl e => exact h.of_same e users
  | inr e =>
    refine ⟨users ▸ h.valid, fun mac' => ?_, fun id' => ?_⟩
    · rw [e, users, Db.put_of_ne (by simp)]
      exact h.id_entry mac'
    · rw [e, users]
      by_cases same : id' = id
      · subst same
        exact Or.inr ⟨mac, by simp, row⟩
      · rw [Db.put_of_ne (by simpa using same)]
        exact h.mac_entry id'

/-! ## One thread -/

theorem stoi_ok {s : Text} {v : Int32} (h : stoi s = .ok v) : (scanInt s).map (·.1) = some v.toInt := by
  unfold stoi at h
  split at h
  · cases h
  · rename_i i rest e
    split at h
    · rename_i range
      obtain rfl := Except.ok.inj h
      rw [e, Option.map_some, Int32.toInt_ofInt_of_le (by omega) (by omega)]
    · cases h

variable {pid : Nat}

abbrev SafeId (E : Env) (pid : Nat) {α : Type} (p : UserM α) (Q : Except Exn α → World → Prop)
    (w : World) : Prop :=
  Safe (exec E pid) later (Agrees E) p Q w

/-- The id of `mac`, or nothing, or an exception. -/
def IdOf (mac : UInt64) (x : Except Exn Int32) (w : World) : Prop :=
  ∀ v, x = .ok v → v ≠ 0 → w.users mac = some v.toInt

def MacOf (user_id : Int32) (x : Except Exn UInt64) (w : World) : Prop :=
  ∀ v, x = .ok v → v ≠ 0 → w.users v = some user_id.toInt

theorem IdOf.stable {mac : UInt64} {x : Except Exn Int32} {w w' : World} (h : IdOf mac x w)
    (l : later w w') : IdOf mac x w' :=
  fun v e nz => l _ _ (h v e nz)

theorem MacOf.stable {user_id : Int32} {x : Except Exn UInt64} {w w' : World}
    (h : MacOf user_id x w) (l : later w w') : MacOf user_id x w' :=
  fun v e nz => l _ _ (h v e nz)

/-- The mutex and the initialisation leave the store and the table alone. -/
theorem exec_own {c : Cmd} (hc : c = .init ∨ c = .lock ∨ c = .unlock) {w w' : World} {r : c.Reply}
    (h : exec E pid c w r w') : w'.db = w.db ∧ w'.users = w.users := by
  cases exec_changes h with
  | nothing | slice | flags => exact ⟨rfl, rfl⟩
  | store | clock | users => simp at hc

theorem Agrees.own {c : Cmd} (hc : c = .init ∨ c = .lock ∨ c = .unlock) {w w' : World}
    {r : c.Reply} (h : Agrees E w) (x : exec E pid c w r w') : Agrees E w' :=
  h.of_same (exec_own hc x).1 (exec_own hc x).2

theorem safe_userMapInit (w : World) : SafeId E pid userMapInit (fun _ _ => True) w := by
  intro u _ hI r v hx
  refine ⟨hI.own (Or.inl rfl) hx, ?_⟩
  cases r <;> trivial

theorem safe_runAddUser (pg : E.pg.KeepsUsers) (mac : UInt64) (n : Nat) (w : World) :
    SafeId E pid (runAddUser mac n) (fun x w => ∀ out, x = .ok out → out ≠ [] →
      ∃ id rest, scanInt out = some (id, rest) ∧ w.users mac = some id) w := by
  induction n generalizing w with
  | zero =>
    intro out h nz
    cases h
    exact absurd rfl nz
  | succ n ih =>
    intro u _ hI r v hx
    have grows := pg.grows _ _ _ _ hx.1
    have valid := pg.valid _ _ _ _ hx.1 hI.valid
    refine ⟨hI.of_grows (by rw [hx.2]) grows valid, ?_⟩
    simp only [Prog.bind]
    split
    · rename_i some
      intro out e _
      cases e
      exact pg.addUser _ _ _ _ hx.1 some
    · exact ih v

theorem safe_userIdFromPg (pg : E.pg.KeepsUsers) (mac : UInt64) (w : World) :
    SafeId E pid (userIdFromPg mac) (IdOf mac) w := by
  apply Safe.seq (safe_runAddUser pg mac 10 w)
  · intro s_id v row
    have known : Safe (exec E pid) later (Agrees E)
        (if s_id ≠ [] then liftExcept (stoi s_id) else pure 0) (IdOf mac) v := by
      split
      · rename_i some
        cases h : stoi s_id with
        | error e => intro i hi; cases hi
        | ok user_id =>
          intro i hi _
          cases hi
          obtain ⟨id, rest, scan, hr⟩ := row s_id rfl some
          have e := stoi_ok h
          rw [scan] at e
          rw [hr]
          exact e
      · intro i hi nz
        cases hi
        exact absurd rfl nz
    apply Safe.seq known
    · intro user_id v' row'
      unfold whenM
      split
      · rename_i pos
        have nz : user_id ≠ 0 := by rintro rfl; exact absurd pos (by decide)
        intro u hl hI r u' hx
        have hr : u.users mac = some user_id.toInt := hl _ _ (row' user_id rfl nz)
        refine ⟨hI.set_id hr hx, ?_⟩
        have same : u'.users = u.users := by rw [hx.2]
        intro s hs hI' r' s' hx'
        have hr' : s.users mac = some user_id.toInt := hs _ _ (same ▸ hr)
        refine ⟨hI'.set_mac hr' hx', ?_⟩
        have same' : s'.users = s.users := by rw [hx'.2]
        intro i hi _
        cases hi
        rw [same', hr']
      · exact row'
    · intro e v' _ i hi
      cases hi
  · intro e v _ i hi
    cases hi

theorem safe_userGetId (pg : E.pg.KeepsUsers) (mac : UInt64) (w : World) :
    SafeId E pid (userGetId mac) (IdOf mac) w := by
  intro u _ hI r v hx
  refine ⟨hI.own (Or.inr (Or.inl rfl)) hx, ?_⟩
  apply Safe.seq (safe_userMapInit v)
  · intro _ v' _ u hl hI r u' hx
    have ⟨hdb, hr⟩ := serves_get hx.1
    have users : u'.users = u.users := by rw [hx.2]
    have cached : IdOf mac (.ok r) u' := by
      intro i hi nz
      cases hi
      rcases hr with hr | rfl
      · rw [users]; exact hI.get_id hr.symm nz
      · exact absurd rfl nz
    refine ⟨hI.of_same hdb users, ?_⟩
    have body : SafeId E pid (if r = 0 then userIdFromPg mac else pure r) (IdOf mac) u' := by
      split
      · exact safe_userIdFromPg pg mac u'
      · exact cached
    apply Safe.seq body
    · intro user_id v2 row t ht hI2 r2 v3 hx2
      refine ⟨hI2.own (Or.inr (Or.inr rfl)) hx2, ?_⟩
      have same := (exec_own (Or.inr (Or.inr rfl)) hx2).2
      intro i hi nz
      rw [same]
      exact ht _ _ (row i hi nz)
    · intro e v2 _ i hi
      cases hi
  · intro e v' _ i hi
    cases hi

theorem safe_userMacFromPg (pg : E.pg.KeepsUsers) (user_id : Int32) (w : World) :
    SafeId E pid (userMacFromPg user_id) (MacOf user_id) w := by
  intro u _ hI s_mac v hx
  obtain ⟨printed, rfl⟩ := hx
  refine ⟨hI, ?_⟩
  simp only [Prog.bind]
  split
  · rename_i some
    obtain ⟨mac, read, row⟩ := pg.queryUserId _ _ _ printed some
    rw [read]
    intro t ht hI1 r t' hx1
    have row1 := ht _ _ row
    refine ⟨hI1.set_id row1 hx1, ?_⟩
    have same1 : t'.users = t.users := by rw [hx1.2]
    intro s hs hI2 r' s' hx2
    have row2 : s.users mac = Option.some user_id.toInt := hs _ _ (same1 ▸ row1)
    refine ⟨hI2.set_mac row2 hx2, ?_⟩
    have same2 : s'.users = s.users := by rw [hx2.2]
    intro i hi _
    cases hi
    rw [same2, row2]
  · intro i hi nz
    cases hi
    exact absurd rfl nz

theorem safe_userGetMac (pg : E.pg.KeepsUsers) (user_id : Int32) (w : World) :
    SafeId E pid (userGetMac user_id) (MacOf user_id) w := by
  apply Safe.seq (safe_userMapInit w)
  · intro _ v' _ u hl hI r u' hx
    have ⟨hdb, hr⟩ := serves_get hx.1
    have users : u'.users = u.users := by rw [hx.2]
    refine ⟨hI.of_same hdb users, ?_⟩
    simp only [Prog.bind]
    split
    · intro i hi nz
      cases hi
      rcases hr with hr | rfl
      · rw [users]; exact hI.get_mac hr.symm nz
      · exact absurd rfl nz
    · exact safe_userMacFromPg pg user_id u'
  · intro e v' _ i hi
    cases hi

/-! ## All interleavings -/

/-- What a finished call may have returned. -/
def Answers : IdCall → Except Exn IdResult → World → Prop
  | .getId _ mac, x, w => ∀ v, x = .ok (.id v) → v ≠ 0 → w.users mac = some v.toInt
  | .getMac _ user_id, x, w => ∀ v, x = .ok (.mac v) → v ≠ 0 → w.users v = some user_id.toInt

theorem Answers.stable {c : IdCall} {x : Except Exn IdResult} {w w' : World} (h : Answers c x w)
    (l : later w w') : Answers c x w' := by
  cases c with
  | getId pid mac => exact fun v e nz => l _ _ (h v e nz)
  | getMac pid user_id => exact fun v e nz => l _ _ (h v e nz)

theorem safe_start (pg : E.pg.KeepsUsers) (c : IdCall) (w : World) :
    Safe (exec E c.pid) later (Agrees E) c.start (Answers c) w := by
  cases c with
  | getId pid mac =>
    apply Safe.seq (safe_userGetId pg mac w)
    · intro a v row i e nz
      cases e
      exact row _ rfl nz
    · intro e v _ i hi
      cases hi
  | getMac pid user_id =>
    apply Safe.seq (safe_userGetMac pg user_id w)
    · intro a v row i e nz
      cases e
      exact row _ rfl nz
    · intro e v _ i hi
      cases hi

theorem exec_later (pg : E.pg.KeepsUsers) {c : Cmd} {w w' : World} {r : c.Reply}
    (h : exec E pid c w r w') : later w w' := by
  cases exec_changes h with
  | users printed => exact pg.grows _ _ _ _ printed
  | nothing | store | clock | slice | flags => exact later_refl w

theorem idSystem_keeps (pg : E.pg.KeepsUsers) :
    (idSystem E).Keeps later (Agrees E) (fun _ => Answers) where
  refl := later_refl
  trans := later_trans
  exec_later _ _ _ _ _ _ h := exec_later pg h
  drift_later _ _ h := h.grows
  drift_keeps _ _ hI h := hI.of_grows (by rw [h.same]) h.grows (h.valid hI.valid)
  stable _ _ _ _ _ h l := h.stable l
  started _ c w _ := safe_start pg c w

/-- In every reachable state the cache agrees with the table, and so does every
result returned. -/
theorem reachable_agrees (pg : E.pg.KeepsUsers) {w : World} (fresh : w.Fresh)
    (valid : w.users.Valid) {p : Pool Cmd Cmd.Reply Exn IdResult IdCall World}
    (reach : (idSystem E).Reach w p) :
    Agrees E p.world ∧ ∀ (i : Nat) c x, p.threads[i]? = some (c, Prog.ret x) → Answers c (.ok x) p.world := by
  obtain ⟨hI, safe⟩ := (idSystem_keeps pg).reach (Agrees.start fresh valid) reach
  exact ⟨hI, fun i c x h => safe i c _ h⟩

/-- User ids and MAC addresses stay inverse to each other: in every state that
any interleaving reaches, the entries and the results that are not zero are
those of the table, so two callers never get different ids for one MAC address,
nor one id for two. -/
theorem user_ids_and_macs_inverse (pg : E.pg.KeepsUsers) {w : World} (fresh : w.Fresh)
    (valid : w.users.Valid) {p : Pool Cmd Cmd.Reply Exn IdResult IdCall World}
    (reach : (idSystem E).Reach w p) :
    (∀ mac v, CBaseMdb.get E.type E.m .int (Key.userId mac).text 0 p.world.db = v → v ≠ 0 →
      p.world.users mac = some v.toInt) ∧
    (∀ id mac, CBaseMdb.get E.type E.m .ull (Key.userMac id).text 0 p.world.db = mac → mac ≠ 0 →
      p.world.users mac = some id) ∧
    (∀ (i pid : Nat) mac v, p.threads[i]? = some (.getId pid mac, Prog.ret (.id v)) → v ≠ 0 →
      p.world.users mac = some v.toInt) ∧
    (∀ (i pid : Nat) id v, p.threads[i]? = some (.getMac pid id, Prog.ret (.mac v)) → v ≠ 0 →
      p.world.users v = some id.toInt) ∧
    (∀ (i j pid pid' : Nat) mac mac' v v', p.threads[i]? = some (.getId pid mac, Prog.ret (.id v)) →
      p.threads[j]? = some (.getId pid' mac', Prog.ret (.id v')) → v ≠ 0 → v' ≠ 0 →
      (v = v' ↔ mac = mac')) := by
  obtain ⟨hI, answers⟩ := reachable_agrees pg fresh valid reach
  have ids (i pid : Nat) (mac : UInt64) (v : Int32)
      (h : p.threads[i]? = some (.getId pid mac, Prog.ret (.id v))) (nz : v ≠ 0) :
      p.world.users mac = some v.toInt := answers i _ _ h v rfl nz
  refine ⟨fun mac v => hI.get_id, fun id mac => hI.get_mac, ids, ?_, ?_⟩
  · exact fun i pid id v h nz => answers i _ _ h v rfl nz
  · intro i j pid pid' mac mac' v v' h h' nz nz'
    have row := ids i pid mac v h nz
    have row' := ids j pid' mac' v' h' nz'
    constructor
    · rintro rfl
      exact hI.valid.distinct _ _ _ row row'
    · rintro rfl
      rw [row] at row'
      exact Int32.toInt_inj.mp (Option.some.inj row')

/-- A table that stays as it is. -/
def fixedTable : Pg where
  addUser u mac out u' := u' = u ∧ (out = [] ∨ ∃ id, u mac = some id ∧ out = decimal id)
  queryUserId u user_id out :=
    out = [] ∨ ∃ mac, u mac = some user_id.toInt ∧ out = digits mac.toNat

theorem stoull_digits (mac : UInt64) : stoull (digits mac.toNat) = .ok mac := by
  have e := scanSigned_digits mac.toNat endsNumber_nil
  rw [List.append_nil] at e
  simp [stoull, e, mac.toNat_lt, clampUInt64_toNat]

theorem fixedTable_keepsUsers : fixedTable.KeepsUsers where
  grows := by
    rintro u mac out u' ⟨rfl, _⟩ m id h
    exact h
  valid := by
    rintro u mac out u' ⟨rfl, _⟩ h
    exact h
  addUser := by
    rintro u mac out u' ⟨rfl, rfl | ⟨id, row, rfl⟩⟩ some
    · exact absurd rfl some
    · exact ⟨id, [], scanInt_decimal_self id, row⟩
  queryUserId := by
    rintro u user_id out (rfl | ⟨mac, row, rfl⟩) some
    · exact absurd rfl some
    · exact ⟨mac, stoull_digits mac, row⟩

/-- One process asks for the id of MAC 5 in a table with the row 7, another one
then for the MAC of 7. -/
theorem user_ids_and_macs_inverse_two_processes :
    let E : Env := ⟨.redis, Machine.plain, fixedTable, False, Untouched⟩
    let table : Users := fun mac => if mac = 5 then some 7 else none
    ∃ p, (idSystem E).Reach (World.fresh table []) p ∧
      p.threads = [(.getId 0 5, Prog.ret (.id 7)), (.getMac 1 7, Prog.ret (.mac 5))] ∧
      p.world.users 5 = some 7 := by
  intro E table
  let add : Users → UInt64 → Option Text := fun u mac => (u mac).map decimal
  let query : Users → Int32 → Text := fun u id => if u 5 = some id.toInt then digits 5 else []
  have allowed (pid : Nat) (c : Cmd) (w : World) (r : c.Reply × World)
      (h : answer E add query pid c w = some r) : exec E pid c w r.1 r.2 := by
    refine exec_answer rfl ?_ ?_ c w r h
    · intro u mac out printed
      obtain ⟨id, row, rfl⟩ := Option.map_eq_some_iff.mp printed
      exact ⟨rfl, Or.inr ⟨id, row, rfl⟩⟩
    · intro u id
      by_cases row : u 5 = some id.toInt
      · exact Or.inr ⟨5, row, by simp [query, row]⟩
      · exact Or.inl (by simp [query, row])
  let w0 := World.fresh table []
  have runs : ((IdCall.start (.getId 0 5)).eval (answer E add query 0) w0).bind (fun r =>
      ((IdCall.start (.getMac 1 7)).eval (answer E add query 1) r.2).map fun s => (r.1, s.1)) =
      some (.ok (.id 7), .ok (.mac 5)) := by decide +kernel
  obtain ⟨⟨x, w1⟩, h1, rest⟩ := Option.bind_eq_some_iff.mp runs
  obtain ⟨⟨y, w2⟩, h2, ends⟩ := Option.map_eq_some_iff.mp rest
  obtain ⟨rfl, rfl⟩ := Prod.mk.inj ends
  have r1 := (System.Reach.start (S := idSystem E) (w := w0)).spawn (.getId 0 5)
  have r2 := (r1.alone (i := 0) rfl (Prog.runs_eval _ (allowed 0) h1)).spawn (.getMac 1 7)
  have r3 := r2.alone (i := 1) rfl (Prog.runs_eval _ (allowed 1) h2)
  have valid : table.Valid := by
    refine ⟨?_, ?_⟩
    · intro mac id h
      simp only [table, Option.ite_none_right_eq_some, Option.some.injEq] at h
      omega
    · intro mac mac' id h h'
      simp only [table] at h h'
      split at h <;> split at h' <;> simp_all
  have all := user_ids_and_macs_inverse (E := E) fixedTable_keepsUsers
    (World.fresh_is_fresh table []) valid r3
  exact ⟨_, r3, rfl, all.2.2.1 0 0 5 7 rfl (by decide)⟩

end UserMap

end SimpleDsp
