import SimpleDsp.UserMap.Footprint
import SimpleDsp.UserMap.UserIds

/-!
# Effects

What a function leaves in the store, as the list of the operations it has
carried out there; `Does S os` leaves out the records in `S`.

* `wp_userGetId`: the id that `user_get_id` returns;
* `wp_does`, `Does.quiet`: how the list grows along a program;
* `wp_knows`, `Knows`: the same around `user_get_id`.
-/

namespace SimpleDsp

open DecimalText Programs

namespace UserMap

open Prog (call)

/-! ## Users -/

/-- `add_user` does not fail. -/
def Pg.Answers (pg : Pg) : Prop := ∀ u mac out u', pg.addUser u mac out u' → out ≠ []

section
variable {E : Env} {pid : Nat} {mac : UInt64} {w v u : World}

/-- The records about user ids. -/
def IsIdKey (k : Key) : Prop := (∃ mac, k = .userId mac) ∨ ∃ id, k = .userMac id

theorem wp_userIdFromPg_ne_zero (pg : E.pg.KeepsUsers) (answers : E.pg.Answers)
    (valid : w.users.Valid) :
    (userIdFromPg mac).wp (exec E pid) (fun x _ => ∀ i, x = .ok i → i ≠ 0) w := by
  intro s_id v hx
  have printed := answers _ _ _ _ hx.1
  obtain ⟨id, rest, read, row⟩ := pg.addUser _ _ _ _ hx.1 printed
  have pos := (pg.valid _ _ _ _ hx.1 valid).pos _ _ row
  simp only [if_pos printed, Prog.pure_eq, Prog.bind]
  cases parsed : stoi s_id with
  | error e =>
    intro i hi
    cases hi
  | ok user_id =>
    have value := stoi_ok parsed
    rw [read] at value
    have nz : user_id ≠ 0 := by
      rintro rfl
      simp at value
      omega
    have tail : (do
        whenM (0 < user_id) (do
          set .int (.userId mac) user_id
          set .ull (.userMac user_id.toInt) mac)
        pure user_id : UserM Int32).wp (exec E pid) (fun x _ => ∀ i, x = .ok i → i ≠ 0) v := by
      unfold whenM
      split
      · intro _ _ _ _ _ _ i hi
        cases hi
        exact nz
      · intro i hi
        cases hi
        exact nz
    exact tail

theorem wp_userGetId_ne_zero (pg : E.pg.KeepsUsers) (answers : E.pg.Answers)
    (valid : w.users.Valid) :
    (userGetId mac).wp (exec E pid) (fun x _ => ∀ i, x = .ok i → i ≠ 0) w := by
  intro _ w1 hlock
  have started : (userMapInit).wp (exec E pid) (fun _ v => v.users = w.users) w1 := by
    intro ok v hx
    have users : v.users = w.users := by
      rw [(exec_own (Or.inl rfl) hx).2, (exec_own (Or.inr (Or.inl rfl)) hlock).2]
    cases ok <;> exact users
  apply Prog.wp_seq _ started
  · intro _ w2 users cached w3 hx
    have users' : w3.users = w.users := by rw [hx.2, ← users]
    have body : (if cached = 0 then userIdFromPg mac else pure cached : UserM Int32).wp
        (exec E pid) (fun x _ => ∀ i, x = .ok i → i ≠ 0) w3 := by
      split
      · exact wp_userIdFromPg_ne_zero pg answers (users' ▸ valid)
      · rename_i nz
        intro i hi
        cases hi
        exact nz
    apply Prog.wp_seq _ body
    · intro i v ne r v' hx i' hi
      cases hi
      exact ne i rfl
    · intro e v _ i hi
      cases hi
  · intro e v _ i hi
    cases hi

/-- `user_get_id` returns the id in PG's table, or throws. -/
theorem wp_userGetId (pg : E.pg.KeepsUsers) (answers : E.pg.Answers) (agrees : Agrees E w) :
    (userGetId mac).wp (exec E pid) (fun x v => Agrees E v ∧ w.users.Grows v.users ∧
      Unchanged IsIdKey w v ∧ ∀ i, x = .ok i → v.users mac = some i.toInt) w := by
  have known : (userGetId mac).wp (exec E pid) (fun x v => Agrees E v ∧ IdOf mac x v) w :=
    (safe_userGetId pg mac w).wp later_refl agrees
  have nonzero : (userGetId mac).wp (exec E pid) (fun x _ => ∀ i, x = .ok i → i ≠ 0) w :=
    wp_userGetId_ne_zero pg answers agrees.valid
  have within : (userGetId mac).Every (Within IsIdKey) :=
    every_userGetId (Or.inl ⟨mac, rfl⟩) fun id => Or.inr ⟨id, rfl⟩
  have grows : (userGetId mac).wp (exec E pid) (fun _ v => later w v) w :=
    Prog.wp_of_every later_refl later_trans (fun _ _ _ _ _ => exec_later pg) within w
  apply Prog.wp_mono _ (Prog.wp_and _ (Prog.wp_and _ known nonzero)
    (Prog.wp_and _ grows (wp_frame within w)))
  rintro x v ⟨⟨⟨agrees', row⟩, ne⟩, grows, same⟩
  exact ⟨agrees', grows, same, fun i hi => row i hi (ne i hi)⟩

theorem Agrees.of_unchanged {S : Key → Prop} (h : Agrees E v) (same : Unchanged S v u)
    (out : ∀ k, IsIdKey k → ¬S k) : Agrees E u := by
  have users := same.users fun mac => out _ (Or.inl ⟨mac, rfl⟩)
  constructor
  · rw [users]
    exact h.valid
  · intro mac
    rw [users, same.db _ (out _ (Or.inl ⟨mac, rfl⟩))]
    exact h.id_entry mac
  · intro id
    rw [users, same.db _ (out _ (Or.inr ⟨id, rfl⟩))]
    exact h.mac_entry id

/-- The initialisation leaves the store and the table alone, and may fail. -/
theorem wp_init {α : Type} {f : Unit → UserM α} {Q : Except Exn α → World → Prop}
    (hok : ∀ u : World, u.db = v.db → u.users = v.users → u.clock = v.clock →
      (f ()).wp (exec E pid) Q u)
    (herr : ∀ u : World, u.db = v.db → u.users = v.users → Q (.error .initFailed) u) :
    (userMapInit >>= f).wp (exec E pid) Q v := by
  intro ok u x
  obtain ⟨db, users, clock, -⟩ := exec_init x
  cases ok with
  | false => exact herr u db users
  | true => exact hok u db users clock

/-! ## Operations one after the other -/

def after (E : Env) (os : List StoreOp) (db : Db) : Db :=
  os.foldl (fun db o => (o.run E.type E.m db).2) db

@[simp] theorem after_nil (db : Db) : after E [] db = db := rfl

@[simp] theorem after_cons (o : StoreOp) (os : List StoreOp) (db : Db) :
    after E (o :: os) db = after E os (o.run E.type E.m db).2 := rfl

theorem after_append (os os' : List StoreOp) (db : Db) :
    after E (os ++ os') db = after E os' (after E os db) :=
  List.foldl_append

/-- Records that no operation names stay. -/
theorem after_frame {os : List StoreOp} {k : Key} (h : ∀ o ∈ os, o.key ≠ k) (db : Db) :
    after E os db k.text = db k.text := by
  induction os generalizing db with
  | nil => rfl
  | cons o os ih =>
    rw [after_cons, ih fun o' ho' => h o' (by simp [ho'])]
    exact StoreOp.run_frame (Ne.symm (h o (by simp))) db

/-- An operation depends on the record it names alone. -/
theorem after_congr {os : List StoreOp} {S : Key → Prop} (out : ∀ o ∈ os, ¬S o.key) {db db' : Db}
    (h : ∀ k, ¬S k → db k.text = db' k.text) {k : Key} (hk : ¬S k) :
    after E os db k.text = after E os db' k.text := by
  induction os generalizing db db' with
  | nil => exact h k hk
  | cons o os ih =>
    simp only [after_cons]
    apply ih fun o' ho' => out o' (by simp [ho'])
    intro k' hk'
    by_cases here : k' = o.key
    · subst here
      exact (StoreOp.run_congr (h o.key hk')).2
    · rw [StoreOp.run_frame here, StoreOp.run_frame here, h k' hk']

/-- The one operation that names a record decides about it. -/
theorem after_at (os : List StoreOp) (o : StoreOp) (os' : List StoreOp)
    (before : ∀ o' ∈ os, o'.key ≠ o.key) (behind : ∀ o' ∈ os', o'.key ≠ o.key) (db : Db) :
    after E (os ++ o :: os') db o.key.text = (o.run E.type E.m db).2 o.key.text := by
  rw [after_append, after_cons, after_frame behind]
  exact (StoreOp.run_congr (after_frame before db)).2

/-- Outside `S` the store has changed by `os`. -/
structure Does (E : Env) (S : Key → Prop) (os : List StoreOp) (w v : World) : Prop where
  db : ∀ k, ¬S k → v.db k.text = after E os w.db k.text
  users : (∀ mac, ¬S (.userId mac)) → v.users = w.users

variable {S S' : Key → Prop} {os os' : List StoreOp}

theorem Does.start (w : World) : Does E S [] w w := ⟨fun _ _ => rfl, fun _ => rfl⟩

theorem Does.of_same (db : v.db = w.db) (users : v.users = w.users) : Does E S [] w v :=
  ⟨fun _ _ => by rw [db]; rfl, fun _ => users⟩

theorem Does.quiet (h : Does E S os w v) (same : Unchanged S v u) : Does E S os w u where
  db k hk := by rw [same.db k hk, h.db k hk]
  users out := by rw [same.users out, h.users out]

theorem Does.mono (h : Does E S os w v) (le : ∀ k, S k → S' k) : Does E S' os w v where
  db k hk := h.db k fun hs => hk (le k hs)
  users out := h.users fun mac hs => out mac (le _ hs)

theorem Does.trans (h : Does E S os w v) (h' : Does E S os' v u) (out : ∀ o ∈ os', ¬S o.key) :
    Does E S (os ++ os') w u where
  db k hk := by
    rw [h'.db k hk, after_append]
    exact after_congr out h.db hk
  users hm := by rw [h'.users hm, h.users hm]

/-- A read, when the store answers. -/
theorem exec_get (answered : ¬E.lossy) {τ : Ty} {k : Key} {d r : τ.Val}
    (x : exec E pid (.store (.get τ k d)) v r u) :
    r = CBaseMdb.get E.type E.m τ k.text d v.db ∧ u = v := by
  have reply : r = ((StoreOp.get τ k d).run E.type E.m v.db).1 :=
    E.answered_reply (o := .get τ k d) answered trivial x.1
  refine ⟨reply, ?_⟩
  rw [x.2, E.answered_db answered x.1]
  rfl

theorem wp_get {α : Type} (answered : ¬E.lossy) {τ : Ty} {k : Key} {d r : τ.Val}
    (reply : CBaseMdb.get E.type E.m τ k.text d v.db = r) {f : τ.Val → UserM α}
    {Q : Except Exn α → World → Prop} (hok : (f r).wp (exec E pid) Q v) :
    (get τ k d >>= f).wp (exec E pid) Q v := by
  intro r' u x
  obtain ⟨read, rfl⟩ := exec_get answered x
  rw [read, reply]
  exact hok

theorem wp_does_get {α : Type} (answered : ¬E.lossy) (h : Does E S os w v) {τ : Ty} {k : Key}
    {d : τ.Val} (out : ¬S k) {f : τ.Val → UserM α} {Q : Except Exn α → World → Prop}
    (hok : (f (CBaseMdb.get E.type E.m τ k.text d (after E os w.db))).wp (exec E pid) Q v) :
    (get τ k d >>= f).wp (exec E pid) Q v :=
  wp_get answered (CBaseMdb.get_congr (h.db k out)) hok

/-- An operation whose reply makes no difference, when the store answers. -/
theorem wp_answered {α : Type} (answered : ¬E.lossy) {o : StoreOp} {k : o.Reply → UserM α}
    {Q : Except Exn α → World → Prop}
    (hok : ∀ r (u : World), u.clock = v.clock → Does E (fun _ => False) [o] v u →
      (k r).wp (exec E pid) Q u) :
    (Prog.op (.store o) k).wp (exec E pid) Q v := by
  intro r u x
  have hdb := E.answered_db answered x.1
  exact hok r u (by rw [x.2]) ⟨fun k _ => by rw [hdb]; rfl, fun _ => by rw [x.2]⟩

theorem wp_does {α : Type} (answered : ¬E.lossy) (h : Does E S os w v) {o : StoreOp}
    (out : ¬S o.key) {k : o.Reply → UserM α} {Q : Except Exn α → World → Prop}
    (hok : ∀ r (u : World), u.clock = v.clock → Does E S (os ++ [o]) w u →
      (k r).wp (exec E pid) Q u) :
    (Prog.op (.store o) k).wp (exec E pid) Q v := by
  apply wp_answered answered
  intro r u clock one
  exact hok r u clock (h.trans (one.mono fun _ => False.elim) (by simpa using out))

/-! ## Around user_get_id -/

/-- After `user_get_id` has returned `i`, besides `os`. -/
structure Knows (E : Env) (S : Key → Prop) (mac : UInt64) (i : Int32) (os : List StoreOp)
    (w v : World) : Prop where
  agrees : Agrees E v
  grows : w.users.Grows v.users
  row : v.users mac = some i.toInt
  db : ∀ k, ¬S k → ¬IsIdKey k → v.db k.text = after E os w.db k.text

variable {i : Int32}

theorem Does.agrees (h : Does E S os w v) (agrees : Agrees E w) (ids : ∀ k, IsIdKey k → ¬S k)
    (own : ∀ o ∈ os, ¬IsIdKey o.key) : Agrees E v := by
  have users := h.users fun mac => ids _ (Or.inl ⟨mac, rfl⟩)
  have same (k : Key) (hk : IsIdKey k) : v.db k.text = w.db k.text := by
    rw [h.db k (ids k hk)]
    exact after_frame (fun o ho e => own o ho (e ▸ hk)) w.db
  constructor
  · rw [users]
    exact agrees.valid
  · intro mac
    rw [users, same _ (Or.inl ⟨mac, rfl⟩)]
    exact agrees.id_entry mac
  · intro id
    rw [users, same _ (Or.inr ⟨id, rfl⟩)]
    exact agrees.mac_entry id

theorem wp_knows {β : Type} (pg : E.pg.KeepsUsers) (answers : E.pg.Answers) (agrees : Agrees E w)
    (h : Does E S os w v) (ids : ∀ k, IsIdKey k → ¬S k) (own : ∀ o ∈ os, ¬IsIdKey o.key)
    {f : Int32 → UserM β} {Q : Except Exn β → World → Prop}
    (hok : ∀ i u, u.clock = v.clock → Knows E S mac i os w u → (f i).wp (exec E pid) Q u)
    (herr : ∀ e u, Q (.error e) u) : (userGetId mac >>= f).wp (exec E pid) Q v := by
  have within : (userGetId mac).Every (Within IsIdKey) :=
    every_userGetId (Or.inl ⟨mac, rfl⟩) fun id => Or.inr ⟨id, rfl⟩
  apply Prog.wp_seq _ (Prog.wp_and _ (wp_userGetId pg answers (h.agrees agrees ids own))
    (wp_clock within v))
  · rintro i u ⟨⟨agrees', grows, same, row⟩, clock⟩
    apply hok i u clock
    constructor
    · exact agrees'
    · rw [← h.users fun mac => ids _ (Or.inl ⟨mac, rfl⟩)]
      exact grows
    · exact row i rfl
    · intro k hk own
      rw [same.db k own, h.db k hk]
  · exact fun e u _ => herr e u

theorem Knows.quiet (h : Knows E S mac i os w v) (same : Unchanged S v u)
    (ids : ∀ k, IsIdKey k → ¬S k) : Knows E S mac i os w u := by
  have users := same.users fun mac => ids _ (Or.inl ⟨mac, rfl⟩)
  constructor
  · exact h.agrees.of_unchanged same ids
  · rw [users]
    exact h.grows
  · rw [users]
    exact h.row
  · intro k hk own
    rw [same.db k hk, h.db k hk own]

theorem Knows.of_same (h : Knows E S mac i os w v) (db : u.db = v.db) (users : u.users = v.users) :
    Knows E S mac i os w u where
  agrees := h.agrees.of_same db users
  grows := by rw [users]; exact h.grows
  row := by rw [users]; exact h.row
  db k hk own := by rw [db, h.db k hk own]

/-- A read after `user_get_id`. -/
theorem wp_knows_get {α : Type} (answered : ¬E.lossy) (h : Knows E S mac i os w v) {τ : Ty}
    {k : Key} {d : τ.Val} (out : ¬S k) (own : ¬IsIdKey k) {f : τ.Val → UserM α}
    {Q : Except Exn α → World → Prop}
    (hok : (f (CBaseMdb.get E.type E.m τ k.text d (after E os w.db))).wp (exec E pid) Q v) :
    (get τ k d >>= f).wp (exec E pid) Q v :=
  wp_get answered (CBaseMdb.get_congr (h.db k out own)) hok

/-- A store operation after `user_get_id`. -/
theorem wp_knows_does {α : Type} (answered : ¬E.lossy) (h : Knows E S mac i os w v) {o : StoreOp}
    (out : ¬S o.key) (own : ¬IsIdKey o.key) {k : o.Reply → UserM α}
    {Q : Except Exn α → World → Prop}
    (hok : ∀ r u, u.clock = v.clock → Knows E S mac i (os ++ [o]) w u →
      (k r).wp (exec E pid) Q u) :
    (Prog.op (.store o) k).wp (exec E pid) Q v := by
  apply wp_answered answered
  intro r u clock one
  have users : u.users = v.users := one.users fun _ => not_false
  apply hok r u clock
  constructor
  · exact one.agrees h.agrees (fun _ _ => not_false) (by simpa using own)
  · rw [users]
    exact h.grows
  · rw [users]
    exact h.row
  · intro k hk own'
    rw [one.db k not_false, after_append]
    apply after_congr (S := fun k => S k ∨ IsIdKey k)
    · simp [out, own]
    · intro k hk
      rw [not_or] at hk
      exact h.db k hk.1 hk.2
    · simp [hk, own']

end

end UserMap

end SimpleDsp
