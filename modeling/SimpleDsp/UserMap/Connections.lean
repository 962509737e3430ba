import SimpleDsp.Store.RecordKinds
import SimpleDsp.UserMap.Calls

/-!
# Connections

Every operation of `user_map` fits the kind of its record, but a format that hiredis
rejects puts the connection in error: nothing the process sends from then on reaches
Redis, and every reply is null.

* `Conforming`: the functions whose operations fit;
* `linked`: what a process does over its connection;
* `Runs.unlinked`, `Runs.unheard`: runs over a sound connection, and over one in error;
* `wp_userAdd_link`: when a call of `user_add` loses the connection.
-/

namespace SimpleDsp

open DecimalText Programs

namespace UserMap

/-! ## Operations that fit -/

def Cmd.Conforms : Cmd → Prop
  | .store o => o.Conforms
  | _ => True

def Cmd.Suits : Cmd → Prop
  | .store o => o.Suits
  | _ => True

theorem Cmd.Conforms.suits {c : Cmd} (h : c.Conforms) : c.Suits := by
  cases c with
  | store o => exact h.1
  | _ => trivial

abbrev Conforming {α : Type} (p : UserM α) : Prop := p.Every Cmd.Conforms

section
variable {k : Key}

theorem conforming_set {τ : Ty} {v : τ.Val} (kind : k.kind = some (.value τ)) :
    Conforming (set τ k v) := ⟨⟨kind, trivial⟩, fun _ => trivial⟩

theorem conforming_get {τ : Ty} {d : τ.Val} (kind : k.kind = some (.value τ)) :
    Conforming (get τ k d) := ⟨⟨kind, trivial⟩, fun _ => trivial⟩

theorem conforming_incr {n : Int32} (kind : k.kind = some .counter) : Conforming (incr k n) :=
  ⟨⟨kind, trivial⟩, fun _ => trivial⟩

theorem conforming_zadd {t : Int64} {v : Text} (kind : k.kind = some .scores) (word : IsWord v) :
    Conforming (zadd k t v) := ⟨⟨Or.inl ⟨kind, word⟩, trivial⟩, fun _ => trivial⟩

theorem conforming_sadd {v : Text} (kind : k.kind = some .members) (word : IsWord v) :
    Conforming (sadd k v) := ⟨⟨⟨kind, word⟩, trivial⟩, fun _ => trivial⟩

theorem conforming_whenM {c : Prop} [Decidable c] {p : UserM Unit} (h : Conforming p) :
    Conforming (whenM c p) := every_whenM fun _ => h

theorem conforming_userMapInit : Conforming userMapInit := by
  refine ⟨trivial, fun ok => ?_⟩
  cases ok <;> trivial

end

section
variable {cfg : Config} {mac : UInt64} {user_id mall_id : Int32} {t_pre t : Int64}

theorem conforming_userGetId : Conforming (userGetId mac) := by
  apply ofLookup_userGetId.mono
  intro c own
  cases own with
  | cached | id | mac => exact ⟨rfl, trivial⟩
  | init | lock | unlock | ask => trivial

theorem conforming_userGetMac : Conforming (userGetMac user_id) := by
  apply conforming_userMapInit.bind
  intro _
  apply (conforming_get rfl).bind
  intro mac
  have asked : Conforming (userMacFromPg user_id) := by
    refine ⟨trivial, fun s_mac => ?_⟩
    simp only [Prog.bind]
    split
    · apply (every_liftExcept _).bind
      intro mac
      exact (conforming_set rfl).bind fun _ => (conforming_set rfl).bind fun _ => trivial
    · trivial
  split
  · trivial
  · exact asked

theorem conforming_userDurationAdd : Conforming (userDurationAdd cfg user_id mall_id t_pre t) :=
  (conforming_incr rfl).bind fun _ => trivial

theorem conforming_vipArriveTimeRecord :
    Conforming (vipArriveTimeRecord cfg user_id mall_id t_pre t) := by
  apply conforming_whenM
  have vip : Conforming
      (if cfg.check_vip = 0 then pure true else isMallVip user_id mall_id) := by
    split
    · trivial
    · exact (conforming_get rfl).bind fun _ => trivial
  exact vip.bind fun _ => conforming_whenM (conforming_zadd rfl (isWord_decimal _))

theorem conforming_creditUser : Conforming (creditUser cfg mac mall_id t_pre t) := by
  apply conforming_userGetId.bind
  intro user_id
  apply conforming_userDurationAdd.bind
  intro _
  apply conforming_vipArriveTimeRecord.bind
  intro _
  exact (conforming_sadd rfl (Key.isWord_macText mac)).bind fun _ => trivial

theorem conforming_registerTimeSlice {s : Stamp} :
    Conforming (registerTimeSlice mall_id s t) := by
  refine ⟨trivial, fun last => conforming_whenM ?_⟩
  exact ⟨⟨Or.inr rfl, trivial⟩, fun _ => ⟨trivial, fun _ => trivial⟩⟩

theorem conforming_indexSighting {x y : Rat} {z : Int32} {s : Stamp} {log_id : Int32} :
    Conforming (indexSighting mac x y z mall_id t s log_id) := by
  apply (conforming_sadd rfl (Key.isWord_macText mac)).bind
  intro _
  apply (conforming_zadd rfl (isWord_decimal _)).bind
  intro _
  exact (conforming_set rfl).bind fun _ => (conforming_set rfl).bind fun _ =>
    (conforming_set rfl).bind fun _ => (conforming_set rfl).bind fun _ =>
      conforming_whenM (conforming_set rfl)

theorem conforming_userLocationLogAdd {x y : Rat} {z : Int32} :
    Conforming (userLocationLogAdd cfg mac x y z mall_id t) := by
  apply (conforming_incr rfl).bind
  intro log_id
  refine ⟨trivial, fun _ => ?_⟩
  exact conforming_registerTimeSlice.bind fun _ => conforming_indexSighting

theorem conforming_userAdd {x y : Rat} {z : Int32} :
    Conforming (userAdd cfg mac x y z mall_id) := by
  apply conforming_userMapInit.bind
  intro _
  refine ⟨trivial, fun t_now => ?_⟩
  apply (conforming_set rfl).bind
  intro _
  apply (conforming_set rfl).bind
  intro _
  apply (conforming_whenM (conforming_set rfl)).bind
  intro _
  apply (conforming_get rfl).bind
  intro t_pre_time
  apply (conforming_set rfl).bind
  intro _
  apply (conforming_zadd rfl (Key.isWord_macText mac)).bind
  intro _
  exact conforming_userLocationLogAdd.bind fun _ => conforming_creditUser

theorem conforming_userTagUpdate {doubles : Doubles} {save : Bool} {user_tag : Text}
    {user_value : Rat} (word : IsWord user_tag) :
    Conforming (userTagUpdate doubles save mac user_tag user_value) := by
  apply conforming_userMapInit.bind
  intro _
  split
  · apply conforming_userGetId.bind
    intro user_id
    exact ⟨⟨rfl, word, doubles.print_word _⟩, fun _ => trivial⟩
  · trivial

/-- Any text may be sent as a tag. -/
theorem suits_userTagUpdate {doubles : Doubles} {save : Bool} {user_tag : Text}
    {user_value : Rat} : (userTagUpdate doubles save mac user_tag user_value).Every Cmd.Suits := by
  apply (conforming_userMapInit.mono fun _ => Cmd.Conforms.suits).bind
  intro _
  split
  · apply (conforming_userGetId.mono fun _ => Cmd.Conforms.suits).bind
    intro user_id
    exact ⟨rfl, fun _ => trivial⟩
  · trivial

end

/-! ## The state of a connection -/

/-- A world and, for each process, whether its connection is in error. -/
structure Linked where
  world : World
  err : Nat → Bool

/-- The operation brings the connection into error. -/
def Cmd.Severs (E : Env) : Cmd → Prop
  | .store o => E.type = .redis ∧ o.Rejected E.m
  | _ => False

instance (E : Env) : (c : Cmd) → Decidable (c.Severs E)
  | .store _ => inferInstanceAs (Decidable (_ ∧ _))
  | .time | .addUser _ | .queryUserId _ | .addUserLocation .. | .apmacGetShopid _ | .macIsVip .. =>
    inferInstanceAs (Decidable False)
  | .lastDateTime _ | .setLastDateTime .. | .init | .lock | .unlock =>
    inferInstanceAs (Decidable False)

/-- What is returned for a null reply. -/
def Cmd.null : (c : Cmd) → Option c.Reply
  | .store o => some o.failed
  | _ => none

def Linked.after (E : Env) (pid : Nat) (c : Cmd) (v : Linked) : Nat → Bool :=
  if c.Severs E then Function.update v.err pid true else v.err

/-- The operation `c` of process `pid`, over its connection. -/
def linked (E : Env) (pid : Nat) (c : Cmd) (v : Linked) (r : c.Reply) (v' : Linked) : Prop :=
  match v.err pid, c.null with
  | true, some null => r = null ∧ v' = v
  | _, _ => exec E pid c v.world r v'.world ∧ v'.err = v.after E pid c

/-- The clock will read `ts`. -/
def Linked.at (v : Linked) (ts : List Int64) : Linked := { v with world := { v.world with clock := ts } }

/-- All connections are sound. -/
def Linked.sound (w : World) : Linked := ⟨w, fun _ => false⟩

/-- A call of `user_add` over the connection of its process. -/
def LinkedCall (E : Env) (cfg : Config) (v : Linked) (s : Sighting) (t : Int64)
    (x : Except Exn Int32) (v' : Linked) : Prop :=
  (s.start cfg).Runs (linked E s.pid) (v.at [t]) x v'

theorem exec_db {E : Env} {pid : Nat} {c : Cmd} {w w' : World} {r : c.Reply}
    (h : exec E pid c w r w') (other : ∀ o, c ≠ .store o) : w'.db = w.db := by
  cases exec_changes h with
  | store => exact absurd rfl (other _)
  | nothing | clock | users | slice | flags => rfl

section
variable {E : Env} {cfg : Config} {pid : Nat} {c : Cmd} {v v' : Linked} {r : c.Reply}

theorem linked_sound (sound : v.err pid = false) : linked E pid c v r v' ↔
    exec E pid c v.world r v'.world ∧ v'.err = v.after E pid c := by
  simp [linked, sound]

theorem linked_dead {o : StoreOp} {r : o.Reply} (dead : v.err pid = true) :
    linked E pid (.store o) v r v' ↔ r = o.failed ∧ v' = v := by
  simp [linked, dead, Cmd.null]

/-- Only operations of the store go over the connection. -/
theorem linked_other (other : ∀ o, c ≠ .store o) : linked E pid c v r v' ↔
    exec E pid c v.world r v'.world ∧ v'.err = v.err := by
  have null : c.null = none := by
    cases c with
    | store o => exact absurd rfl (other o)
    | _ => rfl
  have whole : v.after E pid c = v.err := by
    cases c with
    | store o => exact absurd rfl (other o)
    | _ => exact if_neg not_false
  cases dead : v.err pid <;> simp [linked, dead, null, whole]

/-- An operation that is not rejected leaves the connections as they are. -/
theorem linked_err (taken : ¬c.Severs E) (h : linked E pid c v r v') : v'.err = v.err := by
  cases dead : v.err pid with
  | false => exact ((linked_sound dead).mp h).2.trans (if_neg taken)
  | true =>
    cases c with
    | store o => rw [((linked_dead dead).mp h).2]
    | _ => exact ((linked_other (by simp)).mp h).2

/-- An error stays, and the errors of the others too. -/
theorem linked_dead_err (dead : v.err pid = true) (h : linked E pid c v r v') : v'.err = v.err := by
  cases c with
  | store o => rw [((linked_dead dead).mp h).2]
  | _ => exact ((linked_other (by simp)).mp h).2

theorem linked_dead_db (dead : v.err pid = true) (h : linked E pid c v r v') :
    v'.world.db = v.world.db := by
  cases c with
  | store o => rw [((linked_dead dead).mp h).2]
  | _ => exact exec_db ((linked_other (by simp)).mp h).1 (by simp)

/-- A record that is not touched stays, whether the command is sent or not. -/
theorem linked_frame (h : linked E pid c v r v') {k : Key} (hk : ¬c.Touches k) :
    v'.world.db k.text = v.world.db k.text := by
  cases dead : v.err pid with
  | false => exact exec_frame ((linked_sound dead).mp h).1 hk
  | true =>
    cases c with
    | store o => rw [((linked_dead dead).mp h).2]
    | _ => exact exec_frame ((linked_other (by simp)).mp h).1 hk

theorem linked_lastSlice (h : linked E pid c v r v') {mall_id : Int32}
    (hk : ¬c.Touches (.logDataTimeSet mall_id.toInt)) (pid' : Nat) :
    v'.world.lastSlice pid' mall_id = v.world.lastSlice pid' mall_id := by
  cases dead : v.err pid with
  | false => exact exec_lastSlice ((linked_sound dead).mp h).1 hk pid'
  | true =>
    cases c with
    | store o => rw [((linked_dead dead).mp h).2]
    | _ => exact exec_lastSlice ((linked_other (by simp)).mp h).1 hk pid'

end

/-! ## Runs over a connection -/

section
variable {E : Env} {cfg : Config} {pid : Nat} {α : Type} {p : UserM α} {x : Except Exn α}
  {v v' : Linked}

/-- A run that does not lose the connection is a run without one. -/
theorem Runs.unlinked (runs : p.Runs (linked E pid) v x v') (sound : v'.err pid = false) :
    p.Runs (exec E pid) v.world x v'.world ∧ v'.err = v.err := by
  induction p generalizing v with
  | ret a =>
    obtain ⟨rfl, rfl⟩ := runs
    exact ⟨⟨rfl, rfl⟩, rfl⟩
  | throw e =>
    obtain ⟨rfl, rfl⟩ := runs
    exact ⟨⟨rfl, rfl⟩, rfl⟩
  | op c k ih =>
    obtain ⟨r, u, first, rest⟩ := runs
    obtain ⟨more, same⟩ := ih r rest
    have before : u.err pid = false := by rwa [← same]
    have whole : v.err pid = false := by
      cases dead : v.err pid with
      | false => rfl
      | true => rw [linked_dead_err dead first, dead] at before; cases before
    obtain ⟨done, now⟩ := (linked_sound whole).mp first
    refine ⟨⟨r, u.world, done, more⟩, same.trans (now.trans (if_neg fun severs => ?_))⟩
    rw [now, Linked.after, if_pos severs, Function.update_self] at before
    cases before

/-- A process whose connection is in error does nothing to the store. -/
theorem Runs.unheard (dead : v.err pid = true) (runs : p.Runs (linked E pid) v x v') :
    v'.err = v.err ∧ v'.world.db = v.world.db := by
  induction p generalizing v with
  | ret a =>
    obtain ⟨rfl, rfl⟩ := runs
    exact ⟨rfl, rfl⟩
  | throw e =>
    obtain ⟨rfl, rfl⟩ := runs
    exact ⟨rfl, rfl⟩
  | op c k ih =>
    obtain ⟨r, u, first, rest⟩ := runs
    have same := linked_dead_err dead first
    obtain ⟨err, db⟩ := ih r (same ▸ dead) rest
    exact ⟨err.trans same, db.trans (linked_dead_db dead first)⟩

/-- A run none of whose commands is rejected. -/
theorem wp_taken (taken : p.Every fun c => ¬c.Severs E) (v : Linked) :
    p.wp (linked E pid) (fun _ v' => v'.err = v.err) v :=
  Prog.wp_of_every (T := fun v v' : Linked => v'.err = v.err) (fun _ => rfl)
    (fun _ _ _ h h' => h'.trans h) (fun _ _ _ _ taken h => linked_err taken h) taken v

/-- Records that a program does not touch stay, whatever becomes of the connection. -/
theorem wp_linkedFrame {S : Key → Prop} (h : p.Every (Within S)) (v : Linked) :
    p.wp (linked E pid) (fun _ v' => ∀ k, ¬S k → v'.world.db k.text = v.world.db k.text) v :=
  Prog.wp_of_every
    (T := fun v v' : Linked => ∀ k, ¬S k → v'.world.db k.text = v.world.db k.text)
    (fun _ _ _ => rfl) (fun _ _ _ h h' k hk => (h' k hk).trans (h k hk))
    (fun _ _ _ _ within h _ hk => linked_frame h fun touches => hk (within.records _ touches)) h v

/-- What is known of such a run without a connection is known of it over a sound one. -/
theorem wp_linked {Q : Except Exn α → World → Prop} (taken : p.Every fun c => ¬c.Severs E)
    (sound : v.err pid = false) (h : p.wp (exec E pid) Q v.world) :
    p.wp (linked E pid) (fun x v' => Q x v'.world ∧ v'.err = v.err) v := by
  rw [Prog.wp_iff_runs]
  intro x v' runs
  have same : v'.err = v.err := runs.post _ (wp_taken taken v)
  exact ⟨(Runs.unlinked runs (same ▸ sound)).1.post _ h, same⟩

end

/-! ## When a connection is lost -/

/-- The members of all other records are taken as they come. -/
def Steady : Key → Prop
  | .logDataTimeSet _ => False
  | _ => True

theorem not_rejected {m : Machine} {o : StoreOp} (fits : o.Conforms) (steady : Steady o.key) :
    ¬o.Rejected m := by
  have word {k : Key} {x : Text} (h : IsWord x) : formatArgs m.stray (k.text ++ ' ' :: x) ≠ none := by
    rw [formatArgs_two k.isWord_text h]
    simp
  obtain ⟨suits, worded⟩ := fits
  cases o with
  | set τ k v => exact word (isWord_print m.doubles (kind_ne_string suits) v)
  | sadd k v => exact word suits.2
  | zadd k score v =>
    rcases suits with ⟨-, member⟩ | slices
    · simp [StoreOp.Rejected, formatArgs_cons k.isWord_text, formatArgs_cons (isWord_decimal _),
        formatArgs_word member]
    · cases k <;> simp_all [Key.kind, Steady, StoreOp.key]
  | hset k field v =>
    simp [StoreOp.Rejected, formatArgs_cons k.isWord_text, formatArgs_two worded.1 worded.2]
  | get | incr | zrangebyscore => exact not_false

section
variable {E : Env} {cfg : Config} {pid : Nat} {α β : Type} {p : UserM α}

theorem taken_of_steady (fits : Conforming p) (steady : p.Every (Within Steady)) :
    p.Every fun c => ¬c.Severs E := by
  apply (fits.and steady).mono
  rintro c ⟨fits, within⟩
  cases c with
  | store o => exact fun severs => not_rejected fits (within.records _ rfl) severs.2
  | _ => exact not_false

theorem wp_steady (fits : Conforming p) (steady : p.Every (Within Steady)) (v : Linked) :
    p.wp (linked E pid) (fun _ v' => v'.err = v.err ∧
      ∀ (pid' : Nat) (m : Int32), v'.world.lastSlice pid' m = v.world.lastSlice pid' m) v := by
  apply Prog.wp_and _ (wp_taken (taken_of_steady fits steady) v)
  exact Prog.wp_of_every
    (T := fun v v' : Linked => ∀ (pid' : Nat) (m : Int32),
      v'.world.lastSlice pid' m = v.world.lastSlice pid' m)
    (fun _ _ _ => rfl) (fun _ _ _ h h' pid m => (h' pid m).trans (h pid m))
    (fun c _ _ _ within h pid m => linked_lastSlice h (fun touches => within.records _ touches) pid)
    steady v

/-- The slice is new to the process, and the bytes of the reading make a format that is
not taken. -/
def LosesLink (E : Env) (cfg : Config) (w : World) (s : Sighting) (t : Int64) : Prop :=
  E.type = .redis ∧ w.lastSlice s.pid s.mall_id ≠ some (sliceOf cfg t.toInt) ∧
    formatArgs E.m.stray (timeMember t) = none

instance (E : Env) (cfg : Config) (w : World) (s : Sighting) (t : Int64) :
    Decidable (LosesLink E cfg w s t) :=
  inferInstanceAs (Decidable (_ ∧ _ ∧ _))

/-- Neither a connection nor what a process remembers of the slices has changed. -/
def SameLinks (v v' : Linked) : Prop :=
  v'.err = v.err ∧ ∀ (pid : Nat) (m : Int32), v'.world.lastSlice pid m = v.world.lastSlice pid m

theorem wp_steady_bind {f : α → UserM β} {Q : Except Exn β → Linked → Prop} {v0 v : Linked}
    (fits : Conforming p) (steady : p.Every (Within Steady)) (same : SameLinks v0 v)
    (hok : ∀ a v, SameLinks v0 v → (f a).wp (linked E pid) Q v)
    (herr : ∀ e v, Q (.error e) v) : (p >>= f).wp (linked E pid) Q v := by
  apply Prog.wp_seq _ (wp_steady fits steady v)
  · rintro a u ⟨err, last⟩
    exact hok a u ⟨err.trans same.1, fun pid m => (last pid m).trans (same.2 pid m)⟩
  · exact fun e u _ => herr e u

theorem severs_registers {mall_id : Int32} {t : Int64} :
    (Cmd.store (.zadd (.logDataTimeSet mall_id.toInt) t (timeMember t))).Severs E ↔
      E.type = .redis ∧ formatArgs E.m.stray (timeMember t) = none := by
  simp [Cmd.Severs, StoreOp.Rejected, formatArgs_cons (Key.isWord_text _),
    formatArgs_cons (isWord_decimal _)]

variable {s : Sighting} {v : Linked} {t : Int64}

theorem wp_registerTimeSlice_link (sound : v.err s.pid = false) :
    (registerTimeSlice s.mall_id (sliceOf cfg t.toInt) t).wp (linked E s.pid) (fun _ v' =>
      v'.err = if LosesLink E cfg v.world s t then Function.update v.err s.pid true else v.err) v := by
  intro last u asked
  obtain ⟨⟨rfl, same⟩, err⟩ := (linked_other (by simp)).mp asked
  simp only [Prog.bind]
  unfold whenM
  split
  · rename_i forgotten
    intro _ u1 added _ u2 remembered
    obtain ⟨-, err1⟩ := (linked_sound (by rwa [err])).mp added
    obtain ⟨-, err2⟩ := (linked_other (by simp)).mp remembered
    have loses : LosesLink E cfg v.world s t ↔
        E.type = .redis ∧ formatArgs E.m.stray (timeMember t) = none := by
      simp only [LosesLink, World.lastSlice, forgotten, ne_eq, not_false_eq_true, true_and]
    change u2.err = _
    rw [err2, err1, Linked.after, err]
    simp only [loses, severs_registers]
  · rename_i known
    have kept : ¬LosesLink E cfg v.world s t := fun loses => known loses.2.1
    rw [if_neg kept]
    exact err

/-- A call of `user_add` that returns loses a sound connection exactly if it has to register
its slice and hiredis does not take the reading. -/
theorem wp_userAdd_link (sound : v.err s.pid = false) (clock : v.world.clock = [t]) :
    (s.start cfg).wp (linked E s.pid) (fun x v' => ∀ a, x = .ok a → v'.err =
      if LosesLink E cfg v.world s t then Function.update v.err s.pid true else v.err) v := by
  intro ok v1 begun
  obtain ⟨started, err1⟩ := (linked_other (by simp)).mp begun
  cases ok with
  | false => exact not_ok_error _
  | true =>
    obtain ⟨-, -, clock1, quiet⟩ := exec_init started
    intro now v2 asked
    obtain ⟨⟨reading, rest⟩, err2⟩ := (linked_other (by simp)).mp asked
    obtain ⟨rfl, -⟩ := List.cons.inj ((clock.symm.trans clock1.symm).trans reading)
    have same : SameLinks v v2 :=
      ⟨err2.trans err1, fun pid m => by rw [rest]; exact quiet.lastSlice m not_false pid⟩
    change (recordSighting cfg s.mac s.x s.y s.z s.mall_id t).wp (linked E s.pid) _ v2
    refine wp_steady_bind (conforming_set rfl) (every_set trivial) same (fun _ u same => ?_) fun e _ => not_ok_error e
    refine wp_steady_bind (conforming_set rfl) (every_set trivial) same (fun _ u same => ?_) fun e _ => not_ok_error e
    refine wp_steady_bind (conforming_whenM (conforming_set rfl))
      (every_whenM fun _ => every_set trivial) same (fun _ u same => ?_) fun e _ => not_ok_error e
    refine wp_steady_bind (conforming_get rfl) (every_get trivial) same (fun t_pre u same => ?_) fun e _ => not_ok_error e
    refine wp_steady_bind (conforming_set rfl) (every_set trivial) same (fun _ u same => ?_) fun e _ => not_ok_error e
    refine wp_steady_bind (conforming_zadd rfl (Key.isWord_macText _)) (every_zadd trivial) same
      (fun _ u same => ?_) fun e _ => not_ok_error e
    change (incr _ 1 >>= fun log_id => saveSighting s.mac s.x s.y s.z s.mall_id t _ log_id >>=
      fun _ => creditUser cfg s.mac s.mall_id t_pre t).wp (linked E s.pid) _ u
    refine wp_steady_bind (conforming_incr rfl) (every_incr trivial) same (fun log_id u same => ?_)
      fun e _ => not_ok_error e
    intro _ u1 located
    obtain ⟨here, err⟩ := (linked_other (by simp)).mp located
    have world : u1.world = u.world := here
    have loses : LosesLink E cfg u1.world s t ↔ LosesLink E cfg v.world s t := by
      simp only [LosesLink, world, same.2]
    change ((registerTimeSlice s.mall_id (sliceOf cfg t.toInt) t >>= fun _ =>
      indexSighting s.mac s.x s.y s.z s.mall_id t (sliceOf cfg t.toInt) log_id) >>= fun _ =>
        creditUser cfg s.mac s.mall_id t_pre t).wp (linked E s.pid) _ u1
    rw [Prog.bind_assoc]
    apply Prog.wp_seq _ (wp_registerTimeSlice_link (t := t) (by rw [err, same.1, sound]))
    · intro _ u2 registered
      rw [err, same.1] at registered
      simp only [loses] at registered
      have rest : (indexSighting s.mac s.x s.y s.z s.mall_id t (sliceOf cfg t.toInt) log_id >>=
          fun _ => creditUser cfg s.mac s.mall_id t_pre t).wp (linked E s.pid)
          (fun _ u3 => u3.err = u2.err) u2 := by
        apply wp_taken (taken_of_steady _ _)
        · exact conforming_indexSighting.bind fun _ => conforming_creditUser
        · exact (every_indexSighting trivial trivial fun _ => trivial).bind fun _ =>
            every_creditUser trivial (fun _ => trivial) (fun _ _ => trivial) (fun _ => trivial) trivial
              fun _ => trivial
      exact Prog.wp_mono _ rest fun _ u3 last _ _ => last.trans registered
    · exact fun e _ _ => not_ok_error e

theorem LinkedCall.unlinked {a : Int32} {v' : Linked} (runs : LinkedCall E cfg v s t (.ok a) v')
    (sound : v.err s.pid = false) (keeps : ¬LosesLink E cfg v.world s t) :
    Call E cfg v.world s t (.ok a) v'.world ∧ v'.err = v.err := by
  have same : v'.err = v.err :=
    (runs.post _ (wp_userAdd_link (v := v.at [t]) sound rfl) a rfl).trans (if_neg keeps)
  exact ⟨(Runs.unlinked runs (same ▸ sound)).1, same⟩

end

/-! ## Runs to compute with -/

/-- The world as a function, over the connection. -/
def linkedAnswer (E : Env) (answer : (c : Cmd) → World → Option (c.Reply × World)) (pid : Nat)
    (c : Cmd) (v : Linked) : Option (c.Reply × Linked) :=
  match v.err pid, c.null with
  | true, some null => some (null, v)
  | _, _ => (answer c v.world).map fun r => (r.1, ⟨r.2, v.after E pid c⟩)

theorem linked_answer {E : Env} {answer : (c : Cmd) → World → Option (c.Reply × World)} {pid : Nat}
    (h : ∀ c w r, answer c w = some r → exec E pid c w r.1 r.2) (c : Cmd) (v : Linked)
    (r : c.Reply × Linked) (e : linkedAnswer E answer pid c v = some r) :
    linked E pid c v r.1 r.2 := by
  unfold linkedAnswer at e
  unfold linked
  split at e
  · obtain rfl := Option.some.inj e
    exact ⟨rfl, rfl⟩
  · obtain ⟨q, answered, rfl⟩ := Option.map_eq_some_iff.mp e
    exact ⟨h c v.world q answered, rfl⟩

/-- The call computed, with 7 for the id of every user. -/
def callLinked (E : Env) (v : Linked) (s : Sighting) (t : Int64) :
    Option (Except Exn Int32 × Linked) :=
  (s.start firstDay).eval
    (linkedAnswer E (answer E (fun _ _ => some (decimal 7)) (fun _ _ => []) s.pid) s.pid) (v.at [t])

theorem linkedCall_of_callLinked {E : Env} (own : E.freed E.m.freed) (pg : E.pg = Pg.any) {v : Linked}
    {s : Sighting} {t : Int64} {r : Except Exn Int32 × Linked} (h : callLinked E v s t = some r) :
    LinkedCall E firstDay v s t r.1 r.2 := by
  refine Prog.runs_eval _ (linked_answer (exec_answer own ?_ ?_)) h
  · intro _ _ _ _
    rw [pg]
    trivial
  · intro _ _
    rw [pg]
    trivial

/-- The bytes of 21285 are `%S`, which is no conversion of hiredis. -/
theorem percentS : formatArgs Machine.plain.stray (timeMember 21285) = none := by decide +kernel

end UserMap

end SimpleDsp
