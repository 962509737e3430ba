import SimpleDsp.UserMap.Functions

/-!
# Which records the functions touch

`Within S` holds of an operation that reads and writes only records in `S` and
does not read the clock. For each function: the records that have to be in `S`
for all its operations to be `Within S`.
-/

namespace SimpleDsp

open DecimalText Programs

namespace UserMap

structure Within (S : Key → Prop) (c : Cmd) : Prop where
  records : ∀ k, c.Touches k → S k
  timeless : c ≠ .time

variable {S : Key → Prop}

theorem within_store {o : StoreOp} (h : S o.key) : Within S (.store o) :=
  ⟨by rintro k rfl; exact h, by simp⟩

/-- An operation on no record. -/
theorem within_none {c : Cmd} (h : ∀ k, ¬c.Touches k) (hc : c ≠ .time) : Within S c :=
  ⟨fun k touches => absurd touches (h k), hc⟩

theorem every_whenM {φ : Cmd → Prop} {c : Prop} [Decidable c] {p : UserM Unit}
    (h : c → p.Every φ) : (whenM c p).Every φ := by
  unfold whenM
  split
  · exact h ‹c›
  · trivial

theorem every_liftExcept {φ : Cmd → Prop} {α : Type} (x : Except Exn α) :
    (liftExcept x).Every φ := by
  cases x <;> trivial

theorem every_set {τ : Ty} {k : Key} {v : τ.Val} (h : S k) : (set τ k v).Every (Within S) :=
  ⟨within_store h, fun _ => trivial⟩

theorem every_get {τ : Ty} {k : Key} {d : τ.Val} (h : S k) : (get τ k d).Every (Within S) :=
  ⟨within_store h, fun _ => trivial⟩

theorem every_incr {k : Key} {n : Int32} (h : S k) : (incr k n).Every (Within S) :=
  ⟨within_store h, fun _ => trivial⟩

theorem every_zadd {k : Key} {t : Int64} {v : Text} (h : S k) : (zadd k t v).Every (Within S) :=
  ⟨within_store h, fun _ => trivial⟩

theorem every_sadd {k : Key} {v : Text} (h : S k) : (sadd k v).Every (Within S) :=
  ⟨within_store h, fun _ => trivial⟩

theorem every_userMapInit : userMapInit.Every (Within S) := by
  refine ⟨within_none (by rintro k ⟨⟩) (by simp), fun ok => ?_⟩
  cases ok <;> trivial

/-- The operations of `user_get_id`. -/
inductive Cmd.OfLookup (mac : UInt64) : Cmd → Prop
  | init : OfLookup mac .init
  | lock : OfLookup mac .lock
  | unlock : OfLookup mac .unlock
  | ask : OfLookup mac (.addUser mac)
  | cached : OfLookup mac (.store (.get .int (.userId mac) 0))
  | id (i : Int32) : OfLookup mac (.store (.set .int (.userId mac) i))
  | mac (i : Int32) : OfLookup mac (.store (.set .ull (.userMac i.toInt) mac))

section
variable {mac : UInt64}

theorem ofLookup_runAddUser (n : Nat) : (runAddUser mac n).Every (Cmd.OfLookup mac) := by
  induction n with
  | zero => trivial
  | succ n ih =>
    refine ⟨.ask, fun s_id => ?_⟩
    simp only [Prog.bind]
    split
    · trivial
    · exact ih

theorem ofLookup_userIdFromPg : (userIdFromPg mac).Every (Cmd.OfLookup mac) := by
  apply (ofLookup_runAddUser 10).bind
  intro s_id
  have read : (if s_id ≠ [] then liftExcept (stoi s_id) else pure 0 : UserM Int32).Every
      (Cmd.OfLookup mac) := by
    split
    · exact every_liftExcept _
    · trivial
  apply read.bind
  intro user_id
  have saved : (do
      set .int (.userId mac) user_id
      set .ull (.userMac user_id.toInt) mac : UserM Unit).Every (Cmd.OfLookup mac) :=
    ⟨.id user_id, fun _ => ⟨.mac user_id, fun _ => trivial⟩⟩
  exact (every_whenM fun _ => saved).bind fun _ => trivial

theorem ofLookup_userGetId : (userGetId mac).Every (Cmd.OfLookup mac) := by
  have started : userMapInit.Every (Cmd.OfLookup mac) := by
    refine ⟨.init, fun ok => ?_⟩
    cases ok <;> trivial
  refine ⟨.lock, fun _ => started.bind fun _ => ⟨.cached, fun cached => ?_⟩⟩
  have body : (if cached = 0 then userIdFromPg mac else pure cached : UserM Int32).Every
      (Cmd.OfLookup mac) := by
    split
    · exact ofLookup_userIdFromPg
    · trivial
  exact body.bind fun _ => ⟨.unlock, fun _ => trivial⟩

theorem every_userGetId (hid : S (.userId mac)) (hmac : ∀ id, S (.userMac id)) :
    (userGetId mac).Every (Within S) := by
  apply ofLookup_userGetId.mono
  intro c own
  cases own with
  | ask => exact ⟨by rintro k rfl; exact hid, by simp⟩
  | cached => exact within_store hid
  | id i => exact within_store hid
  | mac i => exact within_store (hmac _)
  | _ => exact within_none (by rintro k ⟨⟩) (by simp)

end

section
variable {cfg : Config}

theorem every_userDurationAdd {user_id mall_id : Int32} {t_pre t_now : Int64}
    (h : ∀ date id, S (.userDuration date mall_id.toInt id)) :
    (userDurationAdd cfg user_id mall_id t_pre t_now).Every (Within S) :=
  (every_incr (h _ _)).bind fun _ => trivial

theorem every_registerTimeSlice {mall_id : Int32} {s : Stamp} {t : Int64}
    (h : S (.logDataTimeSet mall_id.toInt)) : (registerTimeSlice mall_id s t).Every (Within S) := by
  refine ⟨within_none (by rintro k ⟨⟩) (by simp), fun last => every_whenM fun _ => (every_zadd h).bind fun _ => ?_⟩
  exact ⟨⟨by rintro k rfl; exact h, by simp⟩, fun _ => trivial⟩

theorem every_tairSetLogProp {τ : Ty} {mall_id : Int32} {s : Stamp} {log_id : Int32} {prop : LogProp}
    {v : τ.Val} (h : S (.logEntry mall_id.toInt s log_id.toInt prop)) :
    (tairSetLogProp τ mall_id s log_id prop v).Every (Within S) :=
  every_set h

theorem every_indexSighting {mac : UInt64} {x y : Rat} {z mall_id : Int32} {t : Int64} {s : Stamp}
    {log_id : Int32} (hmac : S (.logMacSet mall_id.toInt s))
    (hset : S (.logLocLogSet mall_id.toInt s mac))
    (hentry : ∀ prop, S (.logEntry mall_id.toInt s log_id.toInt prop)) :
    (indexSighting mac x y z mall_id t s log_id).Every (Within S) := by
  apply (every_sadd hmac).bind
  intro _
  apply (every_zadd hset).bind
  intro _
  refine (every_tairSetLogProp (hentry _)).bind fun _ => (every_tairSetLogProp (hentry _)).bind
    fun _ => (every_tairSetLogProp (hentry _)).bind fun _ => (every_tairSetLogProp (hentry _)).bind
    fun _ => every_whenM fun _ => ?_
  exact every_tairSetLogProp (hentry _)

theorem every_saveSighting {mac : UInt64} {x y : Rat} {z mall_id : Int32} {t : Int64} {s : Stamp}
    {log_id : Int32} (htime : S (.logDataTimeSet mall_id.toInt))
    (hmac : S (.logMacSet mall_id.toInt s)) (hset : S (.logLocLogSet mall_id.toInt s mac))
    (hentry : ∀ prop, S (.logEntry mall_id.toInt s log_id.toInt prop)) :
    (saveSighting mac x y z mall_id t s log_id).Every (Within S) := by
  refine ⟨within_none (by rintro k ⟨⟩) (by simp), fun _ => ?_⟩
  exact (every_registerTimeSlice htime).bind fun _ => every_indexSighting hmac hset hentry

theorem every_tairSetUserProp {τ : Ty} {mall_id : Int32} {mac : UInt64} {prop : LocationProp}
    {v : τ.Val} (h : S (.location mall_id.toInt mac prop)) :
    (tairSetUserProp τ mall_id mac prop v).Every (Within S) :=
  every_set h

theorem every_vipArriveTimeRecord {user_id mall_id : Int32} {t_pre t_now : Int64}
    (hvip : S (.isMallVip mall_id.toInt user_id.toInt)) (harrive : S (.vipArriveTime mall_id.toInt)) :
    (vipArriveTimeRecord cfg user_id mall_id t_pre t_now).Every (Within S) := by
  apply every_whenM
  intro _
  have vip : (if cfg.check_vip = 0 then pure true else isMallVip user_id mall_id :
      UserM Bool).Every (Within S) := by
    split
    · trivial
    · exact (every_get hvip).bind fun _ => trivial
  exact vip.bind fun _ => every_whenM fun _ => every_zadd harrive

end

section
variable {cfg : Config}

theorem every_creditUser {mac : UInt64} {mall_id : Int32} {t_pre t_now : Int64}
    (hid : S (.userId mac)) (hmac : ∀ id, S (.userMac id))
    (hduration : ∀ date id, S (.userDuration date mall_id.toInt id))
    (hvip : ∀ id, S (.isMallVip mall_id.toInt id)) (harrive : S (.vipArriveTime mall_id.toInt))
    (hdaily : ∀ date, S (.macSetDaily date mall_id.toInt)) :
    (creditUser cfg mac mall_id t_pre t_now).Every (Within S) := by
  apply (every_userGetId hid hmac).bind
  intro user_id
  apply (every_userDurationAdd hduration).bind
  intro _
  apply (every_vipArriveTimeRecord (hvip _) harrive).bind
  intro _
  exact (every_sadd (hdaily _)).bind fun _ => trivial

end

/-! ## Frames -/

section
variable {E : Env} {pid : Nat}

/-- Nothing outside `S` differs. -/
structure Unchanged (S : Key → Prop) (w v : World) : Prop where
  db : ∀ k, ¬S k → v.db k.text = w.db k.text
  lastSlice : ∀ mall_id : Int32, ¬S (.logDataTimeSet mall_id.toInt) →
    ∀ pid, v.lastSlice pid mall_id = w.lastSlice pid mall_id
  users : (∀ mac, ¬S (.userId mac)) → v.users = w.users

theorem Unchanged.refl (w : World) : Unchanged S w w :=
  ⟨fun _ _ => rfl, fun _ _ _ => rfl, fun _ => rfl⟩

theorem Unchanged.trans {a b c : World} (h : Unchanged S a b) (h' : Unchanged S b c) :
    Unchanged S a c where
  db k hk := (h'.db k hk).trans (h.db k hk)
  lastSlice m hm pid := (h'.lastSlice m hm pid).trans (h.lastSlice m hm pid)
  users hm := (h'.users hm).trans (h.users hm)

theorem not_ok_error {α : Type} {P : α → Prop} (e : Exn) :
    ∀ a, (.error e : Except Exn α) = .ok a → P a := by
  intro a ended
  cases ended

theorem wp_frame {α : Type} {p : UserM α} (h : p.Every (Within S)) (w : World) :
    p.wp (exec E pid) (fun _ v => Unchanged S w v) w := by
  apply Prog.wp_of_every Unchanged.refl (fun _ _ _ => Unchanged.trans) _ h
  intro c u r v within x
  exact ⟨fun k hk => exec_frame x fun touches => hk (within.records k touches),
    fun m hm pid => exec_lastSlice x (fun touches => hm (within.records _ touches)) pid,
    fun hm => exec_users x fun mac touches => hm mac (within.records _ touches)⟩

theorem wp_clock {α : Type} {p : UserM α} (h : p.Every (Within S)) (w : World) :
    p.wp (exec E pid) (fun _ v => v.clock = w.clock) w :=
  Prog.wp_of_every (T := fun w v : World => v.clock = w.clock) (fun _ => rfl)
    (fun _ _ _ h h' => h'.trans h) (fun _ _ _ _ within x => exec_clock x within.timeless) h w

/-- A first part that stays within `S` is passed over. -/
theorem wp_quiet {α β : Type} {p : UserM α} {f : α → UserM β} {Q : Except Exn β → World → Prop}
    {w0 w : World} (hp : p.Every (Within S)) (calm : p.NoThrow) (hw : Unchanged S w0 w)
    (hok : ∀ a v, Unchanged S w0 v → (f a).wp (exec E pid) Q v) :
    (p >>= f).wp (exec E pid) Q w :=
  calm.wp_bind (wp_frame hp w) fun a v same => hok a v (hw.trans same)

/-- So is one that may throw. -/
theorem wp_quiet_throw {α β : Type} {p : UserM α} {f : α → UserM β}
    {Q : Except Exn β → World → Prop} {w0 w : World} (hp : p.Every (Within S))
    (hw : Unchanged S w0 w) (hok : ∀ a v, Unchanged S w0 v → (f a).wp (exec E pid) Q v)
    (herr : ∀ e v, Q (.error e) v) : (p >>= f).wp (exec E pid) Q w :=
  Prog.wp_seq _ (wp_frame hp w) (fun a v same => hok a v (hw.trans same)) fun e v _ => herr e v

/-- A store operation, when the store answers. -/
theorem wp_store {α : Type} (answered : ¬E.lossy) {o : StoreOp} {k : o.Reply → UserM α}
    {Q : Except Exn α → World → Prop} {w : World}
    (h : ∀ freed, E.freed freed → ∀ v : World, v.db = (o.run E.type E.m w.db).2 →
      (k (o.run E.type (E.m.finding freed) w.db).1).wp (exec E pid) Q v) :
    (Prog.op (.store o) k).wp (exec E pid) Q w := by
  intro r v x
  obtain ⟨freed, found, hr, hdb⟩ := (E.serves_iff answered).mp x.1
  rw [hr]
  exact h freed found v hdb

/-- So is a last part. -/
theorem wp_quiet_end {α : Type} {p : UserM α} {Q : Except Exn α → World → Prop} {w : World}
    (hp : p.Every (Within S)) (calm : p.NoThrow)
    (h : ∀ a v, Unchanged S w v → Q (.ok a) v) : p.wp (exec E pid) Q w := by
  apply Prog.wp_mono _ (Prog.wp_and _ (wp_frame hp w) (calm.wp w))
  rintro x v ⟨same, a, rfl⟩
  exact h a v same

theorem noThrow_whenM {c : Prop} [Decidable c] {p : UserM Unit} (h : p.NoThrow) :
    (whenM c p).NoThrow := by
  unfold whenM
  split
  · exact h
  · trivial

theorem noThrow_indexSighting {mac : UInt64} {x y : Rat} {z mall_id : Int32} {t : Int64}
    {s : Stamp} {log_id : Int32} : (indexSighting mac x y z mall_id t s log_id).NoThrow :=
  fun _ _ _ _ _ _ => noThrow_whenM fun _ => trivial

theorem exec_init {w v : World} {r : Bool} (h : exec E pid .init w r v) :
    v.db = w.db ∧ v.users = w.users ∧ v.clock = w.clock ∧ Unchanged (fun _ => False) w v := by
  have quiet : Unchanged (fun _ => False) w v :=
    ⟨fun k _ => exec_frame h not_false, fun m _ pid => exec_lastSlice h not_false pid,
      fun _ => exec_users h fun _ => not_false⟩
  simp only [exec] at h
  split at h
  · rw [h.2]; exact ⟨rfl, rfl, rfl, Unchanged.refl w⟩
  · rcases h with ⟨_, rfl⟩ | ⟨_, rfl | rfl⟩ <;> exact ⟨rfl, rfl, rfl, quiet⟩

end

end UserMap

end SimpleDsp
