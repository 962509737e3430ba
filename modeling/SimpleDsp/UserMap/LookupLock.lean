import SimpleDsp.UserMap.Calls

/-!
# The lock of user_get_id

`user_get_id` takes a mutex, and gives it back before it returns. Between the two
stand the initialisation, which throws when it fails and makes the mutex anew on
its way, and the reading of a number from what the shell command prints.

* `lookup`: the id that is returned, of what the store and PG answer;
* `Encounter.Releases`: the initialisations, ids and outputs after which the
  mutex is free;
* `lock_released_iff`.
-/

namespace SimpleDsp

open DecimalText Programs

namespace UserMap

/-- How `user_map_init` ends: it throws before `pthread_mutex_init`, or after it. -/
inductive InitOutcome
  | returns | failsBefore | failsAfter
  deriving DecidableEq

/-- What a call of `user_get_id` meets: the end of the initialisation, and the id
that the store answers, zero for none. -/
structure Encounter where
  init : InitOutcome
  cached : Int32

/-- The operation meets `i`; the second component has the outputs to come. -/
def Encounter.Meets (i : Encounter) (pid : Nat) :
    (c : Cmd) → World × List Text → c.Reply → World × List Text → Prop
  | .init, s, r, s' =>
    s'.2 = s.2 ∧ r = decide (i.init = .returns) ∧ (i.init = .failsBefore → s'.1 = s.1) ∧
      (i.init = .failsAfter → (s'.1.process pid).locked = false)
  | .store (.get .int (.userId _) _), s, r, s' => s'.2 = s.2 ∧ r = i.cached
  | .addUser _, s, r, s' => s.2 = r :: s'.2
  | _, s, _, s' => s'.2 = s.2

def execMeeting (E : Env) (pid : Nat) (i : Encounter) (c : Cmd) (s : World × List Text)
    (r : c.Reply) (s' : World × List Text) : Prop :=
  exec E pid c s.1 r s'.1 ∧ i.Meets pid c s r s'

/-- The first of `n` outputs that is not empty; empty if they all are. -/
def heard (n : Nat) (outputs : List Text) : Text := ((outputs.take n).find? (· ≠ [])).getD []

/-- The text starts with a number that an `int` holds. -/
def IntText (s : Text) : Prop := ∃ v rest, scanInt s = some (v, rest) ∧ -2 ^ 31 ≤ v ∧ v < 2 ^ 31

/-- The id that PG has printed; zero without output. -/
def lookedUp (outputs : List Text) : Except Exn Int32 :=
  if heard 10 outputs = [] then .ok 0 else stoi (heard 10 outputs)

/-- The id of a user, where the store answers `cached`. -/
def lookup (cached : Int32) (outputs : List Text) : Except Exn Int32 :=
  if cached = 0 then lookedUp outputs else .ok cached

/-- An initialisation that runs to `pthread_mutex_init` frees the mutex that the
caller holds, so that only the later calls of a process can be left with it. -/
structure Encounter.Releases (i : Encounter) (started : Bool) (outputs : List Text) : Prop where
  init : i.init ≠ .failsBefore
  number : started = true → i.cached = 0 → heard 10 outputs ≠ [] → IntText (heard 10 outputs)

/-- The mutex is free, and another call can take it. -/
def Released (E : Env) (pid : Nat) (w : World) : Prop :=
  (w.process pid).locked = false ∧ ∃ w', exec E pid .lock w () w'

theorem released_iff {E : Env} {pid : Nat} {w : World} :
    Released E pid w ↔ (w.process pid).locked = false := by
  constructor
  · exact And.left
  · exact fun free => ⟨free, _, free, rfl⟩

theorem intText_iff {s : Text} : IntText s ↔ ∃ v, stoi s = .ok v := by
  unfold IntText stoi
  cases scanInt s with
  | none => simp
  | some p =>
    constructor
    · rintro ⟨v, rest, e, bounds⟩
      obtain rfl := Option.some.inj e
      exact ⟨Int32.ofInt v, if_pos bounds⟩
    · rintro ⟨v, e⟩
      by_cases bounds : -2 ^ 31 ≤ p.1 ∧ p.1 < 2 ^ 31
      · exact ⟨p.1, p.2, rfl, bounds⟩
      · simp only [if_neg bounds] at e
        cases e

theorem lookup_ok_iff {cached : Int32} {outputs : List Text} :
    (∃ user_id, lookup cached outputs = .ok user_id) ↔
      (cached = 0 → heard 10 outputs ≠ [] → IntText (heard 10 outputs)) := by
  by_cases none : cached = 0
  · by_cases silent : heard 10 outputs = []
    · simp [lookup, lookedUp, none, silent]
    · simp [lookup, lookedUp, none, silent, intText_iff]
  · simp [lookup, none]

/-! ## Operations -/

variable {E : Env} {pid : Nat} {i : Encounter} {mac : UInt64}

/-- The lock is as it was in `w`. -/
def SameLock (pid : Nat) (w : World) (s : World × List Text) : Prop :=
  (s.1.process pid).locked = (w.process pid).locked

theorem heard_cons {n : Nat} {out : Text} {outputs : List Text} :
    heard (n + 1) (out :: outputs) = if out ≠ [] then out else heard n outputs := by
  unfold heard
  by_cases e : out = []
  · subst e; simp
  · simp [e]

/-- The attempts end with the first output there is. -/
theorem meeting_runAddUser (n : Nat) (s : World × List Text) :
    (runAddUser mac n).wp (execMeeting E pid i)
      (fun x s' => x = .ok (heard n s.2) ∧ SameLock pid s.1 s') s := by
  induction n generalizing s with
  | zero => exact ⟨rfl, rfl⟩
  | succ n ih =>
    intro out s' x
    have printed : s.2 = out :: s'.2 := x.2
    have same : SameLock pid s.1 s' := exec_locked x.1 (by simp)
    rw [printed, heard_cons]
    simp only [Prog.bind]
    split
    · exact ⟨rfl, same⟩
    · apply Prog.wp_mono _ (ih s')
      rintro y s'' ⟨rfl, same'⟩
      exact ⟨rfl, same'.trans same⟩

/-- A lookup in PG reads what is printed. -/
theorem meeting_userIdFromPg (s : World × List Text) :
    (userIdFromPg mac).wp (execMeeting E pid i)
      (fun x s' => SameLock pid s.1 s' ∧ x = lookedUp s.2) s := by
  apply Prog.wp_seq _ (meeting_runAddUser 10 s)
  · rintro _ s1 ⟨⟨⟩, same⟩
    have saved (user_id : Int32) : (do
        whenM (0 < user_id) (do
          set .int (.userId mac) user_id
          set .ull (.userMac user_id.toInt) mac)
        pure user_id : UserM Int32).wp (execMeeting E pid i)
          (fun x s' => SameLock pid s.1 s' ∧ x = .ok user_id) s1 := by
      unfold whenM
      split
      · intro _ s2 x _ s3 y
        refine ⟨Eq.trans ?_ same, rfl⟩
        refine Eq.trans ?_ (exec_locked x.1 (by simp))
        exact exec_locked y.1 (by simp)
      · exact ⟨same, rfl⟩
    by_cases silent : heard 10 s.2 = []
    · rw [if_neg (not_not.mpr silent), lookedUp, if_pos silent]
      exact saved 0
    · rw [if_pos silent, lookedUp, if_neg silent]
      cases stoi (heard 10 s.2) with
      | error e => exact ⟨same, rfl⟩
      | ok user_id => exact saved user_id
  · rintro e s1 ⟨⟨⟩, -⟩

/-- The part of `user_get_id` between the initialisation and the release. -/
theorem meeting_body (s : World × List Text) (cached : Int32) :
    (if cached = 0 then userIdFromPg mac else pure cached : UserM Int32).wp (execMeeting E pid i)
      (fun x s' => SameLock pid s.1 s' ∧ x = lookup cached s.2) s := by
  unfold lookup
  split
  · exact meeting_userIdFromPg s
  · exact ⟨rfl, rfl⟩

/-- Where the mutex is held, an exception leaves it so. -/
theorem meeting_release (s : World × List Text) (cached : Int32) :
    ((if cached = 0 then userIdFromPg mac else pure cached) >>= fun user_id =>
        Prog.call .unlock >>= fun _ => pure user_id : UserM Int32).wp (execMeeting E pid i)
      (fun _ s' => (s'.1.process pid).locked = false ↔ ((s.1.process pid).locked = true →
        cached = 0 → heard 10 s.2 ≠ [] → IntText (heard 10 s.2))) s := by
  apply Prog.wp_seq _ (meeting_body s cached)
  · rintro user_id s1 ⟨-, read⟩ _ s2 unlock
    have free : (s2.1.process pid).locked = false := by
      rw [show s2.1 = _ from unlock.1]
      simp
    exact ⟨fun _ _ => lookup_ok_iff.mp ⟨user_id, read.symm⟩, fun _ => free⟩
  · rintro e s1 ⟨same, thrown⟩
    have throws : ¬(cached = 0 → heard 10 s.2 ≠ [] → IntText (heard 10 s.2)) := by
      intro text
      obtain ⟨user_id, read⟩ := lookup_ok_iff.mpr text
      cases read.symm.trans thrown.symm
    rw [same]
    cases (s.1.process pid).locked with
    | false => simp
    | true => exact ⟨by rintro ⟨⟩, fun text => absurd (text rfl) throws⟩

/-- How the initialisation leaves a mutex that the caller holds. -/
theorem meeting_init {s s' : World × List Text} {r : Bool} (held : (s.1.process pid).locked = true)
    (x : execMeeting E pid i .init s r s') :
    s'.2 = s.2 ∧
      (i.init = .failsBefore ∧ r = false ∧ (s'.1.process pid).locked = true ∨
        i.init = .failsAfter ∧ r = false ∧ (s.1.process pid).started = false ∧
          (s'.1.process pid).locked = false ∨
        i.init = .returns ∧ r = true ∧
          (s'.1.process pid).locked = (s.1.process pid).started) := by
  obtain ⟨run, outputs, rfl, before, after⟩ := x
  refine ⟨outputs, ?_⟩
  simp only [exec] at run
  cases ends : i.init with
  | failsBefore => simp [before ends, held]
  | failsAfter =>
    have fresh : (s.1.process pid).started = false := by
      by_contra started
      simp [ends, started] at run
    simp [after ends, fresh]
  | returns =>
    by_cases started : (s.1.process pid).started = true
    · rw [if_pos started] at run
      simp [run.2, started, held]
    · rw [if_neg started] at run
      obtain ⟨-, world⟩ | ⟨failed, -⟩ := run
      · simp [world, started]
      · simp [ends] at failed

theorem meeting_userGetId (s : World × List Text) :
    (userGetId mac).wp (execMeeting E pid i)
      (fun _ s' => Released E pid s'.1 ↔ i.Releases (s.1.process pid).started s.2) s := by
  simp only [released_iff]
  intro _ s1 lock
  obtain ⟨⟨-, world⟩, same⟩ := lock
  have outputs1 : s1.2 = s.2 := same
  have held : (s1.1.process pid).locked = true := by rw [world]; simp
  have started : (s1.1.process pid).started = (s.1.process pid).started := by rw [world]; simp
  intro r s2 init
  obtain ⟨outputs2, ⟨ends, rfl, kept⟩ | ⟨ends, rfl, fresh, free⟩ | ⟨ends, rfl, left_⟩⟩ :=
    meeting_init held init
  · -- The exception leaves the mutex as `pthread_mutex_lock` did.
    change (s2.1.process pid).locked = false ↔ _
    rw [kept]
    exact ⟨by rintro ⟨⟩, fun releases => absurd ends releases.init⟩
  · change (s2.1.process pid).locked = false ↔ _
    rw [← started, fresh]
    exact ⟨fun _ => ⟨by simp [ends], by rintro ⟨⟩⟩, fun _ => free⟩
  · intro cached s3 read
    have answered : s3.2 = s2.2 ∧ cached = i.cached := read.2
    have same3 : SameLock pid s2.1 s3 := exec_locked read.1 (by simp)
    apply Prog.wp_mono _ (meeting_release s3 cached)
    intro _ s4 release
    rw [release, answered.1, answered.2, outputs2, outputs1, same3, left_, started]
    exact ⟨fun number => ⟨by simp [ends], number⟩, Encounter.Releases.number⟩

/-- In a process that has started, the initialisation does nothing. -/
theorem wp_started {α : Type} {f : Unit → UserM α} {Q : Except Exn α → World × List Text → Prop}
    {s : World × List Text} (started : (s.1.process pid).started = true)
    (h : (f ()).wp (execMeeting E pid i) Q s) : (userMapInit >>= f).wp (execMeeting E pid i) Q s := by
  intro r s' init
  have run := init.1
  rw [exec, if_pos started] at run
  obtain ⟨rfl, world⟩ := run
  have outputs : s'.2 = s.2 := init.2.1
  rw [show s' = s from Prod.ext world outputs]
  exact h

/-- The id that the call returns, or what it throws. -/
theorem meeting_userGetId_lookup (s : World × List Text) (started : (s.1.process pid).started = true) :
    (userGetId mac).wp (execMeeting E pid i) (fun x _ => x = lookup i.cached s.2) s := by
  intro _ s1 lock
  obtain ⟨⟨-, world⟩, same⟩ := lock
  have outputs1 : s1.2 = s.2 := same
  have started1 : (s1.1.process pid).started = true := by rw [world]; simpa using started
  apply wp_started started1
  intro cached s2 read
  have answered : s2.2 = s1.2 ∧ cached = i.cached := read.2
  rw [← answered.2, ← outputs1, ← answered.1]
  apply Prog.wp_seq _ (meeting_body s2 cached)
  · rintro user_id s3 ⟨-, told⟩ _ s4 -
    exact told
  · rintro e s3 ⟨-, told⟩
    exact told

/-! ## The mutex at the end -/

/-- At the end of every call the mutex is free for the next one if and only if
the initialisation does not throw before it makes the mutex and, in a process
that has started, a MAC without an id in the store gets no output from PG or a
number of an `int`. -/
theorem lock_released_iff (E : Env) (pid : Nat) (i : Encounter) (mac : UInt64) (w w' : World)
    (outputs outputs' : List Text) (x : Except Exn Int32)
    (run : (userGetId mac).Runs (execMeeting E pid i) (w, outputs) x (w', outputs')) :
    Released E pid w' ↔ i.Releases (w.process pid).started outputs :=
  Prog.Runs.post _ run (meeting_userGetId (w, outputs))

/-- Process 0 has started; nothing is stored. -/
def startedWorld : World :=
  (World.fresh (fun _ => none) []).setProcess 0 { Process.fresh with started := true }

def heldWorld : World :=
  startedWorld.setProcess 0 { Process.fresh with started := true, locked := true }

/-- A lookup of a MAC without an id, from the first output on. -/
def afterOutput (mac : UInt64) (out : Text) : UserM Int32 :=
  ((if out ≠ [] then pure out else runAddUser mac 9) >>= fun s_id => do
    let user_id ← (if s_id ≠ [] then liftExcept (stoi s_id) else pure 0)
    whenM (0 < user_id) (do
      set .int (.userId mac) user_id
      set .ull (.userMac user_id.toInt) mac)
    pure user_id) >>= fun user_id => do
  let _ ← Prog.call .unlock
  pure user_id

theorem runs_toOutput {mac : UInt64} {out : Text} {x : Except Exn Int32} {s' : World × List Text}
    (rest : (afterOutput mac out).Runs (execMeeting (plainEnv .redis) 0 ⟨.returns, 0⟩)
      (heldWorld, []) x s') :
    (userGetId mac).Runs (execMeeting (plainEnv .redis) 0 ⟨.returns, 0⟩)
      (startedWorld, [out]) x s' := by
  apply Prog.Runs.op (r := ()) (v := (heldWorld, [out]))
  · exact ⟨⟨rfl, rfl⟩, rfl⟩
  apply Prog.Runs.op (r := true) (v := (heldWorld, [out]))
  · refine ⟨by simp [exec, heldWorld], rfl, rfl, ?_, ?_⟩ <;> rintro ⟨⟩
  apply Prog.Runs.op (r := (0 : Int32)) (v := (heldWorld, [out]))
  · exact ⟨⟨Or.inl ⟨_, rfl, rfl⟩, rfl⟩, rfl, rfl⟩
  apply Prog.Runs.op (r := out) (v := (heldWorld, []))
  · exact ⟨⟨trivial, rfl⟩, rfl⟩
  exact rest

/-- PG prints the id zero. -/
theorem lock_released_iff_zero : ∃ w' outputs',
    (userGetId 1).Runs (execMeeting (plainEnv .redis) 0 ⟨.returns, 0⟩)
        (startedWorld, [decimal 0]) (.ok 0) (w', outputs') ∧ Released (plainEnv .redis) 0 w' := by
  have zero : stoi (decimal 0) = .ok 0 := by decide
  let freed := heldWorld.setProcess 0 { heldWorld.process 0 with locked := false }
  have run : (userGetId 1).Runs (execMeeting (plainEnv .redis) 0 ⟨.returns, 0⟩)
      (startedWorld, [decimal 0]) (.ok 0) (freed, []) := by
    apply runs_toOutput
    unfold afterOutput
    rw [if_pos (decimal_ne_nil 0)]
    simp only [Prog.pure_eq, Prog.ret_bind]
    rw [if_pos (decimal_ne_nil 0), zero]
    have none : whenM ((0 : Int32) < 0) (do
        set .int (.userId 1) 0
        set .ull (.userMac (0 : Int32).toInt) 1) = pure () := if_neg (by decide)
    simp only [liftExcept, Prog.ret_bind, none, Prog.pure_eq]
    exact Prog.Runs.op _ (r := ()) (v := (freed, [])) ⟨rfl, rfl⟩ ⟨rfl, rfl⟩
  refine ⟨_, _, run, (lock_released_iff _ _ _ _ _ _ _ _ _ run).mpr ⟨by simp, ?_⟩⟩
  intro _ _ _
  exact ⟨0, [], by decide⟩

/-- PG prints a text that is no number; the exception leaves the mutex locked, and
no later call of the process gets it. -/
theorem lock_kept_after_exception :
    ∃ w' outputs', (userGetId 1).Runs (execMeeting (plainEnv .redis) 0 ⟨.returns, 0⟩)
        (startedWorld, ["ERROR".toList]) (.error .invalidArgument) (w', outputs') ∧
      (w'.process 0).locked = true ∧ ¬∃ w'', exec (plainEnv .redis) 0 .lock w' () w'' := by
  have noNumber : stoi "ERROR".toList = .error .invalidArgument := by decide
  refine ⟨heldWorld, [], ?_, ?_, ?_⟩
  · apply runs_toOutput
    unfold afterOutput
    rw [if_pos (by decide)]
    simp only [Prog.pure_eq, Prog.ret_bind]
    rw [if_pos (by decide), noNumber]
    exact ⟨rfl, rfl⟩
  · simp [heldWorld]
  · rintro ⟨w'', free, -⟩
    simp [heldWorld] at free

end UserMap

end SimpleDsp
