import SimpleDsp.UserMap.Connections
import Mathlib.Data.List.Nodup

/-!
# Log ids

Any number of processes run `user_add`, one step at a time, each over its connection.
Every sighting draws an id from the counter of its mall and time slice and writes the
log entry of that id. The record of a run tells which thread drew and wrote what.

* `NewId`: what a draw may return has not been drawn before;
* `LogInv`: the counter, the ids drawn, and who wrote which entry;
* `log_entries_kept_iff`: in which runs no entry is overwritten.
-/

namespace SimpleDsp

open DecimalText Programs

namespace UserMap

abbrev Entry := Event Cmd Cmd.Reply

abbrev Recorded := Linked × List Entry

/-- The processes, with a record of what each call does. -/
def logSystem (E : Env) (cfg : Config) : System Cmd Cmd.Reply Exn Int32 Sighting Recorded :=
  System.traced {
    start := Sighting.start cfg
    exec := fun _ s => linked E s.pid
    drift := fun _ _ => False }

/-- The id an entry of the record draws from the counter at `k`. -/
def drawn (k : Key) : Entry → Option Int32
  | (_, ⟨.store (.incr k' _), log_id⟩) => if k' = k then some log_id else none
  | _ => none

def draws (k : Key) (record : List Entry) : List Int32 := record.filterMap (drawn k)

def Draws (e : Entry) (k : Key) (log_id : Int32) : Prop :=
  e.2 = ⟨.store (.incr k 1), log_id⟩

def written : Entry → Option Key
  | (_, ⟨.store (.set _ k _), _⟩) => some k
  | _ => none

def Writes (e : Entry) (k : Key) : Prop := written e = some k

/-- The threads that write a record, in order. -/
def writers (k : Key) (record : List Entry) : List Nat :=
  (record.filter fun e => written e = some k).map (·.1)

/-- The ids drawn for a time slice are pairwise distinct, and no log entry of it
that one sighting wrote is written again by another. -/
structure EntriesKept (mall_id : Int) (slice : Stamp) (record : List Entry) : Prop where
  distinct : (draws (.logCounter mall_id slice) record).Nodup
  kept : ∀ log_id prop, ∀ e ∈ record, ∀ e' ∈ record, Writes e (.logEntry mall_id slice log_id prop) →
    Writes e' (.logEntry mall_id slice log_id prop) → e.1 = e'.1

/-! ## Draws -/

section
variable (E : Env) (mall_id : Int) (slice : Stamp)

/-- An increment of the counter of the slice. -/
def DrawsId : Cmd → Prop
  | .store (.incr k _) => k = .logCounter mall_id slice
  | _ => False

/-- Nobody has drawn an id of the slice so far; or, on Redis, what the process will read in
place of the number has not been drawn. Over a connection in error it reads zero. -/
def NewId (pid : Nat) (w : Recorded) : Prop :=
  draws (.logCounter mall_id slice) w.2 = [] ∨
    if w.1.err pid = true then 0 ∉ draws (.logCounter mall_id slice) w.2
    else E.type = .redis ∧ ∀ n, counterAt (w.1.world.db (Key.logCounter mall_id slice).text) = some n →
      ∀ freed, E.freed freed → freed (n + 1) ∉ draws (.logCounter mall_id slice) w.2

/-- The runs in which every draw from the slice gives a new id. -/
def drawSystem (cfg : Config) : System Cmd Cmd.Reply Exn Int32 Sighting Recorded :=
  { logSystem E cfg with
    exec := fun i s c w r w' =>
      (logSystem E cfg).exec i s c w r w' ∧ (DrawsId mall_id slice c → NewId E mall_id slice s.pid w) }

end

/-! ## The invariant -/

variable {E : Env} {cfg : Config} {mall_id : Int} {slice : Stamp}

structure LogInv (E : Env) (mall_id : Int) (slice : Stamp) (w : Recorded) : Prop where
  counted : ∃ n ≤ (draws (.logCounter mall_id slice) w.2).length,
    CBaseMdb.Counted E.type (w.1.world.db (Key.logCounter mall_id slice).text) n
  distinct : (draws (.logCounter mall_id slice) w.2).Nodup
  /-- On Tair there is only one id. -/
  tair : E.type = .tair →
    (∀ pid, w.1.err pid = false) ∧ ∀ r ∈ draws (.logCounter mall_id slice) w.2, r = 1
  backed : ∀ log_id prop, ∀ e ∈ w.2, Writes e (.logEntry mall_id slice log_id prop) →
    ∃ e' ∈ w.2, ∃ r, e'.1 = e.1 ∧ Draws e' (.logCounter mall_id slice) r ∧ r.toInt = log_id

theorem LogInv.start {w : World} (fresh : w.Fresh) : LogInv E mall_id slice (Linked.sound w, []) where
  counted := ⟨0, Nat.zero_le _, by
    simpa [Linked.sound, fresh.db, Db.empty] using CBaseMdb.counted_none⟩
  distinct := List.nodup_nil
  tair _ := ⟨fun _ => rfl, fun r hr => absurd hr List.not_mem_nil⟩
  backed _ _ e he := by simp at he

theorem drawn_eq_none {k : Key} {i : Nat} {c : Cmd} {r : c.Reply} (h : ¬c.Touches k) :
    drawn k (i, ⟨c, r⟩) = none := by
  cases c with
  | store o =>
    cases o with
    | incr k' n => exact if_neg h
    | _ => rfl
  | _ => rfl

theorem not_writes {k : Key} {i : Nat} {c : Cmd} {r : c.Reply} (h : ¬c.Touches k) :
    ¬Writes (i, ⟨c, r⟩) k := by
  intro writes
  cases c with
  | store o =>
    cases o with
    | set τ k' v => exact h (Option.some.inj writes)
    | _ => cases writes
  | _ => cases writes

theorem linked_err_tair (tair : E.type = .tair) {pid : Nat} {c : Cmd} {v v' : Linked} {r : c.Reply}
    (h : linked E pid c v r v') : v'.err = v.err := by
  apply linked_err _ h
  cases c with
  | store o => simp [Cmd.Severs, tair]
  | _ => exact not_false

/-- Any operation but a draw, as long as it writes only entries whose id the
thread has drawn. -/
theorem LogInv.step {i : Nat} {s : Sighting} {c : Cmd} {w v : Recorded} {r : c.Reply}
    (h : LogInv E mall_id slice w) (x : (logSystem E cfg).exec i s c w r v)
    (nodraw : ¬c.Touches (.logCounter mall_id slice))
    (owned : ∀ log_id prop, c.Touches (.logEntry mall_id slice log_id prop) →
      ∃ e ∈ w.2, ∃ r, e.1 = i ∧ Draws e (.logCounter mall_id slice) r ∧ r.toInt = log_id) :
    LogInv E mall_id slice v := by
  have same : draws (.logCounter mall_id slice) v.2 = draws (.logCounter mall_id slice) w.2 := by
    simp [draws, x.2, drawn_eq_none nodraw]
  refine ⟨?_, ?_, ?_, ?_⟩
  · rw [same, linked_frame x.1 nodraw]
    exact h.counted
  · rw [same]
    exact h.distinct
  · intro tair
    rw [same, linked_err_tair tair x.1]
    exact h.tair tair
  · intro log_id prop e he writes
    rw [x.2, List.mem_append, List.mem_singleton] at he
    have older : ∀ e' ∈ w.2, e' ∈ v.2 := fun e' h' => by rw [x.2]; exact List.mem_append_left _ h'
    rcases he with he | rfl
    · obtain ⟨e', he', r', rest⟩ := h.backed log_id prop e he writes
      exact ⟨e', older e' he', r', rest⟩
    · have touches : c.Touches (.logEntry mall_id slice log_id prop) := by
        by_contra no
        exact not_writes no writes
      obtain ⟨e', he', r', mine, rest⟩ := owned log_id prop touches
      exact ⟨e', older e' he', r', mine, rest⟩

/-! ## What a draw returns -/

variable {w : Recorded}

/-- There are no more distinct ids than integers of 32 bits. -/
theorem length_le_of_nodup {ids : List Int32} (distinct : ids.Nodup) : ids.length ≤ 2 ^ 32 := by
  have injective : Function.Injective fun r : Int32 => r.toBitVec.toFin := by
    intro a b e
    exact Int32.toBitVec_inj.mp (BitVec.toFin_inj.mp e)
  have short := (distinct.map injective).length_le_card
  rwa [List.length_map, Fintype.card_fin] at short

theorem LogInv.counterAt (h : LogInv E mall_id slice w) (redis : E.type = .redis) {n : Nat}
    (le : n ≤ (draws (.logCounter mall_id slice) w.2).length)
    (counted : CBaseMdb.Counted E.type (w.1.world.db (Key.logCounter mall_id slice).text) n) :
    SimpleDsp.counterAt (w.1.world.db (Key.logCounter mall_id slice).text) = some (n : Int) := by
  have few := length_le_of_nodup h.distinct
  rw [counted, redis, Nat.min_eq_left (by simp only [CBaseMdb.counterMax]; omega)]

theorem draws_next {k : Key} {record : List Entry} {i : Nat} {r : Int32} :
    draws k (record ++ [(i, ⟨.store (.incr k 1), r⟩)]) = draws k record ++ [r] := by
  simp [draws, drawn]

theorem nodup_next {ids : List Int32} {r : Int32} (distinct : ids.Nodup) :
    (ids ++ [r]).Nodup ↔ r ∉ ids := by
  simp only [List.nodup_append, distinct, List.nodup_singleton, true_and, List.mem_singleton,
    forall_eq]
  exact ⟨fun h hr => h r hr rfl, fun h a ha e => h (e ▸ ha)⟩

/-- A draw over a sound connection counts up; one over a connection in error does nothing. -/
theorem LogInv.outcome (answered : ¬E.lossy) (h : LogInv E mall_id slice w) {pid : Nat} {r : Int32}
    {v : Linked} (x : linked E pid (.store (.incr (.logCounter mall_id slice) 1)) w.1 r v) :
    (w.1.err pid = true ∧ r = 0 ∧ v = w.1) ∨ w.1.err pid = false ∧ ∃ freed n, E.freed freed ∧
      n ≤ (draws (.logCounter mall_id slice) w.2).length ∧
      CBaseMdb.Counted E.type (w.1.world.db (Key.logCounter mall_id slice).text) n ∧
      r = CBaseMdb.nthIncr E.type (E.m.finding freed) n ∧
      CBaseMdb.Counted E.type (v.world.db (Key.logCounter mall_id slice).text) (n + 1) := by
  cases dead : w.1.err pid with
  | true =>
    obtain ⟨hr, hv⟩ := (linked_dead dead).mp x
    exact Or.inl ⟨rfl, hr, hv⟩
  | false =>
    obtain ⟨⟨served, -⟩, -⟩ := (linked_sound dead).mp x
    obtain ⟨freed, found, hr, hdb⟩ := (E.serves_iff answered).mp served
    obtain ⟨n, le, counted⟩ := h.counted
    refine Or.inr ⟨rfl, freed, n, found, le, counted, ?_, ?_⟩
    · rw [hr]
      exact (CBaseMdb.incr_counted counted).1
    · rw [hdb]
      exact (CBaseMdb.incr_counted counted).2

/-- On Tair there is at most one id, and the next draw returns it too. -/
theorem LogInv.tair_next (h : LogInv E mall_id slice w) (tair : E.type = .tair) {m : Machine} {n : Nat}
    (le : n ≤ (draws (.logCounter mall_id slice) w.2).length) :
    CBaseMdb.nthIncr E.type m n = 1 := by
  have one : (draws (.logCounter mall_id slice) w.2).length ≤ 1 := by
    have same := List.eq_replicate_of_mem (h.tair tair).2
    have distinct := h.distinct
    rw [same, List.nodup_replicate] at distinct
    exact distinct
  rw [tair, CBaseMdb.nthIncr, if_pos (by omega)]

theorem NewId.not_drawn (answered : ¬E.lossy) (h : LogInv E mall_id slice w) {pid : Nat}
    (new : NewId E mall_id slice pid w) {r : Int32} {v : Linked}
    (x : linked E pid (.store (.incr (.logCounter mall_id slice) 1)) w.1 r v) :
    r ∉ draws (.logCounter mall_id slice) w.2 := by
  rcases new with first | new
  · rw [first]
    exact List.not_mem_nil
  · rcases h.outcome answered x with ⟨dead, rfl, -⟩ | ⟨sound, freed, n, found, le, counted, rfl, -⟩
    · rwa [if_pos dead] at new
    · rw [if_neg (by simp [sound])] at new
      have room := length_le_of_nodup h.distinct
      rw [new.1, CBaseMdb.nthIncr, if_pos (by omega)]
      exact new.2 n (h.counterAt new.1 le counted) freed found

/-- A draw is sure to be new exactly if nothing it may return has been drawn. -/
theorem newId_iff (answered : ¬E.lossy) (memory : ∃ freed, E.freed freed)
    (h : LogInv E mall_id slice w) {pid : Nat} : NewId E mall_id slice pid w ↔
      ∀ r v, linked E pid (.store (.incr (.logCounter mall_id slice) 1)) w.1 r v →
        r ∉ draws (.logCounter mall_id slice) w.2 := by
  constructor
  · exact fun new r v x => new.not_drawn answered h x
  · intro all
    rw [NewId, or_iff_not_imp_left]
    intro drawn
    cases dead : w.1.err pid with
    | true =>
      rw [if_pos rfl]
      exact all 0 w.1 ((linked_dead dead).mpr ⟨rfl, rfl⟩)
    | false =>
      rw [if_neg Bool.false_ne_true]
      obtain ⟨n, le, counted⟩ := h.counted
      have returned (freed : Int → Int32) (found : E.freed freed) :
          CBaseMdb.nthIncr E.type (E.m.finding freed) n ∉ draws (.logCounter mall_id slice) w.2 := by
        let answer := (StoreOp.incr (.logCounter mall_id slice) 1).run E.type (E.m.finding freed)
          w.1.world.db
        have next : answer.1 = _ := (CBaseMdb.incr_counted counted).1
        rw [← next]
        apply all answer.1
          ⟨{ w.1.world with db := answer.2 }, w.1.after E pid (.store (.incr (.logCounter mall_id slice) 1))⟩
        exact (linked_sound dead).mpr ⟨⟨Or.inl ⟨freed, found, rfl⟩, rfl⟩, rfl⟩
      have redis : E.type = .redis := by
        cases backend : E.type with
        | redis => rfl
        | tair =>
          obtain ⟨freed, found⟩ := memory
          obtain ⟨r, hr⟩ := List.exists_mem_of_ne_nil _ drawn
          have again := returned freed found
          rw [h.tair_next backend le, ← (h.tair backend).2 r hr] at again
          exact absurd hr again
      refine ⟨redis, fun v hv freed found => ?_⟩
      have room := length_le_of_nodup h.distinct
      have number := h.counterAt redis le counted
      obtain rfl := Option.some.inj (number.symm.trans hv)
      have next := returned freed found
      rwa [redis, CBaseMdb.nthIncr, if_pos (by omega)] at next

/-- A draw that is new, from this counter or another one. -/
theorem LogInv.draw (answered : ¬E.lossy) {i : Nat} {s : Sighting} {mall_id' : Int} {slice' : Stamp}
    {v : Recorded} {r : Int32} (h : LogInv E mall_id slice w)
    (x : (drawSystem E mall_id slice cfg).exec i s (.store (.incr (.logCounter mall_id' slice') 1)) w r
      v) : LogInv E mall_id slice v := by
  by_cases same : Key.logCounter mall_id' slice' = Key.logCounter mall_id slice
  · cases same
    obtain ⟨⟨drawing, record⟩, guard⟩ := x
    have new := guard rfl
    have one_more : draws (.logCounter mall_id slice) v.2 =
        draws (.logCounter mall_id slice) w.2 ++ [r] := by rw [record, draws_next]
    refine ⟨?_, ?_, ?_, ?_⟩
    · rw [one_more, List.length_append, List.length_singleton]
      rcases h.outcome answered drawing with ⟨-, -, same⟩ | ⟨-, freed, n, -, le, -, -, counted⟩
      · rw [same]
        obtain ⟨n, le, counted⟩ := h.counted
        exact ⟨n, by omega, counted⟩
      · exact ⟨n + 1, by omega, counted⟩
    · rw [one_more, nodup_next h.distinct]
      exact new.not_drawn answered h drawing
    · intro tair
      obtain ⟨sound, ones⟩ := h.tair tair
      rw [linked_err_tair tair drawing, one_more]
      refine ⟨sound, fun a ha => ?_⟩
      rcases List.mem_append.mp ha with ha | ha
      · exact ones a ha
      · rw [List.mem_singleton.mp ha]
        rcases h.outcome answered drawing with ⟨dead, -, -⟩ | ⟨-, freed, n, -, le, -, rfl, -⟩
        · rw [sound] at dead
          cases dead
        · exact h.tair_next tair le
    · intro log_id prop e he writes
      rw [record, List.mem_append, List.mem_singleton] at he
      rcases he with he | rfl
      · obtain ⟨e', he', r', rest⟩ := h.backed log_id prop e he writes
        exact ⟨e', by rw [record]; exact List.mem_append_left _ he', r', rest⟩
      · cases writes
  · refine h.step x.1 same ?_
    intro log_id prop touches
    cases touches

/-! ## One thread -/

/-- The records that have nothing to do with the log ids. -/
def NotLog (k : Key) : Prop :=
  (∀ m s, k ≠ .logCounter m s) ∧ ∀ m s log_id prop, k ≠ .logEntry m s log_id prop

/-- The records a sighting with the id `log_id` may touch. -/
def Owned (mall_id : Int) (slice : Stamp) (log_id : Int) (k : Key) : Prop :=
  (∀ m s, k ≠ .logCounter m s) ∧
    ∀ m s id prop, k = .logEntry m s id prop → m = mall_id ∧ s = slice ∧ id = log_id

section
variable {i : Nat} {s : Sighting}

abbrev SafeLog (E : Env) (cfg : Config) (mall_id : Int) (slice : Stamp) (i : Nat) (s : Sighting)
    {α : Type} (p : UserM α) (w : Recorded) : Prop :=
  Safe ((drawSystem E mall_id slice cfg).exec i s) TraceGrows (LogInv E mall_id slice) p (fun _ _ => True) w

theorem safe_notLog {α : Type} {p : UserM α} (h : p.Every (Within NotLog)) (w : Recorded) :
    SafeLog E cfg mall_id slice i s p w := by
  refine Safe.of_every (P := fun _ => True) (fun _ _ _ _ => trivial)
    (fun c u r v x => System.traced_grows x.1) ?_ h trivial
  intro c u r v within _ hI x
  refine hI.step x.1 (fun touches => (within.records _ touches).1 _ _ rfl) ?_
  intro log_id prop touches
  exact absurd rfl ((within.records _ touches).2 _ _ _ _)

theorem safe_owned {α : Type} {p : UserM α} {mall_id' : Int} {slice' : Stamp} {log_id : Int32}
    (h : p.Every (Within (Owned mall_id' slice' log_id.toInt))) {w : Recorded}
    (known : ∃ e ∈ w.2, e.1 = i ∧ Draws e (.logCounter mall_id' slice') log_id) :
    SafeLog E cfg mall_id slice i s p w := by
  refine Safe.of_every
    (P := fun w => ∃ e ∈ w.2, e.1 = i ∧ Draws e (.logCounter mall_id' slice') log_id)
    ?_ (fun c u r v x => System.traced_grows x.1) ?_ h known
  · rintro a b ⟨e, he, rest⟩ grows
    exact ⟨e, grows.mem he, rest⟩
  · rintro c u r v within ⟨e, he, mine, draws⟩ hI x
    refine hI.step x.1 (fun touches => (within.records _ touches).1 _ _ rfl) ?_
    intro id prop touches
    obtain ⟨rfl, rfl, rfl⟩ := (within.records _ touches).2 _ _ _ _ rfl
    exact ⟨e, he, log_id, mine, draws, rfl⟩

theorem safe_userLocationLogAdd (answered : ¬E.lossy) (mac : UInt64) (x y : Rat)
    (z mall_id' : Int32) (t : Int64) (w : Recorded) :
    SafeLog E cfg mall_id slice i s (userLocationLogAdd cfg mac x y z mall_id' t) w := by
  intro u _ hI log_id v hx
  refine ⟨hI.draw answered hx, ?_⟩
  have mine : (i, ⟨.store (.incr (.logCounter mall_id'.toInt _) 1), log_id⟩) ∈ v.2 := by
    rw [hx.1.2]
    exact List.mem_append_right _ (List.mem_singleton_self _)
  refine safe_owned ?_ ⟨_, mine, rfl, rfl⟩
  apply every_saveSighting
  · exact ⟨by simp, by simp⟩
  · exact ⟨by simp, by simp⟩
  · exact ⟨by simp, by simp⟩
  · intro prop
    refine ⟨by simp, ?_⟩
    rintro m s id prop ⟨⟩
    exact ⟨rfl, rfl, rfl⟩

theorem safe_userAdd (answered : ¬E.lossy) (w : Recorded) :
    SafeLog E cfg mall_id slice i s (s.start cfg) w := by
  have other {α β : Type} {p : UserM α} {f : α → UserM β} {w : Recorded}
      (hp : p.Every (Within NotLog)) (hf : ∀ a w, SafeLog E cfg mall_id slice i s (f a) w) :
      SafeLog E cfg mall_id slice i s (p >>= f) w :=
    Safe.seq (safe_notLog hp w) (fun a v _ => hf a v) fun _ _ _ => trivial
  have location (prop : LocationProp) : NotLog (.location s.mall_id.toInt s.mac prop) :=
    ⟨by simp, by simp⟩
  refine other every_userMapInit fun _ w => ?_
  intro u _ hI t_now v hx
  refine ⟨hI.step hx.1 not_false fun _ _ touches => absurd touches not_false, ?_⟩
  change SafeLog E cfg mall_id slice i s (recordSighting cfg s.mac s.x s.y s.z s.mall_id t_now) v
  refine other (every_tairSetUserProp (location _)) fun _ w => ?_
  refine other (every_tairSetUserProp (location _)) fun _ w => ?_
  refine other (every_whenM fun _ => every_tairSetUserProp (location _)) fun _ w => ?_
  refine other (every_get (location _)) fun t_pre_time w => ?_
  refine other (every_tairSetUserProp (location _)) fun _ w => ?_
  refine other (every_zadd ⟨by simp, by simp⟩) fun _ w => ?_
  apply Safe.seq (safe_userLocationLogAdd answered _ _ _ _ _ _ w)
  · intro _ w _
    apply safe_notLog
    apply every_creditUser
    · exact ⟨by simp, by simp⟩
    · exact fun _ => ⟨by simp, by simp⟩
    · exact fun _ _ => ⟨by simp, by simp⟩
    · exact fun _ => ⟨by simp, by simp⟩
    · exact ⟨by simp, by simp⟩
    · exact fun _ => ⟨by simp, by simp⟩
  · exact fun _ _ _ => trivial

end

/-! ## All interleavings -/

theorem logSystem_keeps (answered : ¬E.lossy) :
    (drawSystem E mall_id slice cfg).Keeps TraceGrows (LogInv E mall_id slice) (fun _ _ _ _ => True) where
  refl := TraceGrows.refl
  trans := TraceGrows.trans
  exec_later _ _ _ _ _ _ h := System.traced_grows h.1
  drift_later _ _ h := absurd h.1 not_false
  drift_keeps _ _ _ h := absurd h.1 not_false
  stable _ _ _ _ _ _ _ := trivial
  started _ _ w _ := safe_userAdd answered w

theorem reachable_log (answered : ¬E.lossy) {w : World} (fresh : w.Fresh)
    {p : Pool Cmd Cmd.Reply Exn Int32 Sighting Recorded}
    (reach : (drawSystem E mall_id slice cfg).Reach (Linked.sound w, []) p) :
    LogInv E mall_id slice p.world :=
  ((logSystem_keeps answered).reach (LogInv.start fresh) reach).1

/-! ## When the ids are distinct -/

/-- A thread that wrote an entry has drawn its id. -/
theorem LogInv.drawer {w : Recorded} (h : LogInv E mall_id slice w) {e : Entry} (he : e ∈ w.2)
    {log_id : Int} {prop : LogProp} (writes : Writes e (.logEntry mall_id slice log_id prop)) :
    ∃ e' ∈ w.2, ∃ r, e'.1 = e.1 ∧ drawn (.logCounter mall_id slice) e' = some r ∧ r.toInt = log_id := by
  obtain ⟨e', he', r, mine, draws, hr⟩ := h.backed log_id prop e he writes
  refine ⟨e', he', r, mine, ?_, hr⟩
  obtain ⟨j, c, reply⟩ := e'
  cases draws
  simp [drawn]

/-- Two threads that drew one id have drawn it twice. -/
theorem same_drawer {k : Key} {record : List Entry} (h : (draws k record).Nodup) {e e' : Entry}
    {r : Int32} (he : e ∈ record) (he' : e' ∈ record) (hr : drawn k e = some r)
    (hr' : drawn k e' = some r) : e.1 = e'.1 := by
  induction record with
  | nil => simp at he
  | cons a record ih =>
    have tail : (draws k record).Nodup := by
      refine h.sublist ?_
      exact (List.sublist_cons_self a record).filterMap _
    have later (b : Entry) (hb : b ∈ record) (ha : drawn k a = some r) (hb' : drawn k b = some r) :
        False := by
      have e : draws k (a :: record) = r :: draws k record := by simp [draws, ha]
      rw [e] at h
      exact (List.nodup_cons.mp h).1 (List.mem_filterMap.mpr ⟨b, hb, hb'⟩)
    cases List.mem_cons.mp he with
    | inl here =>
      cases List.mem_cons.mp he' with
      | inl here' => rw [here, here']
      | inr there' => exact (later e' there' (here ▸ hr) hr').elim
    | inr there =>
      cases List.mem_cons.mp he' with
      | inl here' => exact (later e there (here' ▸ hr') hr).elim
      | inr there' => exact ih tail there there'

/-- In every interleaving of `user_add` calls in which each draw from a mall and time slice
is new, the ids drawn for it are distinct and their entries are never overwritten. There a
draw leaves them distinct, whatever it returns, exactly if it is new. -/
theorem log_entries_kept_iff (answered : ¬E.lossy) (memory : ∃ freed, E.freed freed) {w : World}
    (fresh : w.Fresh) {mall_id : Int} {slice : Stamp}
    {p : Pool Cmd Cmd.Reply Exn Int32 Sighting Recorded}
    (reach : (drawSystem E mall_id slice cfg).Reach (Linked.sound w, []) p) :
    EntriesKept mall_id slice p.world.2 ∧ ∀ i s, NewId E mall_id slice s.pid p.world ↔
      ∀ r v, (logSystem E cfg).exec i s (.store (.incr (.logCounter mall_id slice) 1)) p.world r v →
        (draws (.logCounter mall_id slice) v.2).Nodup := by
  have hI := reachable_log answered fresh reach
  refine ⟨⟨hI.distinct, ?_⟩, fun i s => ?_⟩
  · intro log_id prop e he e' he' writes writes'
    obtain ⟨d, hd, r, mine, draw, hr⟩ := hI.drawer he writes
    obtain ⟨d', hd', r', mine', draw', hr'⟩ := hI.drawer he' writes'
    have same : r = r' := Int32.toInt_inj.mp (hr.trans hr'.symm)
    rw [← mine, ← mine']
    exact same_drawer hI.distinct hd hd' draw (same ▸ draw')
  · rw [newId_iff answered memory hI]
    constructor
    · intro new r v x
      rw [x.2, draws_next, nodup_next hI.distinct]
      exact new r v.1 x.1
    · intro distinct r v x
      have next := distinct r (v, _) ⟨x, rfl⟩
      rwa [draws_next, nodup_next hI.distinct] at next


/-! ## Two sightings in one slice -/

def secondMinute : World := World.fresh (fun _ => none) [60, 61]

/-- The slice of mall 2 that begins with the minute. -/
abbrev secondSlice : Stamp := getDateTimeStr utcFirstDay 60 10

abbrev secondCounter : Key := .logCounter 2 secondSlice

/-- The MACs 5 and 6 are seen, one call after the other. -/
def twoSightings (answers : Nat → (c : Cmd) → Recorded → Option (c.Reply × Recorded)) :
    Option Recorded :=
  (((sightingOf 5).start firstDay).eval (answers 0) (Linked.sound secondMinute, [])).bind fun r =>
    (((sightingOf 6).start firstDay).eval (answers 1) r.2).map fun r => r.2

theorem twoSightings_reach {S : System Cmd Cmd.Reply Exn Int32 Sighting Recorded}
    (start : S.start = Sighting.start firstDay)
    {answers : Nat → (c : Cmd) → Recorded → Option (c.Reply × Recorded)}
    (allowed : ∀ i s, s.pid = 0 → ∀ c w r, answers i c w = some r → S.exec i s c w r.1 r.2)
    {w : Recorded} (h : twoSightings answers = some w) :
    ∃ p, S.Reach (Linked.sound secondMinute, []) p ∧ p.world = w := by
  obtain ⟨⟨x, w1⟩, h1, rest⟩ := Option.bind_eq_some_iff.mp h
  obtain ⟨⟨y, w2⟩, h2, rfl⟩ := Option.map_eq_some_iff.mp rest
  rw [← start] at h1 h2
  have r1 := (System.Reach.start (S := S) (w := (Linked.sound secondMinute, []))).spawn (sightingOf 5)
  have r2 := (r1.alone (i := 0) rfl (Prog.runs_eval _ (allowed 0 _ rfl) h1)).spawn (sightingOf 6)
  exact ⟨_, r2.alone (i := 1) rfl (Prog.runs_eval _ (allowed 1 _ rfl) h2), rfl⟩

def logAnswer (E : Env) (i : Nat) : (c : Cmd) → Recorded → Option (c.Reply × Recorded) :=
  tracedAnswer (linkedAnswer E (answer E (fun _ _ => some (decimal 7)) (fun _ _ => []) 0) 0) i

theorem exec_logAnswer {E : Env} (own : E.freed E.m.freed) (pg : E.pg = Pg.any) (i : Nat) (s : Sighting)
    (hs : s.pid = 0) (c : Cmd) (w : Recorded) (r : c.Reply × Recorded) (h : logAnswer E i c w = some r) :
    (logSystem E firstDay).exec i s c w r.1 r.2 := by
  have world (c : Cmd) (w : World) (r : c.Reply × World)
      (e : answer E (fun _ _ => some (decimal 7)) (fun _ _ => []) 0 c w = some r) :
      exec E 0 c w r.1 r.2 :=
    exec_answer own (by rw [pg]; exact fun _ _ _ _ => trivial) (by rw [pg]; exact fun _ _ => trivial)
      c w r e
  have answers := linked_answer world
  refine traced_answer (S := ⟨Sighting.start firstDay, fun _ s => linked E s.pid, fun _ _ => False⟩)
    (i := i) (l := s) ?_ c w r h
  intro c w r e
  change linked E s.pid c w r.1 r.2
  rw [hs]
  exact answers c w r e

/-- The counter's next number has not been drawn. -/
def nextIsNew (w : Recorded) : Bool :=
  !w.1.err 0 && (counterAt (w.1.world.db secondCounter.text)).all fun n =>
    decide (Int32.ofInt (n + 1) ∉ draws secondCounter w.2)

/-- Redis, on a machine that keeps freed numbers, as long as the draws are new. -/
def newAnswer (i : Nat) (c : Cmd) (w : Recorded) : Option (c.Reply × Recorded) :=
  (logAnswer (plainEnv .redis) i c w).filter fun r =>
    drawn secondCounter (i, ⟨c, r.1⟩) = none ∨ nextIsNew w = true

theorem exec_newAnswer (i : Nat) (s : Sighting) (hs : s.pid = 0) (c : Cmd) (w : Recorded)
    (r : c.Reply × Recorded) (h : newAnswer i c w = some r) :
    (drawSystem (plainEnv .redis) 2 secondSlice firstDay).exec i s c w r.1 r.2 := by
  obtain ⟨answered, new⟩ := Option.filter_eq_some_iff.mp h
  refine ⟨exec_logAnswer rfl rfl i s hs c w r answered, fun drawing => Or.inr ?_⟩
  have next : nextIsNew w = true := by
    rcases of_decide_eq_true new with none | next
    · cases c with
      | store o =>
        cases o with
        | incr k n =>
          obtain rfl : k = _ := drawing
          simp [drawn] at none
        | _ => cases drawing
      | _ => cases drawing
    · exact next
  simp only [nextIsNew, Bool.and_eq_true, Bool.not_eq_true'] at next
  obtain ⟨sound, number⟩ := next
  rw [hs, if_neg (by simp [sound])]
  refine ⟨rfl, ?_⟩
  rintro n hn freed rfl
  rw [hn] at number
  exact of_decide_eq_true number

/-- On Redis the two sightings draw 1 and 2 and keep their entries, and a third one would
draw a new id. -/
theorem log_entries_kept_iff_redis :
    ∃ p, (drawSystem (plainEnv .redis) 2 secondSlice firstDay).Reach (Linked.sound secondMinute, []) p ∧
      draws secondCounter p.world.2 = [1, 2] ∧ EntriesKept 2 secondSlice p.world.2 ∧
      ∀ r v, (logSystem (plainEnv .redis) firstDay).exec 2 (sightingOf 7)
        (.store (.incr secondCounter 1)) p.world r v → (draws secondCounter v.2).Nodup := by
  have ids : (twoSightings newAnswer).map (fun w => (draws secondCounter w.2,
      counterAt (w.1.world.db secondCounter.text), w.1.err 0)) = some ([1, 2], some 2, false) := by
    decide +kernel
  obtain ⟨w, run, ends⟩ := Option.map_eq_some_iff.mp ids
  simp only [Prod.mk.injEq] at ends
  obtain ⟨hw, number, sound⟩ := ends
  obtain ⟨p, reach, rfl⟩ := twoSightings_reach rfl exec_newAnswer run
  obtain ⟨kept, new⟩ := log_entries_kept_iff (E := plainEnv .redis) not_false ⟨_, rfl⟩
    (World.fresh_is_fresh _ _) reach
  refine ⟨p, reach, hw, kept, (new 2 (sightingOf 7)).mp (Or.inr ?_)⟩
  rw [show (sightingOf 7).pid = 0 from rfl, if_neg (by simp [sound]), hw]
  refine ⟨rfl, ?_⟩
  rintro n hn freed rfl
  obtain rfl := Option.some.inj (number.symm.trans hn)
  decide

/-- On Tair both draw 1, and the second sighting writes over the entry of the
first. -/
theorem log_entry_overwritten_on_tair :
    ∃ p, (logSystem (plainEnv .tair) firstDay).Reach (Linked.sound secondMinute, []) p ∧
      draws secondCounter p.world.2 = [1, 1] ∧
      writers (.logEntry 2 secondSlice 1 .mac) p.world.2 = [0, 1] ∧
      ¬EntriesKept 2 secondSlice p.world.2 := by
  have ids : (twoSightings (logAnswer (plainEnv .tair))).map (fun w =>
      (draws secondCounter w.2, writers (.logEntry 2 secondSlice 1 .mac) w.2)) =
      some ([1, 1], [0, 1]) := by decide +kernel
  obtain ⟨w, run, both⟩ := Option.map_eq_some_iff.mp ids
  obtain ⟨hw, hwriters⟩ := Prod.mk.inj both
  obtain ⟨p, reach, rfl⟩ := twoSightings_reach rfl (exec_logAnswer rfl rfl) run
  refine ⟨p, reach, hw, hwriters, fun kept => ?_⟩
  have distinct := kept.distinct
  rw [hw] at distinct
  exact absurd distinct (by decide)

/-- So it is on Redis, where both read a seven in place of the number. -/
theorem log_entry_overwritten_after_free :
    ∃ p, (logSystem ((plainEnv .redis).finding fun _ => 7) firstDay).Reach
        (Linked.sound secondMinute, []) p ∧
      draws secondCounter p.world.2 = [7, 7] ∧
      writers (.logEntry 2 secondSlice 7 .mac) p.world.2 = [0, 1] := by
  have ids : (twoSightings (logAnswer ((plainEnv .redis).finding fun _ => 7))).map (fun w =>
      (draws secondCounter w.2, writers (.logEntry 2 secondSlice 7 .mac) w.2)) =
      some ([7, 7], [0, 1]) := by decide +kernel
  obtain ⟨w, run, both⟩ := Option.map_eq_some_iff.mp ids
  obtain ⟨hw, hwriters⟩ := Prod.mk.inj both
  obtain ⟨p, reach, rfl⟩ := twoSightings_reach rfl (exec_logAnswer rfl rfl) run
  exact ⟨p, reach, hw, hwriters⟩

end UserMap

end SimpleDsp
