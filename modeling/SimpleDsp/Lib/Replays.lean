import Mathlib.Data.Set.Insert
import Mathlib.Logic.Function.Basic
import Mathlib.Logic.Relation

/-!
# Replays

A consumer reads a log from the beginning whenever it starts, and may be stopped at any
moment. In a view of the world each message that has been handled is an action.

* `Views.steps`: the view is what the sessions, one after the other, have played;
* `Repeats.caught_up`: a session that has passed the earlier ones might have been the only
  one, if a log played twice is a log played once;
* `Settles.replay_eq`: where one old message again does nothing, no session that is behind
  is noticed;
* `LastWrite.replay_eq`, `Collect.settles`: the last write wins; values are collected.
-/

namespace Replays

structure State (M W : Type) where
  log : List M
  /-- How many messages the running session has handled. -/
  position : Option Nat
  /-- The same of the sessions that have ended, the last one first. -/
  stops : List Nat
  world : W

structure Consumer (M W : Type) where
  starts : W → W → Prop
  handles : M → W → W → Prop
  /-- The session ends before the message has taken effect. -/
  cuts : M → W → W → Prop
  /-- What others do. -/
  drift : W → W → Prop

variable {M W A : Type}

inductive Consumer.Step (c : Consumer M W) : State M W → State M W → Prop
  | publish (s : State M W) (m : M) : Step c s { s with log := s.log ++ [m] }
  | start {s : State M W} {w : W} (down : s.position = none) (started : c.starts s.world w) :
      Step c s { s with position := some 0, world := w }
  | handle {s : State M W} {i : Nat} {m : M} {w : W} (running : s.position = some i)
      (next : s.log[i]? = some m) (handled : c.handles m s.world w) :
      Step c s { s with position := some (i + 1), world := w }
  | stop {s : State M W} {i : Nat} (running : s.position = some i) :
      Step c s { s with position := none, stops := i :: s.stops }
  | cut {s : State M W} {i : Nat} {m : M} {w : W} (running : s.position = some i)
      (next : s.log[i]? = some m) (half : c.cuts m s.world w) :
      Step c s { s with position := none, stops := i :: s.stops, world := w }
  | drift {s : State M W} {w : W} (moved : c.drift s.world w) : Step c s { s with world := w }

abbrev Consumer.Steps (c : Consumer M W) : State M W → State M W → Prop :=
  Relation.ReflTransGen c.Step

/-- How far the sessions have come, the last one first. -/
def State.reads (s : State M W) : List Nat := s.position.toList ++ s.stops

/-- No session has begun. -/
structure State.Fresh (s : State M W) : Prop where
  down : s.position = none
  none_ended : s.stops = []

/-! ## Playing a log -/

section
variable (act : M → A → A)

def play (l : List M) (a : A) : A := l.foldl (fun a m => act m a) a

/-- The sessions of `ns` play the first messages of the log, the last session first in `ns`. -/
def replay (log : List M) (ns : List Nat) (a : A) : A :=
  ns.foldr (fun n a => play act (log.take n) a) a

theorem play_append (l l' : List M) (a : A) : play act (l ++ l') a = play act l' (play act l a) :=
  List.foldl_append

theorem replay_cons (log : List M) (n : Nat) (ns : List Nat) (a : A) :
    replay act log (n :: ns) a = play act (log.take n) (replay act log ns a) := rfl

/-- What has been played is not affected by what is published later. -/
theorem replay_publish {log : List M} {ns : List Nat} (inside : ∀ n ∈ ns, n ≤ log.length) (m : M)
    (a : A) : replay act (log ++ [m]) ns a = replay act log ns a := by
  induction ns with
  | nil => rfl
  | cons n ns ih =>
    rw [replay_cons, replay_cons, ih fun k hk => inside k (List.mem_cons_of_mem _ hk),
      List.take_append_of_le_length (inside n List.mem_cons_self)]

end

/-- The log, played twice, is the log played once. -/
def Repeats (act : M → A → A) : Prop := ∀ l a, play act l (play act l a) = play act l a

/-- A message that has been played before does nothing. -/
def Settles (act : M → A → A) : Prop := ∀ l a, ∀ m ∈ l, act m (play act l a) = play act l a

def furthest (ns : List Nat) : Nat := ns.foldr max 0

section
variable {act : M → A → A} {log : List M} {n : Nat} {ns : List Nat}

/-- A session that has passed the one before. -/
theorem Repeats.passes (h : Repeats act) {n' : Nat} (le : n' ≤ n) (a : A) :
    play act (log.take n) (play act (log.take n') a) = play act (log.take n) a := by
  obtain ⟨rest, split⟩ := List.take_prefix_take_left (l := log) le
  rw [← split, play_append, play_append, h]

theorem Repeats.caught_up (h : Repeats act) (ahead : ∀ k ∈ ns, k ≤ n) (a : A) :
    replay act log (n :: ns) a = play act (log.take n) a := by
  induction ns with
  | nil => rfl
  | cons k ns ih =>
    have rest := ih fun j hj => ahead j (List.mem_cons_of_mem _ hj)
    rw [replay_cons] at rest
    rw [replay_cons, replay_cons, h.passes (ahead k List.mem_cons_self), rest]

theorem Settles.play_of_subset (h : Settles act) {l l' : List M} (old : l' ⊆ l) (a : A) :
    play act l' (play act l a) = play act l a := by
  induction l' with
  | nil => rfl
  | cons m l' ih =>
    obtain ⟨mem, rest⟩ := List.cons_subset.mp old
    rw [play, List.foldl_cons, h l a m mem]
    exact ih rest

theorem Settles.repeats (h : Settles act) : Repeats act :=
  fun l a => h.play_of_subset (List.Subset.refl l) a

theorem Settles.replay_eq (h : Settles act) (log : List M) (ns : List Nat) (a : A) :
    replay act log ns a = play act (log.take (furthest ns)) a := by
  induction ns with
  | nil => rfl
  | cons n ns ih =>
    rw [replay_cons, ih]
    change _ = play act (log.take (max n (furthest ns))) a
    rcases Nat.le_total n (furthest ns) with behind | ahead
    · rw [Nat.max_eq_right behind]
      exact h.play_of_subset (List.take_prefix_take_left behind).subset a
    · rw [Nat.max_eq_left ahead]
      exact h.repeats.passes ahead a

end

/-! ## Runs -/

/-- In the view a message that is handled acts, and nothing else does anything. -/
structure Views (c : Consumer M W) (I : W → Prop) (act : M → A → A) (view : W → A) : Prop where
  starts : ∀ w v, I w → c.starts w v → I v ∧ view v = view w
  handles : ∀ m w v, I w → c.handles m w v → I v ∧ view v = act m (view w)
  cuts : ∀ m w v, I w → c.cuts m w v → I v ∧ view v = view w
  drift : ∀ w v, I w → c.drift w v → I v ∧ view v = view w

/-- What holds after any number of steps. -/
structure Played (I : W → Prop) (act : M → A → A) (view : W → A) (a : A) (s : State M W) :
    Prop where
  inside : ∀ n ∈ s.reads, n ≤ s.log.length
  keeps : I s.world
  shows : view s.world = replay act s.log s.reads a

section
variable {c : Consumer M W} {I : W → Prop} {act : M → A → A} {view : W → A} {a : A}
  {s t : State M W}

theorem take_succ_of_next {i : Nat} {m : M} {log : List M} (next : log[i]? = some m) :
    log.take (i + 1) = log.take i ++ [m] := by
  rw [List.take_add_one, next, Option.toList_some]

theorem State.reads_running {i : Nat} (running : s.position = some i) : s.reads = i :: s.stops := by
  rw [State.reads, running]
  rfl

theorem Views.step (h : Views c I act view) (played : Played I act view a s) (step : c.Step s t) :
    Played I act view a t := by
  obtain ⟨inside, keeps, shows⟩ := played
  cases step with
  | publish m =>
    refine ⟨fun n hn => ?_, keeps, ?_⟩
    · have le := inside n hn
      simp only [List.length_append, List.length_singleton]
      omega
    · exact shows.trans (replay_publish act inside m a).symm
  | @start w down started =>
    obtain ⟨keeps', same⟩ := h.starts _ _ keeps started
    have reads : s.reads = s.stops := by
      rw [State.reads, down]
      rfl
    rw [reads] at inside shows
    refine ⟨?_, keeps', same.trans shows⟩
    intro n hn
    cases hn with
    | head => exact Nat.zero_le _
    | tail _ hn => exact inside n hn
  | @handle i m w running next handled =>
    obtain ⟨keeps', acts⟩ := h.handles _ _ _ keeps handled
    rw [State.reads_running running] at inside shows
    refine ⟨?_, keeps', ?_⟩
    · intro n hn
      cases hn with
      | head => exact (List.getElem?_eq_some_iff.mp next).1
      | tail _ hn => exact inside n (List.mem_cons_of_mem _ hn)
    · change view w = replay act s.log ((i + 1) :: s.stops) a
      rw [acts, shows, replay_cons, replay_cons, take_succ_of_next next, play_append]
      rfl
  | stop running =>
    rw [State.reads_running running] at inside shows
    exact ⟨inside, keeps, shows⟩
  | cut running next half =>
    obtain ⟨keeps', same⟩ := h.cuts _ _ _ keeps half
    rw [State.reads_running running] at inside shows
    exact ⟨inside, keeps', same.trans shows⟩
  | drift moved =>
    obtain ⟨keeps', same⟩ := h.drift _ _ keeps moved
    exact ⟨inside, keeps', same.trans shows⟩

theorem Views.steps (h : Views c I act view) (fresh : s.Fresh) (start : I s.world)
    (steps : c.Steps s t) : Played I act view (view s.world) t := by
  induction steps with
  | refl =>
    have none_read : s.reads = [] := by rw [State.reads, fresh.down, fresh.none_ended]; rfl
    refine ⟨?_, start, ?_⟩
    · simp [none_read]
    · rw [none_read]
      rfl
  | tail _ step ih => exact h.step ih step

end

/-! ## The last write -/

namespace LastWrite

variable {K V : Type} [DecidableEq K] (wrote : M → K × V)

def act (m : M) (f : K → Option V) : K → Option V :=
  Function.update f (wrote m).1 (some (wrote m).2)

def writeTo (k : K) (m : M) : Option V := if (wrote m).1 = k then some (wrote m).2 else none

/-- The value written to `k` last. -/
def newest (k : K) (l : List M) : Option V := (l.filterMap (writeTo wrote k)).getLast?

variable {wrote}

theorem act_apply (m : M) (f : K → Option V) (k : K) :
    act wrote m f k = (writeTo wrote k m).or (f k) := by
  by_cases same : k = (wrote m).1
  · subst same
    simp [act, writeTo]
  · simp [act, writeTo, same, Ne.symm same]

theorem newest_cons (k : K) (m : M) (l : List M) :
    newest wrote k (m :: l) = (newest wrote k l).or (writeTo wrote k m) := by
  unfold newest
  cases here : writeTo wrote k m with
  | none => simp [here]
  | some v =>
    rw [List.filterMap_cons_some here, List.getLast?_cons]
    cases (l.filterMap (writeTo wrote k)).getLast? <;> rfl

theorem play_apply (l : List M) (f : K → Option V) (k : K) :
    play (act wrote) l f k = (newest wrote k l).or (f k) := by
  induction l generalizing f with
  | nil => rfl
  | cons m l ih =>
    rw [newest_cons, Option.or_assoc, ← act_apply]
    exact ih (act wrote m f)

theorem repeats : Repeats (act wrote) := by
  intro l f
  funext k
  rw [play_apply, play_apply]
  cases newest wrote k l <;> rfl

/-- The sessions, the last one first: what one of them has not written yet is as the one
before has left it. -/
theorem replay_eq (log : List M) (ns : List Nat) (f : K → Option V) (k : K) :
    replay (act wrote) log ns f k =
      (ns.findSome? fun n => newest wrote k (log.take n)).or (f k) := by
  induction ns with
  | nil => rfl
  | cons n ns ih =>
    rw [replay_cons, play_apply, ih, List.findSome?_cons]
    cases newest wrote k (log.take n) <;> rfl

end LastWrite

/-! ## Collections -/

namespace Collect

variable {K V : Type} [DecidableEq K] (wrote : M → K × V)

def act (m : M) (f : K → Set V) : K → Set V :=
  Function.update f (wrote m).1 (insert (wrote m).2 (f (wrote m).1))

variable {wrote}

theorem mem_act {m : M} {f : K → Set V} {k : K} {v : V} :
    v ∈ act wrote m f k ↔ wrote m = (k, v) ∨ v ∈ f k := by
  by_cases same : k = (wrote m).1
  · subst same
    simp only [act, Function.update_self, Set.mem_insert_iff]
    exact or_congr ⟨fun e => by rw [e], fun e => by rw [e]⟩ Iff.rfl
  · have other : wrote m ≠ (k, v) := fun e => same (by rw [e])
    simp [act, same, other]

theorem mem_play {l : List M} {f : K → Set V} {k : K} {v : V} :
    v ∈ play (act wrote) l f k ↔ (∃ m ∈ l, wrote m = (k, v)) ∨ v ∈ f k := by
  induction l generalizing f with
  | nil => simp [play]
  | cons m l ih =>
    have rest := ih (f := act wrote m f)
    rw [mem_act] at rest
    simp only [List.mem_cons, exists_eq_or_imp]
    rw [or_comm (a := wrote m = _), or_assoc]
    exact rest

theorem settles : Settles (act wrote) := by
  intro l f m old
  funext k
  ext v
  rw [mem_act, mem_play]
  constructor
  · rintro (again | known)
    · exact Or.inl ⟨m, old, again⟩
    · exact known
  · exact Or.inr

end Collect

end Replays
