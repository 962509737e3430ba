import SimpleDsp.Lib.Interrupts
import SimpleDsp.Lib.Replays
import SimpleDsp.Lib.DecimalText

/-!
# The loop of the receivers

`main` of a receiver asks Kafka for messages, until `msg_consume` clears `run`. The tag
and the phone receiver start at `OFFSET_BEGINNING`, whatever earlier processes of theirs
have read; the restart script kills them wherever they are.

* `delivered`: the payloads that `msg_consume` comes to handle;
* `Serves`: a way to handle a payload that fits the steps of a consumer;
* `Serves.main`, `Serves.killed`: the loop, left alone or killed, takes such steps.
-/

namespace SimpleDsp

open DecimalText Programs Replays

namespace UserMap

/-- `message->err()`, as far as the codes are told apart. -/
inductive ErrorCode
  | timedOut | noError | partitionEof | other

structure Message where
  err : ErrorCode
  payload : Text

namespace Receiver

def exit_eof : Bool := false

section
variable {C : Type} {R : C → Type} {E : Type} (handle : Text → Prog C R E Unit)

/-- Returns what is left in `run`. -/
def msgConsume (message : Message) : Prog C R E Bool :=
  match message.err with
  | .timedOut => pure true
  | .noError => do
    handle message.payload
    pure true
  | .partitionEof => pure (!exit_eof)
  | .other => pure false

/-- The loop, for the messages that `consume` has returned so far. -/
def main : List Message → Prog C R E Unit
  | [] => pure ()
  | message :: later => do
    let run ← msgConsume handle message
    if run then main later else pure ()

end

def delivered : List Message → List Text
  | [] => []
  | message :: later =>
    match message.err with
    | .timedOut | .partitionEof => delivered later
    | .noError => message.payload :: delivered later
    | .other => []

end Receiver

open Receiver (delivered)

/-! ## The steps of the loop -/

section
variable {C : Type} {R : C → Type} {E W : Type} {P : Text → Prop}

/-- A payload is handled, or the process ends before the payload has had its effect. -/
structure Serves (X : (c : C) → W → R c → W → Prop) (c : Consumer { t : Text // P t } W)
    (handle : Text → Prog C R E Unit) : Prop where
  done : ∀ m w v, (handle m.1).Runs X w (.ok ()) v → c.handles m w v
  cut : ∀ m w v, (handle m.1).Visits X w v → c.cuts m w v ∨ c.handles m w v

/-- Kafka delivers what the log has from `i` on. -/
def Fed (log : List { t : Text // P t }) (i : Nat) (polls : List Message) : Prop :=
  delivered polls <+: (log.drop i).map Subtype.val

variable {X : (c : C) → W → R c → W → Prop} {c : Consumer { t : Text // P t } W}
  {handle : Text → Prog C R E Unit} {log : List { t : Text // P t }} {i : Nat} {stops : List Nat}
  {w v : W} {polls : List Message} {message : Message}

theorem Fed.next (fed : Fed log i (message :: polls)) (good : message.err = .noError) :
    ∃ m, log[i]? = some m ∧ m.1 = message.payload ∧ Fed log (i + 1) polls := by
  unfold Fed delivered at fed
  simp only [good] at fed
  obtain ⟨rest, split⟩ := fed
  have lt : i < log.length := by
    have length := congrArg List.length split
    simp only [List.cons_append, List.length_cons, List.length_map, List.length_drop] at length
    omega
  rw [List.drop_eq_getElem_cons lt, List.map_cons, List.cons_append, List.cons.injEq] at split
  exact ⟨log[i], List.getElem?_eq_getElem lt, split.1.symm, rest, split.2⟩

theorem Fed.skip (fed : Fed log i (message :: polls))
    (empty : message.err = .timedOut ∨ message.err = .partitionEof) : Fed log i polls := by
  unfold Fed delivered at fed
  rcases empty with timedOut | eof
  · simp only [timedOut] at fed
    exact fed
  · simp only [eof] at fed
    exact fed

theorem handle_step {m : { t : Text // P t }} (next : log[i]? = some m) (handled : c.handles m w v) :
    c.Step ⟨log, some i, stops, w⟩ ⟨log, some (i + 1), stops, v⟩ :=
  .handle rfl next handled

theorem stop_step : c.Step ⟨log, some i, stops, w⟩ ⟨log, none, i :: stops, w⟩ := .stop rfl

/-- The loop handles what is delivered, one payload after the other. -/
theorem Serves.main (h : Serves X c handle) (fed : Fed log i polls)
    (runs : (Receiver.main handle polls).Runs X w (.ok ()) v) :
    c.Steps ⟨log, some i, stops, w⟩ ⟨log, some (i + (delivered polls).length), stops, v⟩ := by
  induction polls generalizing i w with
  | nil =>
    obtain rfl := runs.2
    exact .refl
  | cons message polls ih =>
    unfold Receiver.main Receiver.msgConsume at runs
    unfold Receiver.delivered
    cases code : message.err with
    | timedOut =>
      simp only [code] at runs
      exact ih (fed.skip (Or.inl code)) runs
    | partitionEof =>
      simp only [code] at runs
      exact ih (fed.skip (Or.inr code)) runs
    | noError =>
      simp only [code, Prog.bind_assoc] at runs
      obtain ⟨m, next, same, fed'⟩ := fed.next code
      rcases Prog.runs_bind runs with ⟨_, u, handled, rest⟩ | ⟨_, failed, -⟩
      · rw [← same] at handled
        have steps := ih fed' rest
        rw [Nat.add_right_comm, Nat.add_assoc] at steps
        exact .head (handle_step next (h.done m w u handled)) steps
      · cases failed
    | other =>
      simp only [code] at runs
      obtain rfl := runs.2
      exact .refl

/-- Whatever the loop is at when its process is killed. -/
theorem Serves.killed (h : Serves X c handle) (fed : Fed log i polls)
    (visits : (Receiver.main handle polls).Visits X w v) :
    ∃ n, c.Steps ⟨log, some i, stops, w⟩ ⟨log, none, n :: stops, v⟩ := by
  induction polls generalizing i w with
  | nil =>
    obtain rfl := visits
    exact ⟨i, .single stop_step⟩
  | cons message polls ih =>
    unfold Receiver.main Receiver.msgConsume at visits
    cases code : message.err with
    | timedOut =>
      simp only [code] at visits
      exact ih (fed.skip (Or.inl code)) visits
    | partitionEof =>
      simp only [code] at visits
      exact ih (fed.skip (Or.inr code)) visits
    | noError =>
      simp only [code, Prog.bind_assoc] at visits
      obtain ⟨m, next, same, fed'⟩ := fed.next code
      rcases Prog.visits_bind visits with inside | ⟨_, u, handled, behind⟩
      · rw [← same] at inside
        rcases h.cut m w v inside with half | handled
        · exact ⟨i, .single (.cut rfl next half)⟩
        · exact ⟨i + 1, .head (handle_step next handled) (.single stop_step)⟩
      · rw [← same] at handled
        obtain ⟨n, steps⟩ := ih fed' behind
        exact ⟨n, .head (handle_step next (h.done m w u handled)) steps⟩
    | other =>
      simp only [code] at visits
      obtain rfl := visits
      exact ⟨i, .single stop_step⟩

end

end UserMap

end SimpleDsp
