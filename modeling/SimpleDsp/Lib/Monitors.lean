import SimpleDsp.Lib.Interleaving
import Mathlib.Algebra.BigOperators.Ring.Finset
import Mathlib.Algebra.Order.BigOperators.Group.Finset
import Mathlib.Logic.Function.Basic

/-!
# Monitored threads

A monitor follows the operations of one thread and their replies, and may forbid some.

* `Obeys`: a program that the monitor never stops, with one rule for each way to build it;
* `Watches.reach`: an invariant of the world and all monitors, kept by each operation that
  its own monitor permits, holds in every interleaving of threads that obey;
* `after`: the first operations of a program, the others to follow; `Pool.runs`: threads that
  take turns.
-/

namespace Programs

variable {C : Type} {R : C → Type} {E α β L W σ : Type}

/-- Where an operation and its reply may take the monitor. -/
abbrev Rules (C : Type) (R : C → Type) (σ : Type) := σ → (c : C) → R c → σ → Prop

section
variable (rules : Rules C R σ) (given : (c : C) → R c → Prop)

/-- Whatever the replies, as far as they are `given`, the monitor goes along from `s`, and
`Q` holds where the program ends. -/
def Obeys : Prog C R E α → σ → (Except E α → σ → Prop) → Prop
  | .ret a, s, Q => Q (.ok a) s
  | .throw e, s, Q => Q (.error e) s
  | .op c k, s, Q => ∀ r, given c r → ∃ s', rules s c r s' ∧ Obeys (k r) s' Q

end

section
variable {rules : Rules C R σ} {given : (c : C) → R c → Prop} {s : σ}

theorem Obeys.weaken {p : Prog C R E α} {P Q : Except E α → σ → Prop}
    (h : Obeys rules given p s P) (le : ∀ x s', P x s' → Q x s') : Obeys rules given p s Q := by
  induction p generalizing s with
  | ret | throw => exact le _ _ h
  | op c k ih =>
    intro r known
    obtain ⟨s', permitted, rest⟩ := h r known
    exact ⟨s', permitted, ih r rest⟩

theorem Obeys.bind {p : Prog C R E α} {f : α → Prog C R E β} {P : Except E α → σ → Prop}
    {Q : Except E β → σ → Prop} (hp : Obeys rules given p s P)
    (hok : ∀ a s', P (.ok a) s' → Obeys rules given (f a) s' Q)
    (herr : ∀ e s', P (.error e) s' → Q (.error e) s') :
    Obeys rules given (p >>= f) s Q := by
  induction p generalizing s with
  | ret a => exact hok a s hp
  | throw e => exact herr e s hp
  | op c k ih =>
    intro r known
    obtain ⟨s', permitted, rest⟩ := hp r known
    exact ⟨s', permitted, ih r rest⟩

/-- What holds of the value of a program that does not throw. -/
def Returns (P : α → σ → Prop) : Except E α → σ → Prop
  | .ok a, s => P a s
  | .error _, _ => False

theorem Obeys.next {p : Prog C R E α} {f : α → Prog C R E β} {P : α → σ → Prop}
    {Q : Except E β → σ → Prop} (hp : Obeys rules given p s (Returns P))
    (hok : ∀ a s', P a s' → Obeys rules given (f a) s' Q) : Obeys rules given (p >>= f) s Q :=
  hp.bind hok fun _ _ none => none.elim

/-- A loop; `Inv` tells of the rounds that are done. -/
theorem obeys_foldlM {γ : Type} {f : β → γ → Prog C R E β} (Inv : List γ → β → σ → Prop)
    {l : List γ} (round : ∀ before x after, l = before ++ x :: after → ∀ b s, Inv before b s →
      Obeys rules given (f b x) s (Returns fun b' => Inv (before ++ [x]) b'))
    {b : β} (start : Inv [] b s) : Obeys rules given (l.foldlM f b) s (Returns (Inv l)) := by
  suffices h : ∀ before after, l = before ++ after → ∀ b s, Inv before b s →
      Obeys rules given (after.foldlM f b) s (Returns (Inv l)) from h [] l rfl b s start
  intro before after
  induction after generalizing before with
  | nil =>
    intro split b s inv
    rw [List.append_nil] at split
    subst split
    exact inv
  | cons x after ih =>
    intro split b s inv
    exact (round before x after split b s inv).next fun b' s' inv' =>
      ih (before ++ [x]) (by rw [split, List.append_assoc]; rfl) b' s' inv'

/-- The monitor pays no attention. -/
theorem obeys_of_every {φ : C → Prop} {p : Prog C R E α} (h : p.Every φ) (calm : p.NoThrow)
    (ignored : ∀ c s r, φ c → rules s c r s) :
    Obeys rules given p s (Returns fun _ s' => s' = s) := by
  induction p with
  | ret a => rfl
  | throw e => exact calm
  | op c k ih => exact fun r _ => ⟨s, ignored c s r h.1, ih r (h.2 r) (calm r)⟩

end

/-! ## All threads -/

/-- What makes `J` an invariant of the world, the monitors of all threads and their number. -/
structure System.Watches (S : System C R E α L W) (rules : Rules C R σ) (s0 : σ)
    (given : (c : C) → R c → Prop) (Q : L → Except E α → σ → Prop)
    (J : W → (Nat → σ) → Nat → Prop) : Prop where
  obeys : ∀ l, Obeys rules given (S.start l) s0 (Q l)
  spawn : ∀ w st n, J w st n → st n = s0 → J w st (n + 1)
  known : ∀ w st n i l c r w', J w st n → S.exec i l c w r w' → given c r
  act : ∀ w st n i l c r w' s', J w st n → i < n → S.exec i l c w r w' → rules (st i) c r s' →
    J w' (Function.update st i s') n
  drift : ∀ w st n w', J w st n → S.drift w w' → J w' st n

/-- The monitors go along with the threads. -/
structure System.Watched (rules : Rules C R σ) (s0 : σ) (given : (c : C) → R c → Prop)
    (Q : L → Except E α → σ → Prop) (st : Nat → σ) (threads : List (L × Prog C R E α)) :
    Prop where
  obeys : ∀ (i : Nat) (l : L) (q : Prog C R E α), threads[i]? = some (l, q) →
    Obeys rules given q (st i) (Q l)
  unused : ∀ i, threads.length ≤ i → st i = s0

theorem System.Watches.reach {S : System C R E α L W} {rules : Rules C R σ} {s0 : σ}
    {given : (c : C) → R c → Prop} {Q : L → Except E α → σ → Prop}
    {J : W → (Nat → σ) → Nat → Prop} (h : S.Watches rules s0 given Q J) {w : W}
    (start : J w (fun _ => s0) 0) {p : Pool C R E α L W} (reach : S.Reach w p) :
    ∃ st, J p.world st p.threads.length ∧ System.Watched rules s0 given Q st p.threads := by
  induction reach with
  | start => exact ⟨_, start, fun i l q here => by simp at here, fun _ _ => rfl⟩
  | next _ step ih =>
    obtain ⟨st, inv, obeys, unused⟩ := ih
    cases step with
    | spawn v ts l =>
      refine ⟨st, ?_, ?_, ?_⟩
      · rw [List.length_append, List.length_singleton]
        exact h.spawn v st ts.length inv (unused _ (Nat.le_refl _))
      · intro i m q here
        by_cases before : i < ts.length
        · rw [List.getElem?_append_left before] at here
          exact obeys i m q here
        · have inside := (List.getElem?_eq_some_iff.mp here).1
          rw [List.length_append, List.length_singleton] at inside
          obtain rfl : i = ts.length := by omega
          rw [List.getElem?_concat_length] at here
          obtain ⟨rfl, rfl⟩ := Prod.mk.inj (Option.some.inj here)
          rw [unused _ (Nat.le_refl _)]
          exact h.obeys _
      · intro i beyond
        rw [List.length_append, List.length_singleton] at beyond
        exact unused i (Nat.le_of_succ_le beyond)
    | @act v v' ts i l c k r here done =>
      have lt : i < ts.length := (List.getElem?_eq_some_iff.mp here).1
      have known := h.known v st _ i l c r v' inv done
      obtain ⟨s', permitted, rest⟩ := obeys i l _ here r known
      refine ⟨Function.update st i s', ?_, ?_, ?_⟩
      · rw [List.length_set]
        exact h.act v st _ i l c r v' s' inv lt done permitted
      · intro j m q there
        by_cases same : i = j
        · subst same
          rw [List.getElem?_set_self lt] at there
          obtain ⟨rfl, rfl⟩ := Prod.mk.inj (Option.some.inj there)
          rw [Function.update_self]
          exact rest
        · rw [List.getElem?_set_ne same] at there
          rw [Function.update_of_ne (Ne.symm same)]
          exact obeys j m q there
      · intro j beyond
        rw [List.length_set] at beyond
        rw [Function.update_of_ne (by omega)]
        exact unused j beyond
    | @drift v v' ts moved => exact ⟨st, h.drift v st _ v' inv moved, obeys, unused⟩

/-- A sum over the threads by their numbers. -/
theorem sum_threads {T : Type} (f : T → Nat) (ts : List T) :
    (ts.map f).sum = ∑ i ∈ Finset.range ts.length, (ts[i]?.map f).getD 0 := by
  induction ts with
  | nil => rfl
  | cons t ts ih =>
    rw [List.map_cons, List.sum_cons, List.length_cons, Finset.sum_range_succ', ih, Nat.add_comm]
    rfl

/-! ## A part of a thread -/

namespace Prog

variable (answer : (c : C) → W → Option (R c × W))

/-- What is left of a program after `n` operations, answered by `answer`. -/
def after : Nat → Prog C R E α → W → Option (Prog C R E α × W)
  | n + 1, .op c k, w => (answer c w).bind fun r => (k r.1).after n r.2
  | _, p, w => some (p, w)

end Prog

/-- One thread may run for a while, as the others wait. -/
theorem System.Reach.after {S : System C R E α L W} {answer : (c : C) → W → Option (R c × W)}
    {w v : W} {ts : List (L × Prog C R E α)} {i n : Nat} {l : L} {q : Prog C R E α}
    {r : Prog C R E α × W} (right : ∀ c w r, answer c w = some r → S.exec i l c w r.1 r.2)
    (h : S.Reach w ⟨v, ts⟩) (here : ts[i]? = some (l, q)) (ran : q.after answer n v = some r) :
    S.Reach w ⟨r.2, ts.set i (l, r.1)⟩ := by
  have unmoved {q : Prog C R E α} {v : W} {ts : List (L × Prog C R E α)}
      (h : S.Reach w ⟨v, ts⟩) (here : ts[i]? = some (l, q)) : S.Reach w ⟨v, ts.set i (l, q)⟩ := by
    obtain ⟨lt, e⟩ := List.getElem?_eq_some_iff.mp here
    simpa [← e] using h
  induction n generalizing v ts q with
  | zero =>
    obtain rfl := Option.some.inj ran
    exact unmoved h here
  | succ n ih =>
    cases q with
    | ret | throw =>
      obtain rfl := Option.some.inj ran
      exact unmoved h here
    | op c k =>
      obtain ⟨s, given, rest⟩ := Option.bind_eq_some_iff.mp ran
      have lt : i < ts.length := (List.getElem?_eq_some_iff.mp here).1
      have ended := ih (h.next (.act here (right c v s given))) (List.getElem?_set_self lt) rest
      rwa [List.set_set] at ended

/-- Threads that run for some operations each, in the order of a list. -/
def Pool.runs (answer : (c : C) → W → Option (R c × W)) :
    List (Nat × Nat) → Pool C R E α L W → Option (Pool C R E α L W)
  | [], p => some p
  | (i, n) :: later, p =>
    p.threads[i]?.bind fun t => (t.2.after answer n p.world).bind fun r =>
      Pool.runs answer later ⟨r.2, p.threads.set i (t.1, r.1)⟩

theorem System.Reach.runs {S : System C R E α L W} {answer : (c : C) → W → Option (R c × W)}
    {w : W} {turns : List (Nat × Nat)} {p q : Pool C R E α L W}
    (right : ∀ i l c w r, answer c w = some r → S.exec i l c w r.1 r.2) (h : S.Reach w p)
    (ran : p.runs answer turns = some q) : S.Reach w q := by
  induction turns generalizing p with
  | nil =>
    obtain rfl := Option.some.inj ran
    exact h
  | cons turn later ih =>
    obtain ⟨⟨l, q⟩, here, rest⟩ := Option.bind_eq_some_iff.mp ran
    obtain ⟨r, stops, rest⟩ := Option.bind_eq_some_iff.mp rest
    exact ih (h.after (right turn.1 l) here stops) rest

end Programs
