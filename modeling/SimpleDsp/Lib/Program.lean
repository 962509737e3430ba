/-!
# Programs over atomic operations

A program is a tree of operations; an operation `c : C` is answered by some
reply in `R c`, and a program may throw. What an operation does to a world is
left to a relation, so that one program can be run alone or among others.

* `Runs`: a run of the program from one world to another;
* `wp`: what holds after every run, with one rule for each way to build a program;
* `Every`: a property of every operation the program can perform, and what
  follows from it for the runs (`wp_of_every`);
* `Relates`: a relation between the ends of every run;
* `NoThrow`: a program that cannot throw;
* `eval`: runs under a function that answers each operation, which `runs_eval`
  shows to be runs; `Ends`: that such a run comes to an end;
* `trace`: the operations of a run in which every operation is answered.
-/

namespace Programs

inductive Prog (C : Type) (R : C → Type) (E α : Type) where
  | ret (a : α)
  | throw (e : E)
  | op (c : C) (k : R c → Prog C R E α)

namespace Prog

variable {C : Type} {R : C → Type} {E : Type} {α β γ : Type}

def bind : Prog C R E α → (α → Prog C R E β) → Prog C R E β
  | .ret a, f => f a
  | .throw e, _ => .throw e
  | .op c k, f => .op c fun r => (k r).bind f

/-- The program of one operation. -/
def call (c : C) : Prog C R E (R c) := .op c .ret

instance : Monad (Prog C R E) where
  pure := .ret
  bind := bind

@[simp] theorem pure_eq (a : α) : (Pure.pure a : Prog C R E α) = .ret a := rfl

@[simp] theorem ret_bind (a : α) (f : α → Prog C R E β) : (Prog.ret a >>= f) = f a := rfl

@[simp] theorem throw_bind (e : E) (f : α → Prog C R E β) : (Prog.throw e >>= f) = .throw e := rfl

@[simp] theorem op_bind (c : C) (k : R c → Prog C R E α) (f : α → Prog C R E β) :
    (Prog.op c k >>= f) = .op c fun r => k r >>= f := rfl

@[simp] theorem call_bind (c : C) (f : R c → Prog C R E β) :
    ((call c : Prog C R E (R c)) >>= f) = .op c f := rfl

theorem bind_assoc (p : Prog C R E α) (f : α → Prog C R E β) (g : β → Prog C R E γ) :
    (p >>= f >>= g) = p >>= fun a => f a >>= g := by
  induction p with
  | ret a => rfl
  | throw e => rfl
  | op c k ih => simp only [op_bind, ih]

/-! ## Runs -/

section
variable {W : Type} (X : (c : C) → W → R c → W → Prop)

def Runs : Prog C R E α → W → Except E α → W → Prop
  | .ret a, w, x, w' => x = .ok a ∧ w' = w
  | .throw e, w, x, w' => x = .error e ∧ w' = w
  | .op c k, w, x, w' => ∃ r v, X c w r v ∧ (k r).Runs v x w'

/-- `Q` holds of the result and the world at the end of every run. -/
def wp : Prog C R E α → (Except E α → W → Prop) → W → Prop
  | .ret a, Q, w => Q (.ok a) w
  | .throw e, Q, w => Q (.error e) w
  | .op c k, Q, w => ∀ r v, X c w r v → (k r).wp Q v

theorem Runs.op {c : C} {k : R c → Prog C R E α} {w v w' : W} {r : R c} {x : Except E α}
    (h : X c w r v) (rest : (k r).Runs X v x w') : (Prog.op c k).Runs X w x w' :=
  ⟨r, v, h, rest⟩

theorem wp_iff_runs {p : Prog C R E α} {Q : Except E α → W → Prop} {w : W} :
    p.wp X Q w ↔ ∀ x w', p.Runs X w x w' → Q x w' := by
  induction p generalizing w with
  | ret a => simp [wp, Runs]
  | throw e => simp [wp, Runs]
  | op c k ih =>
    simp only [wp, Runs, ih]
    constructor
    · rintro h x w' ⟨r, v, hx, hr⟩; exact h r v hx x w' hr
    · intro h r v hx x w' hr; exact h x w' ⟨r, v, hx, hr⟩

theorem Runs.post {p : Prog C R E α} {Q : Except E α → W → Prop} {w w' : W} {x : Except E α}
    (h : p.Runs X w x w') (hp : p.wp X Q w) : Q x w' :=
  (wp_iff_runs X).mp hp x w' h

@[simp] theorem wp_ret (a : α) (Q : Except E α → W → Prop) (w : W) :
    (Prog.ret a : Prog C R E α).wp X Q w = Q (.ok a) w := rfl

@[simp] theorem wp_throw (e : E) (Q : Except E α → W → Prop) (w : W) :
    (Prog.throw e : Prog C R E α).wp X Q w = Q (.error e) w := rfl

@[simp] theorem wp_op (c : C) (k : R c → Prog C R E α) (Q : Except E α → W → Prop) (w : W) :
    (Prog.op c k).wp X Q w = ∀ r v, X c w r v → (k r).wp X Q v := rfl

/-- What must hold where the first part ends, for `Q` to hold after both. -/
def andThen (f : α → Prog C R E β) (Q : Except E β → W → Prop) : Except E α → W → Prop
  | .ok a, w => (f a).wp X Q w
  | .error e, w => Q (.error e) w

@[simp] theorem andThen_ok (f : α → Prog C R E β) (Q : Except E β → W → Prop) (a : α) (w : W) :
    andThen X f Q (.ok a) w = (f a).wp X Q w := rfl

@[simp] theorem andThen_error (f : α → Prog C R E β) (Q : Except E β → W → Prop) (e : E) (w : W) :
    andThen X f Q (.error e) w = Q (.error e) w := rfl

theorem wp_bind (p : Prog C R E α) (f : α → Prog C R E β) (Q : Except E β → W → Prop) (w : W) :
    (p >>= f).wp X Q w ↔ p.wp X (andThen X f Q) w := by
  induction p generalizing w with
  | ret a => rfl
  | throw e => rfl
  | op c k ih => simp only [op_bind, wp_op, ih]

theorem wp_mono {p : Prog C R E α} {P Q : Except E α → W → Prop} {w : W} (h : p.wp X P w)
    (hpq : ∀ x v, P x v → Q x v) : p.wp X Q w := by
  induction p generalizing w with
  | ret a => exact hpq _ _ h
  | throw e => exact hpq _ _ h
  | op c k ih => exact fun r v hx => ih r (h r v hx)

theorem wp_and {p : Prog C R E α} {P Q : Except E α → W → Prop} {w : W} (hp : p.wp X P w)
    (hq : p.wp X Q w) : p.wp X (fun x v => P x v ∧ Q x v) w := by
  induction p generalizing w with
  | ret a => exact ⟨hp, hq⟩
  | throw e => exact ⟨hp, hq⟩
  | op c k ih => exact fun r v hx => ih r (hp r v hx) (hq r v hx)

/-- Fewer replies, fewer runs. -/
theorem wp_weaken {X Y : (c : C) → W → R c → W → Prop} (le : ∀ c w r v, X c w r v → Y c w r v)
    {p : Prog C R E α} {Q : Except E α → W → Prop} {w : W} (h : p.wp Y Q w) : p.wp X Q w := by
  induction p generalizing w with
  | ret a => exact h
  | throw e => exact h
  | op c k ih => exact fun r v hx => ih r (h r v (le c w r v hx))

/-- The rule for a first part with a specification of its own. -/
theorem wp_seq {p : Prog C R E α} {f : α → Prog C R E β} {P : Except E α → W → Prop}
    {Q : Except E β → W → Prop} {w : W} (hp : p.wp X P w)
    (hok : ∀ a v, P (.ok a) v → (f a).wp X Q v)
    (herr : ∀ e v, P (.error e) v → Q (.error e) v) : (p >>= f).wp X Q w := by
  rw [wp_bind]
  apply wp_mono X hp
  rintro (e | a) v h
  · exact herr e v h
  · exact hok a v h

end

/-! ## Properties of every operation -/

/-- `φ` holds of every operation the program can perform, whatever the replies. -/
def Every (φ : C → Prop) : Prog C R E α → Prop
  | .ret _ => True
  | .throw _ => True
  | .op c k => φ c ∧ ∀ r, (k r).Every φ

@[simp] theorem every_ret (φ : C → Prop) (a : α) : (Prog.ret a : Prog C R E α).Every φ := trivial

@[simp] theorem every_throw (φ : C → Prop) (e : E) : (Prog.throw e : Prog C R E α).Every φ :=
  trivial

@[simp] theorem every_op (φ : C → Prop) (c : C) (k : R c → Prog C R E α) :
    (Prog.op c k).Every φ ↔ φ c ∧ ∀ r, (k r).Every φ := Iff.rfl

@[simp] theorem every_call (φ : C → Prop) (c : C) :
    (call c : Prog C R E (R c)).Every φ ↔ φ c := by
  simp [call]

theorem Every.bind {φ : C → Prop} {p : Prog C R E α} {f : α → Prog C R E β} (hp : p.Every φ)
    (hf : ∀ a, (f a).Every φ) : (p >>= f).Every φ := by
  induction p with
  | ret a => exact hf a
  | throw e => trivial
  | op c k ih => exact ⟨hp.1, fun r => ih r (hp.2 r)⟩

/-- No run of the program throws, whatever the replies. -/
def NoThrow : Prog C R E α → Prop
  | .ret _ => True
  | .throw _ => False
  | .op _ k => ∀ r, (k r).NoThrow

theorem NoThrow.bind {p : Prog C R E α} {f : α → Prog C R E β} (hp : p.NoThrow)
    (hf : ∀ a, (f a).NoThrow) : (p >>= f).NoThrow := by
  induction p with
  | ret a => exact hf a
  | throw e => exact hp
  | op c k ih => exact fun r => ih r (hp r)

theorem NoThrow.wp {W : Type} {X : (c : C) → W → R c → W → Prop} {p : Prog C R E α}
    (h : p.NoThrow) (w : W) : p.wp X (fun x _ => ∃ a, x = .ok a) w := by
  induction p generalizing w with
  | ret a => exact ⟨a, rfl⟩
  | throw e => exact h.elim
  | op c k ih => exact fun r v _ => ih r (h r) v

/-- A first part that cannot throw is passed over. -/
theorem NoThrow.wp_bind {W : Type} {X : (c : C) → W → R c → W → Prop} {p : Prog C R E α}
    {f : α → Prog C R E β} {P : W → Prop} {Q : Except E β → W → Prop} {w : W} (calm : p.NoThrow)
    (hp : p.wp X (fun _ v => P v) w) (hf : ∀ a v, P v → (f a).wp X Q v) : (p >>= f).wp X Q w := by
  apply wp_seq X (wp_and X hp (calm.wp w))
  · rintro a v ⟨h, -⟩
    exact hf a v h
  · rintro e v ⟨-, a, ok⟩
    cases ok

theorem Every.of_forall {φ : C → Prop} (h : ∀ c, φ c) (p : Prog C R E α) : p.Every φ := by
  induction p with
  | ret a => trivial
  | throw e => trivial
  | op c k ih => exact ⟨h c, ih⟩

theorem Every.mono {φ ψ : C → Prop} {p : Prog C R E α} (h : p.Every φ) (hφ : ∀ c, φ c → ψ c) :
    p.Every ψ := by
  induction p with
  | ret a => trivial
  | throw e => trivial
  | op c k ih => exact ⟨hφ c h.1, fun r => ih r (h.2 r)⟩

theorem Every.and {φ ψ : C → Prop} {p : Prog C R E α} (h : p.Every φ) (h' : p.Every ψ) :
    p.Every fun c => φ c ∧ ψ c := by
  induction p with
  | ret a => trivial
  | throw e => trivial
  | op c k ih => exact ⟨⟨h.1, h'.1⟩, fun r => ih r (h.2 r) (h'.2 r)⟩

section
variable {W : Type} {X : (c : C) → W → R c → W → Prop}

/-- A preorder on worlds that every permitted operation respects relates the
ends of every run. -/
theorem wp_of_every {φ : C → Prop} {T : W → W → Prop} (refl : ∀ w, T w w)
    (trans : ∀ a b c, T a b → T b c → T a c) (step : ∀ c w r v, φ c → X c w r v → T w v)
    {p : Prog C R E α} (h : p.Every φ) (w : W) : p.wp X (fun _ v => T w v) w := by
  induction p generalizing w with
  | ret a => exact refl w
  | throw e => exact refl w
  | op c k ih =>
    intro r v hx
    apply wp_mono X (ih r (h.2 r) v)
    exact fun _ u hu => trans _ _ _ (step c w r v h.1 hx) hu

/-- The ends of every run are related. -/
def Relates (X : (c : C) → W → R c → W → Prop) (T : W → W → Prop) (p : Prog C R E α) : Prop :=
  ∀ w, p.wp X (fun _ v => T w v) w

theorem Relates.bind {T : W → W → Prop} (trans : ∀ a b c, T a b → T b c → T a c)
    {p : Prog C R E α} {f : α → Prog C R E β} (hp : p.Relates X T) (hf : ∀ a, (f a).Relates X T) :
    (p >>= f).Relates X T := by
  intro w
  apply wp_seq X (hp w)
  · exact fun a v first => wp_mono X (hf a v) fun _ u second => trans w v u first second
  · exact fun _ _ first => first

end

/-! ## Evaluation -/

section
variable {W : Type} (answer : (c : C) → W → Option (R c × W))

/-- A run in which `answer` chooses the replies; `none` where it has none. -/
def eval : Prog C R E α → W → Option (Except E α × W)
  | .ret a, w => some (.ok a, w)
  | .throw e, w => some (.error e, w)
  | .op c k, w => (answer c w).bind fun r => (k r.1).eval r.2

theorem runs_eval {X : (c : C) → W → R c → W → Prop}
    (h : ∀ c w r, answer c w = some r → X c w r.1 r.2) {p : Prog C R E α} {w : W}
    {r : Except E α × W} (e : p.eval answer w = some r) : p.Runs X w r.1 r.2 := by
  induction p generalizing w with
  | ret a => obtain rfl := Option.some.inj e; exact ⟨rfl, rfl⟩
  | throw x => obtain rfl := Option.some.inj e; exact ⟨rfl, rfl⟩
  | op c k ih =>
    obtain ⟨s, hs, rest⟩ := Option.bind_eq_some_iff.mp e
    exact ⟨s.1, s.2, h c w s hs, ih s.1 rest⟩

/-- The run under `answer` comes to an end, and `Q` holds there. -/
def Ends (p : Prog C R E α) (Q : Except E α → W → Prop) (w : W) : Prop :=
  ∃ r, p.eval answer w = some r ∧ Q r.1 r.2

theorem eval_bind (p : Prog C R E α) (f : α → Prog C R E β) (w : W) :
    (p >>= f).eval answer w = (p.eval answer w).bind fun r =>
      match r.1 with
      | .ok a => (f a).eval answer r.2
      | .error e => some (.error e, r.2) := by
  induction p generalizing w with
  | ret a => rfl
  | throw e => rfl
  | op c k ih =>
    simp only [op_bind, eval, ih, Option.bind_assoc]

theorem Ends.bind {p : Prog C R E α} {f : α → Prog C R E β} {P : α → W → Prop}
    {Q : Except E β → W → Prop} {w : W}
    (hp : p.Ends answer (fun x v => ∃ a, x = .ok a ∧ P a v) w)
    (hf : ∀ a v, P a v → (f a).Ends answer Q v) : (p >>= f).Ends answer Q w := by
  obtain ⟨⟨x, v⟩, first, a, rfl, ha⟩ := hp
  obtain ⟨r, second, hr⟩ := hf a v ha
  exact ⟨r, by rw [eval_bind, first]; exact second, hr⟩

theorem Ends.op {c : C} {k : R c → Prog C R E α} {Q : Except E α → W → Prop} {w : W}
    {r : R c × W} (h : answer c w = some r) (hk : (k r.1).Ends answer Q r.2) :
    (Prog.op c k).Ends answer Q w := by
  obtain ⟨x, rest, hx⟩ := hk
  exact ⟨x, by simp only [eval, h, Option.bind_some, rest], hx⟩

end

section
variable {W : Type} (answer : (c : C) → W → R c × W)

/-- The operations performed when `answer` chooses the replies. -/
def trace : Prog C R E α → W → List C
  | .ret _, _ => []
  | .throw _, _ => []
  | .op c k, w => c :: (k (answer c w).1).trace (answer c w).2

/-- Answers that agree on the permitted operations make no difference. -/
theorem trace_congr {φ : C → Prop} {answer answer' : (c : C) → W → R c × W}
    (same : ∀ c w, φ c → answer c w = answer' c w) {p : Prog C R E α} (h : p.Every φ) (w : W) :
    p.trace answer w = p.trace answer' w := by
  induction p generalizing w with
  | ret a => rfl
  | throw e => rfl
  | op c k ih => simp only [trace, same c w h.1, ih _ (h.2 _)]

end

/-- The program that has ended with `x`. -/
def done : Except E α → Prog C R E α
  | .ok a => .ret a
  | .error e => .throw e

end Prog

end Programs
