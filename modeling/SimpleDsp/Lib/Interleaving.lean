import SimpleDsp.Lib.Program

/-!
# Interleaved programs

Any number of threads run programs over one world. A step starts a new thread,
lets one thread perform its next operation, or lets the surroundings move.

`Safe` is the condition on one thread that makes this compositional: whatever
the others did meanwhile, the invariant holds again after each operation of its
own. What others may do is bounded by a preorder `later`; a fact a thread has
learnt survives if it is kept by `later`. `Keeps.reach` puts the threads
together again. `Reach.oneByOne`: one of the interleavings is to run the threads one
after the other. `System.traced` keeps a record of what every thread did.
-/

namespace Programs

structure Pool (C : Type) (R : C → Type) (E α L W : Type) where
  world : W
  threads : List (L × Prog C R E α)

/-- What a thread with label `l` runs, what the operations of the `i`-th thread
do, and how the world moves by itself. -/
structure System (C : Type) (R : C → Type) (E α L W : Type) where
  start : L → Prog C R E α
  exec : Nat → L → (c : C) → W → R c → W → Prop
  drift : W → W → Prop

variable {C : Type} {R : C → Type} {E α β L W : Type}

inductive System.Step (S : System C R E α L W) : Pool C R E α L W → Pool C R E α L W → Prop
  | spawn (w : W) (ts : List (L × Prog C R E α)) (l : L) :
      Step S ⟨w, ts⟩ ⟨w, ts ++ [(l, S.start l)]⟩
  | act {w w' : W} {ts : List (L × Prog C R E α)} {i : Nat} {l : L} {c : C}
      {k : R c → Prog C R E α} {r : R c} (here : ts[i]? = some (l, .op c k))
      (done : S.exec i l c w r w') : Step S ⟨w, ts⟩ ⟨w', ts.set i (l, k r)⟩
  | drift {w w' : W} (ts : List (L × Prog C R E α)) (moved : S.drift w w') :
      Step S ⟨w, ts⟩ ⟨w', ts⟩

/-- The pools that interleavings reach from the world `w` and no thread at all. -/
inductive System.Reach (S : System C R E α L W) (w : W) : Pool C R E α L W → Prop
  | start : Reach S w ⟨w, []⟩
  | next {p q : Pool C R E α L W} : Reach S w p → S.Step p q → Reach S w q

theorem System.Reach.spawn {S : System C R E α L W} {w v : W} {ts : List (L × Prog C R E α)}
    (h : S.Reach w ⟨v, ts⟩) (l : L) : S.Reach w ⟨v, ts ++ [(l, S.start l)]⟩ :=
  h.next (.spawn v ts l)

/-- One thread may run to its end while the others wait. -/
theorem System.Reach.alone {S : System C R E α L W} {w v v' : W} {ts : List (L × Prog C R E α)}
    {i : Nat} {l : L} {q : Prog C R E α} {r : Except E α} (h : S.Reach w ⟨v, ts⟩)
    (here : ts[i]? = some (l, q)) (runs : q.Runs (S.exec i l) v r v') :
    S.Reach w ⟨v', ts.set i (l, Prog.done r)⟩ := by
  induction q generalizing v ts with
  | ret a =>
    obtain ⟨rfl, rfl⟩ := runs
    obtain ⟨lt, e⟩ := List.getElem?_eq_some_iff.mp here
    simpa [Prog.done, ← e] using h
  | throw x =>
    obtain ⟨rfl, rfl⟩ := runs
    obtain ⟨lt, e⟩ := List.getElem?_eq_some_iff.mp here
    simpa [Prog.done, ← e] using h
  | op c k ih =>
    obtain ⟨s, u, first, rest⟩ := runs
    have lt : i < ts.length := (List.getElem?_eq_some_iff.mp here).1
    have ended := ih s (h.next (.act here first)) (List.getElem?_set_self lt) rest
    rwa [List.set_set] at ended

/-- New threads with the labels `ls`, the first of them the `i`-th, one after the other. -/
def System.oneByOne (S : System C R E α L W) (answers : Nat → L → (c : C) → W → Option (R c × W)) :
    Nat → List L → W → Option W
  | _, [], w => some w
  | i, l :: ls, w =>
    ((S.start l).eval (answers i l) w).bind fun r => S.oneByOne answers (i + 1) ls r.2

theorem System.Reach.oneByOne {S : System C R E α L W}
    {answers : Nat → L → (c : C) → W → Option (R c × W)} {ls : List L}
    (allowed : ∀ i, ∀ l ∈ ls, ∀ c w r, answers i l c w = some r → S.exec i l c w r.1 r.2)
    {w v v' : W} {ts : List (L × Prog C R E α)} (reach : S.Reach w ⟨v, ts⟩)
    (run : S.oneByOne answers ts.length ls v = some v') :
    ∃ q, S.Reach w q ∧ q.world = v' ∧ ∀ t ∈ q.threads, t ∈ ts ∨ ∃ x, t.2 = Prog.done x := by
  induction ls generalizing v ts with
  | nil => exact ⟨_, reach, Option.some.inj run, fun t mem => Or.inl mem⟩
  | cons l ls ih =>
    obtain ⟨⟨x, u⟩, first, rest⟩ := Option.bind_eq_some_iff.mp run
    have here : (ts ++ [(l, S.start l)])[ts.length]? = some (l, S.start l) := by simp
    have ended := (reach.spawn l).alone here (Prog.runs_eval _ (allowed _ l List.mem_cons_self) first)
    have set : (ts ++ [(l, S.start l)]).set ts.length (l, Prog.done x) = ts ++ [(l, Prog.done x)] := by
      simp
    rw [set] at ended
    have length : (ts ++ [(l, (Prog.done x : Prog C R E α))]).length = ts.length + 1 := by simp
    have later (i : Nat) (l' : L) (mem : l' ∈ ls) := allowed i l' (List.mem_cons_of_mem l mem)
    obtain ⟨q, reached, world, threads⟩ := ih later ended (by rwa [length])
    refine ⟨q, reached, world, fun t mem => ?_⟩
    rcases threads t mem with old | done
    · rcases List.mem_append.mp old with before | new
      · exact Or.inl before
      · rw [List.mem_singleton.mp new]
        exact Or.inr ⟨x, rfl⟩
    · exact Or.inr done

section
variable (x : (c : C) → W → R c → W → Prop) (later : W → W → Prop) (I : W → Prop)

/-- From `w` on, in every world later than the last one, each operation keeps
`I`, and `Q` holds where the thread ends. -/
def Safe : Prog C R E α → (Except E α → W → Prop) → W → Prop
  | .ret a, Q, w => Q (.ok a) w
  | .throw e, Q, w => Q (.error e) w
  | .op c k, Q, w => ∀ u, later w u → I u → ∀ r v, x c u r v → I v ∧ Safe (k r) Q v

@[simp] theorem safe_ret (a : α) (Q : Except E α → W → Prop) (w : W) :
    Safe x later I (.ret a : Prog C R E α) Q w = Q (.ok a) w := rfl

@[simp] theorem safe_throw (e : E) (Q : Except E α → W → Prop) (w : W) :
    Safe x later I (.throw e : Prog C R E α) Q w = Q (.error e) w := rfl

@[simp] theorem safe_op (c : C) (k : R c → Prog C R E α) (Q : Except E α → W → Prop) (w : W) :
    Safe x later I (.op c k) Q w =
      ∀ u, later w u → I u → ∀ r v, x c u r v → I v ∧ Safe x later I (k r) Q v := rfl

variable {x later I}

theorem Safe.persist (trans : ∀ a b c, later a b → later b c → later a c)
    {Q : Except E α → W → Prop} (stable : ∀ r a b, Q r a → later a b → Q r b)
    {p : Prog C R E α} {w v : W} (h : Safe x later I p Q w) (hl : later w v) :
    Safe x later I p Q v := by
  cases p with
  | ret a => exact stable _ _ _ h hl
  | throw e => exact stable _ _ _ h hl
  | op c k => exact fun u hu => h u (trans _ _ _ hl hu)

theorem Safe.seq {p : Prog C R E α} {f : α → Prog C R E β} {P : Except E α → W → Prop}
    {Q : Except E β → W → Prop} {w : W} (hp : Safe x later I p P w)
    (hok : ∀ a v, P (.ok a) v → Safe x later I (f a) Q v)
    (herr : ∀ e v, P (.error e) v → Q (.error e) v) : Safe x later I (p >>= f) Q w := by
  induction p generalizing w with
  | ret a => exact hok a w hp
  | throw e => exact herr e w hp
  | op c k ih =>
    intro u hu hI r v hx
    obtain ⟨hv, hk⟩ := hp u hu hI r v hx
    exact ⟨hv, ih r hk⟩

/-- A safe thread that runs alone. -/
theorem Safe.wp (refl : ∀ w, later w w) {Q : Except E α → W → Prop} {p : Prog C R E α} {w : W}
    (h : Safe x later I p Q w) (hI : I w) : p.wp x (fun r v => I v ∧ Q r v) w := by
  induction p generalizing w with
  | ret a => exact ⟨hI, h⟩
  | throw e => exact ⟨hI, h⟩
  | op c k ih =>
    intro r v hx
    obtain ⟨hv, hk⟩ := h w (refl w) hI r v hx
    exact ih r hk hv

/-- A thread all of whose operations keep the invariant, given a fact that
lasts, is safe. -/
theorem Safe.of_every {φ : C → Prop} {P : W → Prop} (lasts : ∀ a b, P a → later a b → P b)
    (moves : ∀ c u r v, x c u r v → later u v)
    (step : ∀ c u r v, φ c → P u → I u → x c u r v → I v) {p : Prog C R E α} (h : p.Every φ)
    {w : W} (known : P w) : Safe x later I p (fun _ _ => True) w := by
  induction p generalizing w with
  | ret a => trivial
  | throw e => trivial
  | op c k ih =>
    intro u hu hI r v hx
    have here := lasts w u known hu
    exact ⟨step c u r v h.1 here hI hx, ih r (h.2 r) (lasts u v here (moves c u r v hx))⟩

end

/-- What makes `I` an invariant of all interleavings, and `Q` a property of
every result of the `i`-th thread. -/
structure System.Keeps (S : System C R E α L W) (later : W → W → Prop) (I : W → Prop)
    (Q : Nat → L → Except E α → W → Prop) : Prop where
  refl : ∀ w, later w w
  trans : ∀ a b c, later a b → later b c → later a c
  exec_later : ∀ i l c w r w', S.exec i l c w r w' → later w w'
  drift_later : ∀ w w', S.drift w w' → later w w'
  drift_keeps : ∀ w w', I w → S.drift w w' → I w'
  stable : ∀ i l r a b, Q i l r a → later a b → Q i l r b
  started : ∀ i l w, I w → Safe (S.exec i l) later I (S.start l) (Q i l) w

def System.AllSafe (S : System C R E α L W) (later : W → W → Prop) (I : W → Prop)
    (Q : Nat → L → Except E α → W → Prop) (p : Pool C R E α L W) : Prop :=
  ∀ i l q, p.threads[i]? = some (l, q) → Safe (S.exec i l) later I q (Q i l) p.world

theorem System.Keeps.step {S : System C R E α L W} {later : W → W → Prop} {I : W → Prop}
    {Q : Nat → L → Except E α → W → Prop} (h : S.Keeps later I Q) {p q : Pool C R E α L W}
    (hs : S.Step p q) (hI : I p.world) (ha : S.AllSafe later I Q p) :
    I q.world ∧ S.AllSafe later I Q q := by
  cases hs with
  | spawn w ts l =>
    refine ⟨hI, ?_⟩
    intro i m s hi
    by_cases lt : i < ts.length
    · exact ha i m s (by simpa only [List.getElem?_append_left lt] using hi)
    · rw [List.getElem?_append_right (by omega)] at hi
      obtain ⟨rfl, rfl⟩ : m = l ∧ s = S.start l := by
        have := List.mem_of_getElem? hi
        simpa using this
      exact h.started i m w hI
  | @act w w' ts i l c k r here done =>
    have mine := ha i l _ here w (h.refl w) hI r w' done
    refine ⟨mine.1, ?_⟩
    intro j m s hj
    by_cases e : i = j
    · subst e
      have lt : i < ts.length := (List.getElem?_eq_some_iff.mp here).1
      rw [List.getElem?_set_self lt, Option.some.injEq, Prod.mk.injEq] at hj
      obtain ⟨rfl, rfl⟩ := hj
      exact mine.2
    · rw [List.getElem?_set_ne e] at hj
      exact (ha j m s hj).persist h.trans (h.stable j m) (h.exec_later _ _ _ _ _ _ done)
  | @drift w w' ts moved =>
    refine ⟨h.drift_keeps w w' hI moved, ?_⟩
    intro j m s hj
    exact (ha j m s hj).persist h.trans (h.stable j m) (h.drift_later w w' moved)

theorem System.Keeps.reach {S : System C R E α L W} {later : W → W → Prop} {I : W → Prop}
    {Q : Nat → L → Except E α → W → Prop} (h : S.Keeps later I Q) {w : W} (h0 : I w)
    {p : Pool C R E α L W} (hr : S.Reach w p) : I p.world ∧ S.AllSafe later I Q p := by
  induction hr with
  | start => exact ⟨h0, by intro i l q hi; simp at hi⟩
  | next _ step ih => exact h.step step ih.1 ih.2

/-- What every permitted operation keeps is kept by all interleavings. -/
theorem System.Reach.invariant {S : System C R E α L W} {φ : C → Prop} {I : W → Prop}
    (every : ∀ l, (S.start l).Every φ)
    (step : ∀ i l c u r v, φ c → I u → S.exec i l c u r v → I v)
    (drift : ∀ u v, I u → S.drift u v → I v) {w : W} (start : I w) {p : Pool C R E α L W}
    (reach : S.Reach w p) : I p.world := by
  have keeps : S.Keeps (fun _ _ => True) I (fun _ _ _ _ => True) := by
    constructor
    case drift_keeps => exact drift
    case started =>
      intro i l u _
      exact Safe.of_every (P := fun _ => True) (fun _ _ _ _ => trivial) (fun _ _ _ _ _ => trivial)
        (fun c u r v permitted _ => step i l c u r v permitted) (every l) trivial
    all_goals intros; trivial
  exact (keeps.reach start reach).1

/-- What holds of every operation of the programs holds of those that are still to come. -/
theorem System.Reach.pending {S : System C R E α L W} {φ : C → Prop}
    (every : ∀ l, (S.start l).Every φ) {w : W} {p : Pool C R E α L W} (reach : S.Reach w p) :
    ∀ t ∈ p.threads, t.2.Every φ := by
  induction reach with
  | start => exact fun _ mem => absurd mem List.not_mem_nil
  | next _ step ih =>
    cases step with
    | spawn w ts l =>
      intro t mem
      rcases List.mem_append.mp mem with old | new
      · exact ih t old
      · rw [List.mem_singleton.mp new]
        exact every l
    | act here done =>
      intro t mem
      rcases List.mem_or_eq_of_mem_set mem with old | rfl
      · exact ih t old
      · exact (ih _ (List.mem_of_getElem? here)).2 _
    | drift ts moved => exact ih

/-! ## Traces -/

/-- An operation, the number of the thread that performed it and the reply. -/
abbrev Event (C : Type) (R : C → Type) := Nat × (c : C) × R c

/-- The same system, with a record of all operations. -/
def System.traced (S : System C R E α L W) : System C R E α L (W × List (Event C R)) where
  start := S.start
  exec i l c w r w' := S.exec i l c w.1 r w'.1 ∧ w'.2 = w.2 ++ [(i, ⟨c, r⟩)]
  drift w w' := S.drift w.1 w'.1 ∧ w'.2 = w.2

/-- The record only grows. -/
def TraceGrows (w w' : W × List (Event C R)) : Prop := ∃ more, w'.2 = w.2 ++ more

theorem TraceGrows.refl (w : W × List (Event C R)) : TraceGrows w w := ⟨[], by simp⟩

theorem TraceGrows.trans (a b c : W × List (Event C R)) (h : TraceGrows a b)
    (h' : TraceGrows b c) : TraceGrows a c := by
  obtain ⟨s, hs⟩ := h
  obtain ⟨t, ht⟩ := h'
  exact ⟨s ++ t, by rw [ht, hs, List.append_assoc]⟩

theorem TraceGrows.mem {w w' : W × List (Event C R)} (h : TraceGrows w w') {e : Event C R}
    (he : e ∈ w.2) : e ∈ w'.2 := by
  obtain ⟨more, e⟩ := h
  rw [e]
  exact List.mem_append_left more he

theorem System.traced_grows {S : System C R E α L W} {i : Nat} {l : L} {c : C}
    {w w' : W × List (Event C R)} {r : R c} (h : S.traced.exec i l c w r w') : TraceGrows w w' :=
  ⟨_, h.2⟩

/-- The answers of a function, with a record. -/
def tracedAnswer (answer : (c : C) → W → Option (R c × W)) (i : Nat) (c : C)
    (w : W × List (Event C R)) : Option (R c × (W × List (Event C R))) :=
  (answer c w.1).map fun r => (r.1, (r.2, w.2 ++ [(i, ⟨c, r.1⟩)]))

theorem traced_answer {S : System C R E α L W} {answer : (c : C) → W → Option (R c × W)} {i : Nat}
    {l : L} (h : ∀ c w r, answer c w = some r → S.exec i l c w r.1 r.2) (c : C)
    (w : W × List (Event C R)) (r : R c × (W × List (Event C R)))
    (e : tracedAnswer answer i c w = some r) : S.traced.exec i l c w r.1 r.2 := by
  obtain ⟨s, hs, rfl⟩ := Option.map_eq_some_iff.mp e
  exact ⟨h c w.1 s hs, rfl⟩

end Programs
