import SimpleDsp.Lib.Interleaving

/-!
# Programs that are interrupted, and programs inside others

* `Visits`: the worlds that a run passes through, the last one included; a program that is
  killed leaves one of them;
* `visits_bind`, `Every.visits`, `Safe.visits`: what is known of them;
* `embed`: a program over some of the operations as one over all; `Safe.embed` brings what
  is known of it along, and `runs_embed_iff` its runs, over a `View` of the world;
* `calm`: a program that throws nothing among those that may;
* `System.only`: the threads of some labels.
-/

namespace Programs

namespace Prog

variable {C : Type} {R : C → Type} {E : Type} {α β : Type} {W : Type}

section
variable (X : (c : C) → W → R c → W → Prop)

def Visits : Prog C R E α → W → W → Prop
  | .ret _, w, v => v = w
  | .throw _, w, v => v = w
  | .op c k, w, v => v = w ∨ ∃ r u, X c w r u ∧ (k r).Visits u v

end

variable {X : (c : C) → W → R c → W → Prop}

theorem Runs.visits {p : Prog C R E α} {x : Except E α} {w v : W} (h : p.Runs X w x v) :
    p.Visits X w v := by
  induction p generalizing w with
  | ret | throw => exact h.2
  | op c k ih =>
    obtain ⟨r, u, first, rest⟩ := h
    exact Or.inr ⟨r, u, first, ih r rest⟩

/-- In the first part, or behind it. -/
theorem visits_bind {p : Prog C R E α} {f : α → Prog C R E β} {w v : W}
    (h : (p >>= f).Visits X w v) :
    p.Visits X w v ∨ ∃ a u, p.Runs X w (.ok a) u ∧ (f a).Visits X u v := by
  induction p generalizing w with
  | ret a => exact Or.inr ⟨a, w, ⟨rfl, rfl⟩, h⟩
  | throw e => exact Or.inl h
  | op c k ih =>
    rcases h with rfl | ⟨r, u, first, rest⟩
    · exact Or.inl (Or.inl rfl)
    · rcases ih r rest with inside | ⟨a, u', run, behind⟩
      · exact Or.inl (Or.inr ⟨r, u, first, inside⟩)
      · exact Or.inr ⟨a, u', ⟨r, u, first, run⟩, behind⟩

theorem Runs.bind {p : Prog C R E α} {f : α → Prog C R E β} {a : α} {x : Except E β} {w u v : W}
    (first : p.Runs X w (.ok a) u) (rest : (f a).Runs X u x v) : (p >>= f).Runs X w x v := by
  induction p generalizing w with
  | ret b =>
    obtain ⟨same, rfl⟩ := first
    obtain rfl := Except.ok.inj same
    exact rest
  | throw e => cases first.1
  | op c k ih =>
    obtain ⟨r, w', done, first⟩ := first
    exact ⟨r, w', done, ih r first⟩

theorem runs_bind {p : Prog C R E α} {f : α → Prog C R E β} {x : Except E β} {w v : W}
    (h : (p >>= f).Runs X w x v) :
    (∃ a u, p.Runs X w (.ok a) u ∧ (f a).Runs X u x v) ∨
      ∃ e, x = .error e ∧ p.Runs X w (.error e) v := by
  induction p generalizing w with
  | ret a => exact Or.inl ⟨a, w, ⟨rfl, rfl⟩, h⟩
  | throw e => exact Or.inr ⟨e, h.1, rfl, h.2⟩
  | op c k ih =>
    obtain ⟨r, u, first, rest⟩ := h
    rcases ih r rest with ⟨a, u', run, behind⟩ | ⟨e, failed, run⟩
    · exact Or.inl ⟨a, u', ⟨r, u, first, run⟩, behind⟩
    · exact Or.inr ⟨e, failed, r, u, first, run⟩

theorem Runs.bind_error {p : Prog C R E α} {f : α → Prog C R E β} {e : E} {w v : W}
    (h : p.Runs X w (.error e) v) : (p >>= f).Runs X w (.error e) v := by
  induction p generalizing w with
  | ret a => cases h.1
  | throw e' => exact ⟨by rw [Except.error.inj h.1], h.2⟩
  | op c k ih =>
    obtain ⟨r, u, first, rest⟩ := h
    exact ⟨r, u, first, ih r rest⟩

theorem runs_bind_iff {p : Prog C R E α} {f : α → Prog C R E β} {x : Except E β} {w v : W} :
    (p >>= f).Runs X w x v ↔ (∃ a u, p.Runs X w (.ok a) u ∧ (f a).Runs X u x v) ∨
      ∃ e, x = .error e ∧ p.Runs X w (.error e) v := by
  constructor
  · exact runs_bind
  · rintro (⟨a, u, first, rest⟩ | ⟨e, rfl, failed⟩)
    · exact first.bind rest
    · exact failed.bind_error

/-- A preorder that every permitted operation respects. -/
theorem Every.visits {φ : C → Prop} {T : W → W → Prop} (refl : ∀ w, T w w)
    (trans : ∀ a b c, T a b → T b c → T a c) (step : ∀ c w r v, φ c → X c w r v → T w v)
    {p : Prog C R E α} (h : p.Every φ) {w v : W} (visits : p.Visits X w v) : T w v := by
  induction p generalizing w with
  | ret | throw =>
    obtain rfl := visits
    exact refl v
  | op c k ih =>
    rcases visits with rfl | ⟨r, u, first, rest⟩
    · exact refl v
    · exact trans _ _ _ (step c w r u h.1 first) (ih r (h.2 r) rest)

/-- Answers that are right where `I` holds, and keep it. -/
theorem runs_eval_of {answer : (c : C) → W → Option (R c × W)} {I : W → Prop}
    (right : ∀ c w r, I w → answer c w = some r → X c w r.1 r.2 ∧ I r.2) {p : Prog C R E α} {w : W}
    {r : Except E α × W} (start : I w) (e : p.eval answer w = some r) :
    p.Runs X w r.1 r.2 ∧ I r.2 := by
  induction p generalizing w with
  | ret | throw =>
    obtain rfl := Option.some.inj e
    exact ⟨⟨rfl, rfl⟩, start⟩
  | op c k ih =>
    obtain ⟨s, given, rest⟩ := Option.bind_eq_some_iff.mp e
    obtain ⟨done, keeps⟩ := right c w s start given
    obtain ⟨runs, keeps⟩ := ih s.1 keeps rest
    exact ⟨⟨s.1, s.2, done, runs⟩, keeps⟩

/-! ## Embeddings -/

section
variable {D : Type} {S : D → Type}

/-- `f` names each operation in the larger language, and `g` reads its reply. -/
def embed (f : C → D) (g : ∀ c, S (f c) → R c) : Prog C R E α → Prog D S E α
  | .ret a => .ret a
  | .throw e => .throw e
  | .op c k => .op (f c) fun r => (k (g c r)).embed f g

variable {V : Type} {Y : (d : D) → V → S d → V → Prop} {f : C → D} {g : ∀ c, S (f c) → R c}
  {part : V → W}

/-- Each run of the embedded program is, in a part of the world, one of the program. -/
theorem Runs.of_embed (step : ∀ c w r v, Y (f c) w r v → X c (part w) (g c r) (part v))
    {p : Prog C R E α} {x : Except E α} {w v : V} (h : (p.embed f g).Runs Y w x v) :
    p.Runs X (part w) x (part v) := by
  induction p generalizing w with
  | ret | throw => exact ⟨h.1, by rw [h.2]⟩
  | op c k ih =>
    obtain ⟨r, u, first, rest⟩ := h
    exact ⟨g c r, part u, step c w r u first, ih (g c r) rest⟩

theorem Visits.of_embed (step : ∀ c w r v, Y (f c) w r v → X c (part w) (g c r) (part v))
    {p : Prog C R E α} {w v : V} (h : (p.embed f g).Visits Y w v) :
    p.Visits X (part w) (part v) := by
  induction p generalizing w with
  | ret | throw => exact congrArg part h
  | op c k ih =>
    rcases h with rfl | ⟨r, u, first, rest⟩
    · exact Or.inl rfl
    · exact Or.inr ⟨g c r, part u, step c w r u first, ih (g c r) rest⟩

theorem Every.embed {φ : C → Prop} {ψ : D → Prop} {p : Prog C R E α} (h : p.Every φ)
    (le : ∀ c, φ c → ψ (f c)) : (p.embed f g).Every ψ := by
  induction p with
  | ret | throw => trivial
  | op c k ih => exact ⟨le c h.1, fun r => ih (g c r) (h.2 (g c r))⟩

end

/-- A part of the world that can be read and replaced. -/
structure View (V W : Type) where
  get : V → W
  put : V → W → V
  get_put : ∀ v w, get (put v w) = w
  put_get : ∀ v, put v (get v) = v
  put_put : ∀ v w w', put (put v w) w' = put v w'

section
variable {D : Type} {S : D → Type} {V : Type} {Y : (d : D) → V → S d → V → Prop} {f : C → D}
  {g : ∀ c, S (f c) → R c}

/-- Where an operation does to the view what it does to the part, so does a program. -/
theorem runs_embed_iff (view : View V W) (heard : ∀ c r, ∃ s, g c s = r)
    (step : ∀ c v s v', Y (f c) v s v' ↔ ∃ w, X c (view.get v) (g c s) w ∧ v' = view.put v w)
    {p : Prog C R E α} {x : Except E α} {v v' : V} :
    (p.embed f g).Runs Y v x v' ↔ ∃ w, p.Runs X (view.get v) x w ∧ v' = view.put v w := by
  induction p generalizing v with
  | ret | throw =>
    constructor
    · rintro ⟨rfl, rfl⟩
      exact ⟨_, ⟨rfl, rfl⟩, (view.put_get _).symm⟩
    · rintro ⟨w, ⟨rfl, rfl⟩, rfl⟩
      exact ⟨rfl, view.put_get v⟩
  | op c k ih =>
    constructor
    · rintro ⟨s, u, first, rest⟩
      obtain ⟨w, done, rfl⟩ := (step c v s u).mp first
      obtain ⟨w', more, rfl⟩ := (ih (g c s)).mp rest
      rw [view.get_put] at more
      exact ⟨w', ⟨g c s, w, done, more⟩, view.put_put v w w'⟩
    · rintro ⟨w', ⟨r, w, done, more⟩, rfl⟩
      obtain ⟨s, rfl⟩ := heard c r
      refine ⟨s, view.put v w, (step c v s _).mpr ⟨w, done, rfl⟩, (ih (g c s)).mpr ⟨w', ?_, ?_⟩⟩
      · rwa [view.get_put]
      · rw [view.put_put]

end

/-- A program that throws nothing, as one that may throw. -/
def calm : Prog C R Empty α → Prog C R E α
  | .ret a => .ret a
  | .throw e => e.elim
  | .op c k => .op c fun r => (k r).calm

theorem runs_calm_iff {p : Prog C R Empty α} {x : Except E α} {w v : W} :
    p.calm.Runs X w x v ↔ ∃ a, x = .ok a ∧ p.Runs X w (.ok a) v := by
  induction p generalizing w with
  | ret a =>
    constructor
    · rintro ⟨rfl, rfl⟩
      exact ⟨a, rfl, rfl, rfl⟩
    · rintro ⟨b, rfl, same, rfl⟩
      exact ⟨congrArg Except.ok (Except.ok.inj same), rfl⟩
  | throw e => exact e.elim
  | op c k ih =>
    constructor
    · rintro ⟨r, u, first, rest⟩
      obtain ⟨a, rfl, more⟩ := (ih r).mp rest
      exact ⟨a, rfl, r, u, first, more⟩
    · rintro ⟨a, rfl, r, u, first, more⟩
      exact ⟨r, u, first, (ih r).mpr ⟨a, rfl, more⟩⟩

end Prog

/-! ## Safe programs -/

section
variable {C : Type} {R : C → Type} {E α : Type} {W : Type} {x : (c : C) → W → R c → W → Prop}
  {later : W → W → Prop} {I : W → Prop}

theorem Safe.visits (refl : ∀ w, later w w) {p : Prog C R E α} {Q : Except E α → W → Prop} {w v : W}
    (h : Safe x later I p Q w) (start : I w) (visits : p.Visits x w v) : I v := by
  induction p generalizing w with
  | ret | throw =>
    obtain rfl := visits
    exact start
  | op c k ih =>
    rcases visits with rfl | ⟨r, u, first, rest⟩
    · exact start
    · obtain ⟨keeps, safe⟩ := h w (refl w) start r u first
      exact ih r safe keeps rest

theorem Safe.weaken {p : Prog C R E α} {Q Q' : Except E α → W → Prop} {w : W}
    (h : Safe x later I p Q w) (le : ∀ r v, Q r v → Q' r v) : Safe x later I p Q' w := by
  induction p generalizing w with
  | ret | throw => exact le _ _ h
  | op c k ih =>
    intro u hu hI r v hx
    obtain ⟨hI', safe⟩ := h u hu hI r v hx
    exact ⟨hI', ih r safe⟩

/-- An invariant that every permitted operation keeps by itself. -/
theorem Safe.and_every {φ : C → Prop} {K : W → Prop} {p : Prog C R E α}
    {Q : Except E α → W → Prop} {w : W} (h : Safe x later I p Q w) (every : p.Every φ)
    (keeps : ∀ c u r v, φ c → K u → x c u r v → K v) : Safe x later (fun w => I w ∧ K w) p Q w := by
  induction p generalizing w with
  | ret | throw => exact h
  | op c k ih =>
    rintro u hu ⟨hI, hK⟩ r v hx
    obtain ⟨hI', safe⟩ := h u hu hI r v hx
    exact ⟨⟨hI', keeps c u r v every.1 hK hx⟩, ih r safe (every.2 r)⟩

variable {D : Type} {S : D → Type} {V : Type} {y : (d : D) → V → S d → V → Prop} {f : C → D}
  {g : ∀ c, S (f c) → R c} {later' : V → V → Prop} {J : V → Prop}

/-- A program that is safe in a part of the world, where its operations keep the rest. -/
theorem Safe.embed (part : V → W)
    (step : ∀ c w r v, y (f c) w r v → x c (part w) (g c r) (part v))
    (parts : ∀ w v, later' w v → later (part w) (part v)) (inv : ∀ v, J v → I (part v))
    (keeps : ∀ c w r v, J w → y (f c) w r v → I (part v) → J v)
    {p : Prog C R E α} {Q : Except E α → W → Prop} {w : V} (h : Safe x later I p Q (part w)) :
    Safe y later' J (p.embed f g) (fun r v => Q r (part v)) w := by
  induction p generalizing w with
  | ret | throw => exact h
  | op c k ih =>
    intro u hu hJ r v hy
    obtain ⟨hI, safe⟩ := h (part u) (parts w u hu) (inv u hJ) (g c r) (part v) (step c u r v hy)
    exact ⟨keeps c u r v hJ hy hI, ih (g c r) safe⟩

end

/-! ## Threads of some labels -/

section
variable {C : Type} {R : C → Type} {E α L W : Type}

def System.only (S : System C R E α L W) (allowed : L → Prop) :
    System C R E α { l // allowed l } W where
  start l := S.start l
  exec i l := S.exec i l
  drift := S.drift

/-- Labels stay, so a pool with allowed labels is one of the smaller system. -/
theorem System.Reach.only {S : System C R E α L W} {w : W} {p : Pool C R E α L W}
    (reach : S.Reach w p) (allowed : L → Prop) (labels : ∀ t ∈ p.threads, allowed t.1) :
    ∃ ts : List ({ l // allowed l } × Prog C R E α), (S.only allowed).Reach w ⟨p.world, ts⟩ ∧
      ts.map (fun t => (t.1.1, t.2)) = p.threads := by
  induction reach with
  | start => exact ⟨[], .start, rfl⟩
  | next _ step ih =>
    cases step with
    | spawn v qs l =>
      obtain ⟨ts, reached, same⟩ := ih fun t ht => labels t (List.mem_append_left _ ht)
      have mine : allowed l := labels (l, S.start l) (List.mem_append_right _ List.mem_cons_self)
      exact ⟨_, reached.spawn ⟨l, mine⟩, by rw [List.map_append, same]; rfl⟩
    | @act v v' qs i l c k r here done =>
      have lt : i < qs.length := (List.getElem?_eq_some_iff.mp here).1
      have before : ∀ t ∈ qs, allowed t.1 := by
        intro t ht
        obtain ⟨j, at_j⟩ := List.getElem?_of_mem ht
        by_cases e : i = j
        · subst e
          obtain rfl := Option.some.inj (here.symm.trans at_j)
          exact labels (l, k r) (List.mem_set lt _)
        · exact labels t (List.mem_of_getElem? ((List.getElem?_set_ne e).trans at_j))
      obtain ⟨ts, reached, same⟩ := ih before
      have mine : (ts[i]?).map (fun t => (t.1.1, t.2)) = some (l, .op c k) := by
        rw [← List.getElem?_map, same]
        exact here
      obtain ⟨⟨m, q⟩, here', e⟩ := Option.map_eq_some_iff.mp mine
      obtain ⟨rfl, rfl⟩ := Prod.mk.inj e
      refine ⟨_, reached.next (.act here' done), ?_⟩
      rw [List.map_set, same]
    | drift qs moved =>
      obtain ⟨ts, reached, same⟩ := ih labels
      exact ⟨ts, reached.next (.drift ts moved), same⟩

end

end Programs
