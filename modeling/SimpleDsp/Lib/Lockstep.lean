import SimpleDsp.Lib.Interleaving

/-!
# Lockstep

The same programs run over two kinds of worlds. If every operation of the first has its
like in the second, with the same reply unless nobody looks at it, every interleaving of
the first has a twin.

* `Ignores`: which replies make no difference to a program;
* `Mimics`: an operation of the one world is matched in the other;
* `Twins.reach`: so are interleavings of any number of threads.
-/

namespace Programs

variable {C : Type} {R : C → Type} {E α β L W V : Type}

namespace Prog

/-- The replies to the operations `free` make no difference. -/
def Ignores (free : C → Prop) : Prog C R E α → Prop
  | .ret _ => True
  | .throw _ => True
  | .op c k => (free c → ∀ r r', k r = k r') ∧ ∀ r, (k r).Ignores free

section
variable {free : C → Prop}

theorem Ignores.bind {p : Prog C R E α} {f : α → Prog C R E β} (hp : p.Ignores free)
    (hf : ∀ a, (f a).Ignores free) : (p >>= f).Ignores free := by
  induction p with
  | ret a => exact hf a
  | throw e => trivial
  | op c k ih =>
    refine ⟨?_, fun r => ih r (hp.2 r)⟩
    intro ignored r r'
    change k r >>= f = k r' >>= f
    rw [hp.1 ignored r r']

theorem ignores_op {c : C} {k : R c → Prog C R E α} (heard : ¬free c)
    (hk : ∀ r, (k r).Ignores free) : (Prog.op c k).Ignores free :=
  ⟨fun ignored => absurd ignored heard, hk⟩

/-- A reply that is thrown away. -/
theorem ignores_then {c : C} {p : Prog C R E α} (hp : p.Ignores free) :
    (Prog.op c fun _ => p).Ignores free :=
  ⟨fun _ _ _ => rfl, fun _ => hp⟩

end

end Prog

/-- What `X` does to the one world, `Y` does to the other, and `T` holds again. -/
def Mimics (X : (c : C) → W → R c → W → Prop) (Y : (c : C) → V → R c → V → Prop)
    (T : W → V → Prop) (φ free : C → Prop) : Prop :=
  ∀ c w v r w', φ c → T w v → X c w r w' → ∃ r' v', Y c v r' v' ∧ T w' v' ∧ (r' = r ∨ free c)

section
variable {S : System C R E α L W} {S' : System C R E α L V} {T : W → V → Prop} {φ free : C → Prop}

/-- Two systems that run the same programs, of which the second can do what the first does. -/
structure System.Twins (S : System C R E α L W) (S' : System C R E α L V) (T : W → V → Prop)
    (φ free : C → Prop) : Prop where
  start : ∀ l, S'.start l = S.start l
  every : ∀ l, (S.start l).Every φ
  ignores : ∀ l, (S.start l).Ignores free
  exec : ∀ i l, Mimics (S.exec i l) (S'.exec i l) T φ free
  drift : ∀ w v w', T w v → S.drift w w' → ∃ v', S'.drift v v' ∧ T w' v'

/-- Every thread may go on in step. -/
def InStep (φ free : C → Prop) (threads : List (L × Prog C R E α)) : Prop :=
  ∀ t ∈ threads, t.2.Every φ ∧ t.2.Ignores free

theorem System.Twins.step (twins : S.Twins S' T φ free) {p q : Pool C R E α L W} {v : V}
    (inStep : InStep φ free p.threads) (alike : T p.world v) (step : S.Step p q) :
    InStep φ free q.threads ∧ ∃ v', S'.Step ⟨v, p.threads⟩ ⟨v', q.threads⟩ ∧ T q.world v' := by
  cases step with
  | spawn w ts l =>
    refine ⟨?_, v, ?_, alike⟩
    · intro t mem
      rcases List.mem_append.mp mem with old | new
      · exact inStep t old
      · rw [List.mem_singleton.mp new]
        exact ⟨twins.every l, twins.ignores l⟩
    · have spawned := System.Step.spawn (S := S') v ts l
      rwa [twins.start] at spawned
  | @act w w' ts i l c k r here done =>
    have mine := inStep _ (List.mem_of_getElem? here)
    obtain ⟨r', v', matched, again, same⟩ := twins.exec i l c w v r w' mine.1.1 alike done
    have continued : k r' = k r := by
      rcases same with rfl | ignored
      · rfl
      · exact mine.2.1 ignored r' r
    refine ⟨?_, v', ?_, again⟩
    · intro t mem
      rcases List.mem_or_eq_of_mem_set mem with old | rfl
      · exact inStep t old
      · exact ⟨mine.1.2 r, mine.2.2 r⟩
    · have acted := System.Step.act (S := S') here matched
      rwa [continued] at acted
  | @drift w w' ts moved =>
    obtain ⟨v', matched, again⟩ := twins.drift w v w' alike moved
    exact ⟨inStep, v', .drift ts matched, again⟩

/-- Every interleaving over the one world has a twin over the other, with the same
threads. -/
theorem System.Twins.reach (twins : S.Twins S' T φ free) {w : W} {v : V} (alike : T w v)
    {p : Pool C R E α L W} (reach : S.Reach w p) :
    ∃ v', S'.Reach v ⟨v', p.threads⟩ ∧ T p.world v' := by
  have both : InStep φ free p.threads ∧ ∃ v', S'.Reach v ⟨v', p.threads⟩ ∧ T p.world v' := by
    induction reach with
    | start =>
      refine ⟨?_, v, .start, alike⟩
      intro t mem
      cases mem
    | next _ step ih =>
      obtain ⟨inStep, v', before, alike⟩ := ih
      obtain ⟨again, v'', matched, still⟩ := twins.step inStep alike step
      exact ⟨again, v'', before.next matched, still⟩
  exact both.2

end

end Programs
