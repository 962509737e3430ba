import SimpleDsp.Lib.Interleaving
import Mathlib.Algebra.BigOperators.Finprod
import Mathlib.Algebra.BigOperators.Group.Finset.Basic
import Mathlib.Tactic.Abel

/-!
# Ledgers

An amount is booked for each operation. A thread that has stopped half-way owes what
the rest of its program books, whatever the replies.

* `Owes`: what the rest of a program books, with one rule for each way to build it;
* `Reach.owed`: what is booked and what the threads owe add up to nothing;
* `Reach.settled`: when every thread has ended, the books balance.
-/

namespace Programs

variable {C : Type} {R : C → Type} {E α β L W A : Type} [AddCommGroup A]

namespace Prog

/-- A program that owes `a` books `a` before it ends. -/
def Owes (book : C → A) : Prog C R E α → A → Prop
  | .ret _, a => a = 0
  | .throw _, a => a = 0
  | .op c k, a => ∀ r, (k r).Owes book (a - book c)

def Ended : Prog C R E α → Prop
  | .op _ _ => False
  | _ => True

theorem ended_done (x : Except E α) : (done x : Prog C R E α).Ended := by
  cases x <;> trivial

variable {book : C → A}

theorem Owes.of_ended {p : Prog C R E α} {a : A} (h : p.Owes book a) (ended : p.Ended) : a = 0 := by
  cases p with
  | ret | throw => exact h
  | op => exact ended.elim

/-- What follows may not be reached, so it must owe nothing. -/
theorem Owes.bind {p : Prog C R E α} {f : α → Prog C R E β} {a : A} (hp : p.Owes book a)
    (hf : ∀ x, (f x).Owes book 0) : (p >>= f).Owes book a := by
  induction p generalizing a with
  | ret x =>
    obtain rfl : a = 0 := hp
    exact hf x
  | throw e => exact hp
  | op c k ih => exact fun r => ih r (hp r)

theorem owes_op {c : C} {k : R c → Prog C R E α} (free : book c = 0)
    (hk : ∀ r, (k r).Owes book 0) : (Prog.op c k).Owes book 0 := by
  intro r
  rw [free, sub_zero]
  exact hk r

theorem owes_of_every {p : Prog C R E α} (h : p.Every fun c => book c = 0) : p.Owes book 0 := by
  induction p with
  | ret | throw => exact rfl
  | op c k ih => exact owes_op h.1 fun r => ih r (h.2 r)

end Prog

/-! ## Records -/

/-- All that the operations of a record have booked. -/
def booked (book : C → A) (record : List (Event C R)) : A := (record.map fun e => book e.2.1).sum

@[simp] theorem booked_nil (book : C → A) : booked book ([] : List (Event C R)) = 0 := rfl

@[simp] theorem booked_cons (book : C → A) (e : Event C R) (record : List (Event C R)) :
    booked book (e :: record) = book e.2.1 + booked book record := rfl

theorem booked_append (book : C → A) (record : List (Event C R)) (e : Event C R) :
    booked book (record ++ [e]) = booked book record + book e.2.1 := by
  simp [booked]

theorem booked_sub (book book' : C → A) (record : List (Event C R)) :
    booked (fun c => book c - book' c) record = booked book record - booked book' record := by
  induction record with
  | nil => simp
  | cons e record ih =>
    rw [booked_cons, booked_cons, booked_cons, ih]
    exact sub_add_sub_comm ..

theorem booked_finsum {ι : Type} [Finite ι] (books : ι → C → A) (record : List (Event C R)) :
    booked (fun c => ∑ᶠ i, books i c) record = ∑ᶠ i, booked (books i) record := by
  induction record with
  | nil => simp
  | cons e record ih =>
    simp only [booked_cons]
    rw [ih, finsum_add_distrib (Set.toFinite _) (Set.toFinite _)]

/-! ## All threads -/

/-- The threads of a pool owe, each by its number. -/
def Owing (book : C → A) (debt : Nat → A) (threads : List (L × Prog C R E α)) : Prop :=
  ∀ (i : Nat) (l : L) (q : Prog C R E α), threads[i]? = some (l, q) → q.Owes book (debt i)

section
variable {book : C → A} {debt : Nat → A} {ts : List (L × Prog C R E α)}

theorem Owing.spawn (h : Owing book debt ts) {q : Prog C R E α} (free : q.Owes book 0) (l : L) :
    Owing book (Function.update debt ts.length 0) (ts ++ [(l, q)]) := by
  intro i m s here
  by_cases before : i < ts.length
  · rw [List.getElem?_append_left before] at here
    rw [Function.update_of_ne (by omega)]
    exact h i m s here
  · have inside : i < (ts ++ [(l, q)]).length := (List.getElem?_eq_some_iff.mp here).1
    obtain rfl : i = ts.length := by
      rw [List.length_append, List.length_singleton] at inside
      omega
    rw [List.getElem?_concat_length] at here
    obtain ⟨-, rfl⟩ := Prod.mk.inj (Option.some.inj here)
    rw [Function.update_self]
    exact free

theorem Owing.act (h : Owing book debt ts) {i : Nat} {l : L} {c : C} {k : R c → Prog C R E α}
    (here : ts[i]? = some (l, .op c k)) (r : R c) :
    Owing book (Function.update debt i (debt i - book c)) (ts.set i (l, k r)) := by
  intro j m s there
  by_cases same : i = j
  · subst same
    rw [List.getElem?_set_self (List.getElem?_eq_some_iff.mp here).1] at there
    obtain ⟨-, rfl⟩ := Prod.mk.inj (Option.some.inj there)
    rw [Function.update_self]
    exact h i l _ here r
  · rw [List.getElem?_set_ne same] at there
    rw [Function.update_of_ne (Ne.symm same)]
    exact h j m s there

theorem sum_update_of_lt {n i : Nat} (h : i < n) (a : A) :
    ∑ j ∈ Finset.range n, Function.update debt i (debt i - a) j =
      (∑ j ∈ Finset.range n, debt j) - a := by
  have here := Finset.mem_range.mpr h
  rw [Finset.sum_update_of_mem here, ← Finset.sum_erase_add _ _ here, Finset.sdiff_singleton_eq_erase]
  abel

theorem sum_update_next (n : Nat) :
    ∑ j ∈ Finset.range (n + 1), Function.update debt n 0 j = ∑ j ∈ Finset.range n, debt j := by
  rw [Finset.sum_range_succ, Function.update_self, add_zero]
  exact Finset.sum_update_of_notMem Finset.notMem_range_self _ _

end

section
variable {S : System C R E α L W} {book : C → A} {w : W} {p : Pool C R E α L (W × List (Event C R))}

/-- What has been booked is what the threads still owe, with the other sign. -/
theorem System.Reach.owed (free : ∀ l, (S.start l).Owes book 0) (reach : S.traced.Reach (w, []) p) :
    ∃ debt : Nat → A, Owing book debt p.threads ∧
      booked book p.world.2 + ∑ i ∈ Finset.range p.threads.length, debt i = 0 := by
  induction reach with
  | start => exact ⟨fun _ => 0, fun i l q here => by simp at here, by simp⟩
  | next _ step ih =>
    obtain ⟨debt, owing, even⟩ := ih
    cases step with
    | spawn w ts l =>
      refine ⟨_, owing.spawn (free l) l, ?_⟩
      rw [List.length_append, List.length_singleton, sum_update_next]
      exact even
    | @act w w' ts i l c k r here done =>
      refine ⟨_, owing.act here r, ?_⟩
      rw [List.length_set, sum_update_of_lt (List.getElem?_eq_some_iff.mp here).1, done.2,
        booked_append]
      rw [← even]
      abel
    | drift ts moved =>
      refine ⟨debt, owing, ?_⟩
      rw [moved.2]
      exact even

theorem System.Reach.settled (free : ∀ l, (S.start l).Owes book 0)
    (reach : S.traced.Reach (w, []) p) (ended : ∀ t ∈ p.threads, t.2.Ended) :
    booked book p.world.2 = 0 := by
  obtain ⟨debt, owing, even⟩ := reach.owed free
  have paid : ∑ i ∈ Finset.range p.threads.length, debt i = 0 := by
    apply Finset.sum_eq_zero
    intro i mem
    have here := List.getElem?_eq_getElem (Finset.mem_range.mp mem)
    exact (owing i _ _ here).of_ended (ended _ (List.getElem_mem _))
  rwa [paid, add_zero] at even

end

end Programs
