import Mathlib.Data.List.GetD
import Mathlib.Data.Set.Insert
import Mathlib.Logic.Function.Basic
import Mathlib.Algebra.Ring.Int.Defs
import Mathlib.Algebra.BigOperators.Group.List.Basic

/-!
# Records

A store keeps values, counters, sets, sets with scores and texts in fields, each under
its key. Whoever performs the operations, they come one after the other, and what a
record holds can be read off the operations on it:

* `value_run`, `score_run`, `field_run`: the last value set, the last score given and the
  last text put into a field;
* `mem_run`: a set has what was added to it;
* `counter_run`, `tally_eq_sum`: a counter is the sum of what was counted, as long
  as it has room.
-/

namespace Records

/-- What can be done to a record. -/
inductive Op (K V M S : Type)
  | set (k : K) (v : V)
  | count (k : K) (n : Int)
  | add (k : K) (m : M)
  | rank (k : K) (m : M) (s : S)
  | put (k : K) (f v : M)

structure Store (K V M S : Type) where
  value : K → Option V
  counter : K → Int
  members : K → Set M
  score : K → M → Option S
  field : K → M → Option M

variable {K V M S T : Type} [DecidableEq K] [DecidableEq M]

def Store.empty : Store K V M S :=
  ⟨fun _ => none, fun _ => 0, fun _ => ∅, fun _ _ => none, fun _ _ => none⟩

/-- What is given to a member under a key. -/
def giveAt (g : K → M → Option T) (k : K) (m : M) (t : T) : K → M → Option T :=
  Function.update g k (Function.update (g k) m (some t))

theorem giveAt_apply (g : K → M → Option T) (k k' : K) (m m' : M) (t : T) :
    giveAt g k' m' t k m = (if k' = k ∧ m' = m then some t else none).or (g k m) := by
  unfold giveAt
  by_cases key : k = k'
  · subst key
    by_cases same : m = m'
    · subst same
      simp
    · simp [same, Ne.symm same]
  · simp [key, Ne.symm key]

section
variable (fits : Int → Prop) [DecidablePred fits]

/-- A counter that has no room stays. -/
def countUp (c n : Int) : Int := if fits (c + n) then c + n else c

def tally (c : Int) (ns : List Int) : Int := ns.foldl (countUp fits) c

def Store.act (a : Store K V M S) : Op K V M S → Store K V M S
  | .set k v => { a with value := Function.update a.value k (some v) }
  | .count k n => { a with counter := Function.update a.counter k (countUp fits (a.counter k) n) }
  | .add k m => { a with members := Function.update a.members k (insert m (a.members k)) }
  | .rank k m s => { a with score := giveAt a.score k m s }
  | .put k f v => { a with field := giveAt a.field k f v }

def Store.run (a : Store K V M S) (ops : List (Op K V M S)) : Store K V M S :=
  ops.foldl (Store.act fits) a

end

/-! ## The operations on one record -/

def Op.key : Op K V M S → K
  | .set k _ => k
  | .count k _ => k
  | .add k _ => k
  | .rank k _ _ => k
  | .put k _ _ => k

/-- Two stores have the same record under a key. -/
structure SameAt (k : K) (a b : Store K V M S) : Prop where
  value : a.value k = b.value k
  counter : a.counter k = b.counter k
  members : a.members k = b.members k
  score : a.score k = b.score k
  field : a.field k = b.field k

theorem act_frame (fits : Int → Prop) [DecidablePred fits] {o : Op K V M S} {k : K} (h : k ≠ o.key)
    (a : Store K V M S) : SameAt k (a.act fits o) a := by
  cases o with
  | set | count | add | rank | put => constructor <;> first | rfl | exact Function.update_of_ne h _ _

def Op.valueFor (k : K) : Op K V M S → Option V
  | .set k' v => if k' = k then some v else none
  | _ => none

def Op.countFor (k : K) : Op K V M S → Option Int
  | .count k' n => if k' = k then some n else none
  | _ => none

def Op.scoreFor (k : K) (m : M) : Op K V M S → Option S
  | .rank k' m' s => if k' = k ∧ m' = m then some s else none
  | _ => none

def Op.fieldFor (k : K) (f : M) : Op K V M S → Option M
  | .put k' f' v => if k' = k ∧ f' = f then some v else none
  | _ => none

def Op.amount : Op K V M S → Option Int
  | .count _ n => some n
  | _ => none

omit [DecidableEq M] in
/-- What is added to one counter is part of what is added to all. -/
theorem countFor_sublist (k : K) (ops : List (Op K V M S)) :
    (ops.filterMap (Op.countFor k)).Sublist (ops.filterMap Op.amount) := by
  induction ops with
  | nil => exact List.Sublist.slnil
  | cons o ops ih =>
    cases o with
    | count k' n =>
      by_cases same : k' = k
      · simpa [Op.countFor, Op.amount, same] using ih
      · simpa [Op.countFor, Op.amount, same] using ih.cons n
    | set | add | rank | put => exact ih

section
variable {fits : Int → Prop} [DecidablePred fits]

/-- The later of two. -/
theorem getLast_or {α : Type} (xs : List α) (x y : Option α) :
    (x.toList ++ xs).getLast?.or y = xs.getLast?.or (x.or y) := by
  cases h : xs.getLast? with
  | none =>
    rw [List.getLast?_eq_none_iff] at h
    subst h
    cases x <;> rfl
  | some z => cases x <;> simp [h, List.getLast?_cons]

theorem filterMap_cons_toList {α β : Type} (f : α → Option β) (a : α) (l : List α) :
    (a :: l).filterMap f = (f a).toList ++ l.filterMap f := by
  cases h : f a <;> simp [h]

theorem tally_append (c : Int) (ms ns : List Int) :
    tally fits c (ms ++ ns) = tally fits (tally fits c ms) ns := List.foldl_append

theorem run_append (a : Store K V M S) (ops ops' : List (Op K V M S)) :
    a.run fits (ops ++ ops') = (a.run fits ops).run fits ops' := List.foldl_append

variable (fits) in
theorem value_act (a : Store K V M S) (o : Op K V M S) (k : K) :
    (a.act fits o).value k = (o.valueFor k).or (a.value k) := by
  cases o with
  | set k' v =>
    by_cases same : k = k'
    · subst same
      simp [Store.act, Op.valueFor]
    · simp [Store.act, Op.valueFor, same, Ne.symm same]
  | count | add | rank | put => rfl

theorem counter_act (a : Store K V M S) (o : Op K V M S) (k : K) :
    (a.act fits o).counter k = tally fits (a.counter k) (o.countFor k).toList := by
  cases o with
  | count k' n =>
    by_cases same : k = k'
    · subst same
      simp [Store.act, Op.countFor, tally]
    · simp [Store.act, Op.countFor, tally, same, Ne.symm same]
  | set | add | rank | put => rfl

variable (fits) in
theorem score_act (a : Store K V M S) (o : Op K V M S) (k : K) (m : M) :
    (a.act fits o).score k m = (o.scoreFor k m).or (a.score k m) := by
  cases o with
  | rank k' m' s => exact giveAt_apply ..
  | set | count | add | put => rfl

variable (fits) in
theorem field_act (a : Store K V M S) (o : Op K V M S) (k : K) (f : M) :
    (a.act fits o).field k f = (o.fieldFor k f).or (a.field k f) := by
  cases o with
  | put k' f' v => exact giveAt_apply ..
  | set | count | add | rank => rfl

theorem mem_act (a : Store K V M S) (o : Op K V M S) (k : K) (m : M) :
    m ∈ (a.act fits o).members k ↔ o = .add k m ∨ m ∈ a.members k := by
  cases o with
  | add k' m' =>
    by_cases same : k = k'
    · subst same
      simp [Store.act, eq_comm]
    · simp [Store.act, same, Ne.symm same]
  | set | count | rank | put => simp [Store.act]

/-- What each operation replaces or leaves is what the last one that replaces it has left. -/
theorem last_run (get : Store K V M S → Option T) {given : Op K V M S → Option T}
    (act : ∀ a o, get (a.act fits o) = (given o).or (get a)) (a : Store K V M S)
    (ops : List (Op K V M S)) :
    get (a.run fits ops) = (ops.filterMap given).getLast?.or (get a) := by
  induction ops generalizing a with
  | nil => rfl
  | cons o ops ih =>
    rw [filterMap_cons_toList, getLast_or, ← act]
    exact ih (a.act fits o)

theorem value_run (a : Store K V M S) (ops : List (Op K V M S)) (k : K) :
    (a.run fits ops).value k = (ops.filterMap (Op.valueFor k)).getLast?.or (a.value k) :=
  last_run (·.value k) (fun a o => value_act fits a o k) a ops

theorem score_run (a : Store K V M S) (ops : List (Op K V M S)) (k : K) (m : M) :
    (a.run fits ops).score k m = (ops.filterMap (Op.scoreFor k m)).getLast?.or (a.score k m) :=
  last_run (·.score k m) (fun a o => score_act fits a o k m) a ops

theorem field_run (a : Store K V M S) (ops : List (Op K V M S)) (k : K) (f : M) :
    (a.run fits ops).field k f = (ops.filterMap (Op.fieldFor k f)).getLast?.or (a.field k f) :=
  last_run (·.field k f) (fun a o => field_act fits a o k f) a ops

theorem counter_run (a : Store K V M S) (ops : List (Op K V M S)) (k : K) :
    (a.run fits ops).counter k = tally fits (a.counter k) (ops.filterMap (Op.countFor k)) := by
  induction ops generalizing a with
  | nil => rfl
  | cons o ops ih =>
    rw [filterMap_cons_toList, tally_append, ← counter_act]
    exact ih (a.act fits o)

theorem mem_run (a : Store K V M S) (ops : List (Op K V M S)) (k : K) (m : M) :
    m ∈ (a.run fits ops).members k ↔ .add k m ∈ ops ∨ m ∈ a.members k := by
  induction ops generalizing a with
  | nil => simp [Store.run]
  | cons o ops ih =>
    have later := ih (a.act fits o)
    rw [mem_act] at later
    rw [List.mem_cons, eq_comm, or_comm (a := o = _), or_assoc]
    exact later

/-- While there is room for every sum on the way, nothing is left out. -/
theorem tally_eq_sum {c : Int} {ns : List Int} (room : ∀ ms, ms <+: ns → fits (c + ms.sum)) :
    tally fits c ns = c + ns.sum := by
  induction ns generalizing c with
  | nil => simp [tally]
  | cons n ns ih =>
    have first : countUp fits c n = c + n := by
      have fit := room [n] ⟨ns, rfl⟩
      rw [List.sum_singleton] at fit
      exact if_pos fit
    have rest : ∀ ms, ms <+: ns → fits (c + n + ms.sum) := by
      intro ms before
      have fit := room (n :: ms) (List.cons_prefix_cons.mpr ⟨rfl, before⟩)
      rwa [List.sum_cons, ← Int.add_assoc] at fit
    rw [tally, List.foldl_cons, first, ← tally, ih rest, List.sum_cons, Int.add_assoc]

/-- A counter that has room keeps it. -/
theorem fits_countUp {c : Int} (h : fits c) (n : Int) : fits (countUp fits c n) := by
  unfold countUp
  split
  · assumption
  · exact h

end

end Records
