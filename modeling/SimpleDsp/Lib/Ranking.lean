import Mathlib.Data.List.Induction
import Mathlib.Data.List.Sort
import Mathlib.Order.Defs.LinearOrder

/-!
# The best of a list

`rank` sorts a list by a key, the highest first, and keeps the order of equal
keys. The best `n` can be kept in a row of `n` cells instead: `shift` goes
backwards through the row and moves what is lower than the new item one cell on.

* `best_concat`: the best `n` come from the best `n` so far and the next item;
* `Holds.shift`: the step of the row is that of `best`;
* `holds_fill`: a row filled item by item holds the best of those above the key of
  the empty cell.
-/

namespace Ranking

variable {α K : Type} [LinearOrder K] (key : α → K)

def rank (l : List α) : List α := l.insertionSort fun a b => key b ≤ key a

/-- Before the first item with a lower key. -/
def place (x : α) : List α → List α
  | [] => [x]
  | y :: l => if key y < key x then x :: y :: l else y :: place x l

def best (n : Nat) (l : List α) : List α := (rank key l).take n

variable {key}

/-- An earlier and a later item find the same places in either order. -/
theorem orderedInsert_place (x y : α) (l : List α) :
    (place key x l).orderedInsert (fun a b => key b ≤ key a) y =
      place key x (l.orderedInsert (fun a b => key b ≤ key a) y) := by
  induction l with
  | nil =>
    by_cases h : key x ≤ key y
    · simp [place, List.orderedInsert, h, not_lt.mpr h]
    · simp [place, List.orderedInsert, h, not_le.mp h]
  | cons s l ih =>
    by_cases sx : key s < key x
    · by_cases sy : key s ≤ key y
      · by_cases xy : key x ≤ key y
        · simp [place, List.orderedInsert, sx, sy, xy, not_lt.mpr xy]
        · simp [place, List.orderedInsert, sx, sy, xy, not_le.mp xy]
      · have xy : ¬key x ≤ key y := fun h => sy (le_of_lt (lt_of_lt_of_le sx h))
        simp [place, List.orderedInsert, sx, sy, xy]
    · by_cases sy : key s ≤ key y
      · have yx : ¬key y < key x := not_lt.mpr (le_trans (not_lt.mp sx) sy)
        simp [place, List.orderedInsert, sx, sy, yx]
      · simp [place, List.orderedInsert, sx, sy, ih]

theorem rank_concat (l : List α) (x : α) : rank key (l ++ [x]) = place key x (rank key l) := by
  induction l with
  | nil => rfl
  | cons y l ih =>
    simp only [rank, List.cons_append, List.insertionSort_cons] at ih ⊢
    rw [ih, orderedInsert_place]

theorem take_place (n : Nat) (x : α) (l : List α) :
    (place key x (l.take n)).take n = (place key x l).take n := by
  induction l generalizing n with
  | nil => simp
  | cons y l ih =>
    cases n with
    | zero => simp
    | succ n =>
      simp only [List.take_succ_cons, place]
      split
      · cases n with
        | zero => simp
        | succ n => simp [List.take_take]
      · simp [ih]

theorem best_concat (n : Nat) (l : List α) (x : α) :
    best key n (l ++ [x]) = (place key x (best key n l)).take n := by
  rw [best, best, rank_concat, take_place]

theorem rank_sorted (l : List α) : (rank key l).Pairwise fun a b => key b ≤ key a := by
  have total : Std.Total fun a b : α => key b ≤ key a := ⟨fun a b => le_total (key b) (key a)⟩
  have trans : IsTrans α fun a b => key b ≤ key a := ⟨fun _ _ _ h h' => le_trans h' h⟩
  exact List.pairwise_insertionSort _ l

theorem best_sorted (n : Nat) (l : List α) :
    (best key n l).Pairwise fun a b => key b ≤ key a :=
  (rank_sorted l).sublist (List.take_sublist n _)

theorem mem_of_mem_best {n : Nat} {l : List α} {x : α} (h : x ∈ best key n l) : x ∈ l :=
  (List.perm_insertionSort _ l).mem_iff.mp (List.mem_of_mem_take h)

/-! ## A row of cells -/

section
variable {n : Nat} (key)

/-- The cells from `j` downwards; what is lower than `x` moves one cell on and
falls out at the end. -/
def shift (x : α) : (j : Nat) → j ≤ n → (Fin n → α) → Fin n → α
  | 0, _, c => c
  | j + 1, h, c =>
    if key (c ⟨j, h⟩) < key x then
      let moved := if h' : j + 1 < n then Function.update c ⟨j + 1, h'⟩ (c ⟨j, h⟩) else c
      shift x j (Nat.le_of_succ_le h) (Function.update moved ⟨j, h⟩ x)
    else c

/-- The items put one after the other into cells that hold `z`. -/
def fill (n : Nat) (z : α) (l : List α) : Fin n → α :=
  l.foldl (fun c x => shift key x n (Nat.le_refl n) c) fun _ => z

variable {key}

/-- The row with the cell `j` opened for `x`. -/
def opened (x : α) (j : Nat) (c : Fin n → α) : Fin n → α := fun i =>
  if i.val < j then c i
  else if i.val = j then x
  else c ⟨i.val - 1, by omega⟩

theorem opened_end (x : α) (c : Fin n → α) : opened x n c = c := by
  funext i
  simp [opened]

/-- One step of the loop: the item in cell `j` moves on and `x` takes its place. -/
theorem opened_step {x : α} {c : Fin n → α} {j : Nat} (hj : j < n) :
    Function.update
      (if h' : j + 1 < n then Function.update (opened x (j + 1) c) ⟨j + 1, h'⟩ (c ⟨j, hj⟩)
        else opened x (j + 1) c) ⟨j, hj⟩ x = opened x j c := by
  funext i
  by_cases at_j : i.val = j
  · obtain rfl : i = ⟨j, hj⟩ := Fin.ext at_j
    simp [opened]
  · rw [Function.update_of_ne fun same => at_j (congrArg Fin.val same)]
    split
    · rename_i room
      by_cases next : i.val = j + 1
      · obtain rfl : i = ⟨j + 1, room⟩ := Fin.ext next
        simp [opened]
      · rw [Function.update_of_ne fun same => next (congrArg Fin.val same)]
        have same : i.val < j + 1 ↔ i.val < j := by omega
        simp only [opened, same, at_j, next, if_false]
    · have before : i.val < j := by omega
      simp [opened, before, Nat.lt_succ_of_lt before]

/-- The loop leaves the row open at the first cell from which on all are lower. -/
theorem shift_opened (key : α → K) (x : α) (c : Fin n → α) (j : Nat) (hj : j ≤ n) :
    ∃ p, p ≤ j ∧ shift key x j hj (opened x j c) = opened x p c ∧
      (∀ i (hi : i < n), p ≤ i → i < j → key (c ⟨i, hi⟩) < key x) ∧
      ∀ i (hi : i < n), i + 1 = p → ¬key (c ⟨i, hi⟩) < key x := by
  induction j with
  | zero =>
    refine ⟨0, Nat.le_refl 0, rfl, ?_, ?_⟩
    · intro i _ _ lt
      omega
    · intro i _ e
      omega
  | succ j ih =>
    have here : opened x (j + 1) c ⟨j, hj⟩ = c ⟨j, hj⟩ := by simp [opened]
    by_cases low : key (c ⟨j, hj⟩) < key x
    · obtain ⟨p, hp, e, lower, stop⟩ := ih (Nat.le_of_succ_le hj)
      refine ⟨p, Nat.le_succ_of_le hp, ?_, ?_, stop⟩
      · rw [shift, here, if_pos low, ← e]
        exact congrArg _ (opened_step hj)
      · intro i hi ge lt
        by_cases at_j : i = j
        · subst at_j
          exact low
        · exact lower i hi ge (by omega)
    · refine ⟨j + 1, Nat.le_refl _, ?_, ?_, ?_⟩
      · rw [shift, here, if_neg low]
      · intro i _ ge lt
        omega
      · intro i hi e
        obtain rfl : i = j := by omega
        exact low

/-- The row holds the items of `l`, and `z` in the cells after them. -/
structure Holds (z : α) (c : Fin n → α) (l : List α) : Prop where
  fits : l.length ≤ n
  cell : ∀ i : Fin n, c i = l.getD i z

theorem holds_nil (z : α) : Holds z (fun _ : Fin n => z) [] :=
  ⟨Nat.zero_le n, fun _ => rfl⟩

theorem place_eq_insertIdx {x : α} {l : List α} {p : Nat} (hp : p ≤ l.length)
    (before : ∀ y ∈ l.take p, ¬key y < key x) (after : ∀ y ∈ l[p]?, key y < key x) :
    place key x l = l.insertIdx p x := by
  induction l generalizing p with
  | nil =>
    obtain rfl : p = 0 := Nat.le_zero.mp hp
    rfl
  | cons y l ih =>
    cases p with
    | zero =>
      have lower : key y < key x := after y rfl
      simp [place, lower]
    | succ p =>
      have higher : ¬key y < key x := before y (by simp)
      rw [place, if_neg higher, ih (Nat.le_of_succ_le_succ hp) _ _, List.insertIdx_succ_cons]
      · exact fun y' h => before y' (by simp [h])
      · exact fun y' h => after y' (by simpa using h)

theorem Holds.shift {z x : α} {c : Fin n → α} {l : List α} (holds : Holds z c l)
    (sorted : l.Pairwise fun a b => key b ≤ key a) (above : key z < key x) :
    Holds z (shift key x n (Nat.le_refl n) c) ((place key x l).take n) := by
  obtain ⟨p, hp, e, lower, stop⟩ := shift_opened key x c n (Nat.le_refl n)
  rw [opened_end] at e
  have fits := holds.fits
  have item {i : Nat} (hi : i < l.length) : c ⟨i, by omega⟩ = l[i] := by
    rw [holds.cell, List.getD_eq_getElem?_getD, List.getElem?_eq_getElem hi]
    rfl
  have inside : p ≤ l.length := by
    by_contra beyond
    have empty : c ⟨p - 1, by omega⟩ = z := by
      rw [holds.cell, List.getD_eq_getElem?_getD, List.getElem?_eq_none]
      · rfl
      · change l.length ≤ p - 1
        omega
    have high := stop (p - 1) (by omega) (by omega)
    rw [empty] at high
    exact high above
  have placed : place key x l = l.insertIdx p x := by
    apply place_eq_insertIdx inside
    · intro y hy
      obtain ⟨i, hi, rfl⟩ := List.mem_take_iff_getElem.mp hy
      have last : i = p - 1 ∨ i < p - 1 := by omega
      have top := stop (p - 1) (by omega) (by omega)
      rw [item (by omega : p - 1 < l.length)] at top
      obtain rfl | lt := last
      · exact top
      · have le := List.pairwise_iff_getElem.mp sorted i (p - 1) (by omega) (by omega) lt
        exact not_lt.mpr (le_trans (not_lt.mp top) le)
    · intro y hy
      obtain ⟨hi, rfl⟩ := List.getElem?_eq_some_iff.mp hy
      have low := lower p (by omega) (Nat.le_refl p) (by omega)
      rw [item hi] at low
      exact low
  constructor
  · exact List.length_take_le n _
  · intro i
    rw [e, placed, List.getD_eq_getElem?_getD, List.getElem?_take_of_lt i.isLt,
      List.getElem?_insertIdx]
    unfold opened
    by_cases before : i.val < p
    · rw [if_pos before, if_pos before, holds.cell, List.getD_eq_getElem?_getD]
    · rw [if_neg before, if_neg before]
      by_cases here : i.val = p
      · rw [if_pos here, if_pos here, if_pos (here ▸ inside)]
        rfl
      · rw [if_neg here, if_neg here, holds.cell, List.getD_eq_getElem?_getD]

/-- An item that is no higher than the last cell is turned away. -/
theorem shift_of_not_lt {x : α} {c : Fin n → α} (low : ∀ i, ¬key (c i) < key x) {j : Nat}
    (hj : j ≤ n) : shift key x j hj c = c := by
  cases j with
  | zero => rfl
  | succ j => rw [shift, if_neg (low _)]

theorem Holds.le_cell {z : α} {c : Fin n → α} {l : List α} (holds : Holds z c l)
    (above : ∀ y ∈ l, key z < key y) (i : Fin n) : key z ≤ key (c i) := by
  rw [holds.cell, List.getD_eq_getElem?_getD]
  by_cases inside : i.val < l.length
  · rw [List.getElem?_eq_getElem inside]
    exact le_of_lt (above _ (List.getElem_mem inside))
  · rw [List.getElem?_eq_none (not_lt.mp inside)]
    exact le_refl _

/-- A row filled one by one holds the best of the items above `z`. -/
theorem holds_fill (n : Nat) (z : α) (l : List α) :
    Holds z (fill key n z l) (best key n (l.filter fun y => key z < key y)) := by
  induction l using List.reverseRecOn with
  | nil => simpa [fill, best, rank] using holds_nil z
  | append_singleton l x ih =>
    have above : ∀ y ∈ best key n (l.filter fun y => key z < key y), key z < key y := by
      intro y hy
      have passed := (List.mem_filter.mp (mem_of_mem_best hy)).2
      simpa using passed
    have step : fill key n z (l ++ [x]) = Ranking.shift key x n (Nat.le_refl n) (fill key n z l) := by
      simp [fill]
    rw [step]
    by_cases high : key z < key x
    · have next := ih.shift (best_sorted n _) high
      rw [← best_concat] at next
      simpa [high] using next
    · have low : ∀ i, ¬key (fill key n z l i) < key x := fun i =>
        not_lt.mpr (le_trans (not_lt.mp high) (ih.le_cell above i))
      rw [shift_of_not_lt low]
      simpa [high] using ih

/-- Read up to the first empty cell, the row gives the items back. -/
theorem Holds.takeWhile {z : α} {c : Fin n → α} {l : List α} (holds : Holds z c l)
    {p : α → Bool} (full : ∀ y ∈ l, p y = true) (empty : p z = false) :
    (List.ofFn c).takeWhile p = l := by
  have fits := holds.fits
  have row : List.ofFn c = l ++ List.replicate (n - l.length) z := by
    apply List.ext_getElem
    · simp only [List.length_ofFn, List.length_append, List.length_replicate]
      omega
    · intro i hi _
      rw [List.getElem_ofFn, holds.cell, List.getD_eq_getElem?_getD]
      by_cases inside : i < l.length
      · rw [List.getElem_append_left inside, List.getElem?_eq_getElem inside]
        rfl
      · rw [List.getElem_append_right (not_lt.mp inside), List.getElem_replicate,
          List.getElem?_eq_none (not_lt.mp inside)]
        rfl
  rw [row, List.takeWhile_append_of_pos full]
  cases n - l.length with
  | zero => simp
  | succ k => simp [List.replicate_succ, empty]

end

end Ranking
