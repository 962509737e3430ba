import Mathlib.Data.List.Sort

/-!
# Intersection by merging

The intersection of two lists that walks through both at once and steps over the
smaller head. On lists that are not sorted it may miss members.

* `intersect_sublist`: what it finds is in both lists, in their order;
* `complete_iff`: it finds all exactly if the lists agree on the order of what they
  share, and nothing large stands before that;
* `agree_of_sorted`: sorted lists do.
-/

namespace Intersection

variable {α : Type} [DecidableEq α]

/-- The members of `as` that are in `bs`. -/
def shared (as bs : List α) : List α := as.filter (· ∈ bs)

section
variable [LT α]

/-- What is not shared is less than the next that is. -/
def Clear (bs : List α) : List α → Prop
  | [] => True
  | a :: as => (a ∉ bs → ∀ c ∈ (shared as bs).head?, a < c) ∧ Clear bs as

structure Agree (as bs : List α) : Prop where
  order : shared as bs = shared bs as
  left : Clear bs as
  right : Clear as bs

end

section
variable {a : α} {as bs bs' : List α}

theorem mem_shared {x : α} : x ∈ shared as bs ↔ x ∈ as ∧ x ∈ bs := by
  simp [shared]

theorem shared_cons_of_mem (h : a ∈ bs) : shared (a :: as) bs = a :: shared as bs :=
  List.filter_cons_of_pos (by simpa using h)

theorem shared_cons_of_notMem (h : a ∉ bs) : shared (a :: as) bs = shared as bs :=
  List.filter_cons_of_neg (by simpa using h)

theorem shared_congr (same : ∀ x ∈ as, x ∈ bs ↔ x ∈ bs') : shared as bs = shared as bs' :=
  List.filter_congr fun x hx => decide_eq_decide.mpr (same x hx)

omit [DecidableEq α] in
theorem mem_cons_iff_of_notMem (h : a ∉ bs) : ∀ x ∈ bs, x ∈ a :: as ↔ x ∈ as := by
  intro x hx
  have ne : x ≠ a := fun same => h (same ▸ hx)
  simp [ne]

theorem clear_congr [LT α] (same : ∀ x ∈ as, x ∈ bs ↔ x ∈ bs') : Clear bs as ↔ Clear bs' as := by
  induction as with
  | nil => exact Iff.rfl
  | cons a as ih =>
    have rest : ∀ x ∈ as, x ∈ bs ↔ x ∈ bs' := fun x hx => same x (List.mem_cons_of_mem _ hx)
    rw [Clear, Clear, shared_congr rest, ih rest, same a (List.mem_cons_self ..)]

theorem clear_of_sorted [LT α] (sorted : as.Pairwise (· < ·)) (bs : List α) : Clear bs as := by
  induction as with
  | nil => trivial
  | cons a as ih =>
    obtain ⟨least, sorted⟩ := List.pairwise_cons.mp sorted
    refine ⟨fun _ c hc => least c ?_, ih sorted⟩
    exact (mem_shared.mp (List.mem_of_mem_head? hc)).1

theorem Agree.symm [LT α] (h : Agree as bs) : Agree bs as := ⟨h.order.symm, h.right, h.left⟩

theorem agree_comm [LT α] : Agree as bs ↔ Agree bs as := ⟨Agree.symm, Agree.symm⟩

theorem agree_nil [LT α] (bs : List α) : Agree [] bs := by
  have none (as : List α) : shared as [] = [] := by simp [shared]
  refine ⟨(none bs).symm, trivial, ?_⟩
  induction bs with
  | nil => trivial
  | cons b bs ih => exact ⟨fun _ c hc => by simp [none] at hc, ih⟩

end

section
variable [LE α] [LT α] [Std.IsLinearOrder α] [Std.LawfulOrderLT α] {a b : α} {as bs : List α}

omit [DecidableEq α] in
theorem eq_of_not_lt (h : ¬a < b) (h' : ¬b < a) : a = b := by
  rcases Std.lt_trichotomy a b with less | same | greater
  · exact absurd less h
  · exact same
  · exact absurd greater h'

/-- Stepping over `a` loses nothing if `a` is not shared. -/
theorem agree_step (less : a < b) :
    Agree (a :: as) (b :: bs) ↔ a ∉ b :: bs ∧ Agree as (b :: bs) := by
  have ne : a ≠ b := Std.ne_of_lt less
  constructor
  · rintro ⟨order, left, right⟩
    have alone : a ∉ b :: bs := by
      intro member
      rw [shared_cons_of_mem member] at order
      by_cases first : b ∈ a :: as
      · rw [shared_cons_of_mem first] at order
        exact ne (List.cons.inj order).1
      · rw [shared_cons_of_notMem first] at order
        have greater : b < a := right.1 first a (by rw [← order]; rfl)
        exact Std.not_gt_of_lt less greater
    have same : ∀ x ∈ b :: bs, x ∈ a :: as ↔ x ∈ as := mem_cons_iff_of_notMem alone
    rw [shared_cons_of_notMem alone, shared_congr same] at order
    exact ⟨alone, order, left.2, (clear_congr same).mp right⟩
  · rintro ⟨alone, order, left, right⟩
    have same : ∀ x ∈ b :: bs, x ∈ a :: as ↔ x ∈ as := mem_cons_iff_of_notMem alone
    refine ⟨?_, ⟨fun _ c hc => ?_, left⟩, (clear_congr same).mpr right⟩
    · rw [shared_cons_of_notMem alone, shared_congr same, order]
    · rw [order] at hc
      by_cases first : b ∈ as
      · rw [shared_cons_of_mem first] at hc
        obtain rfl : b = c := by simpa using hc
        exact less
      · rw [shared_cons_of_notMem first] at hc
        exact Std.lt_trans less (right.1 first c hc)

omit [LE α] [Std.IsLinearOrder α] [Std.LawfulOrderLT α] in
theorem agree_cons (fresh : a ∉ as) (fresh' : a ∉ bs) :
    Agree (a :: as) (a :: bs) ↔ Agree as bs := by
  have same : ∀ x ∈ as, x ∈ a :: bs ↔ x ∈ bs := mem_cons_iff_of_notMem fresh
  have same' : ∀ x ∈ bs, x ∈ a :: as ↔ x ∈ as := mem_cons_iff_of_notMem fresh'
  have head : a ∈ a :: bs := List.mem_cons_self ..
  have head' : a ∈ a :: as := List.mem_cons_self ..
  constructor
  · rintro ⟨order, left, right⟩
    rw [shared_cons_of_mem head, shared_cons_of_mem head', shared_congr same,
      shared_congr same'] at order
    exact ⟨(List.cons.inj order).2, (clear_congr same).mp left.2, (clear_congr same').mp right.2⟩
  · rintro ⟨order, left, right⟩
    refine ⟨?_, ⟨fun other => absurd head other, (clear_congr same).mpr left⟩,
      fun other => absurd head' other, (clear_congr same').mpr right⟩
    rw [shared_cons_of_mem head, shared_cons_of_mem head', shared_congr same, shared_congr same',
      order]

theorem agree_of_sorted (sorted : as.Pairwise (· < ·)) (sorted' : bs.Pairwise (· < ·)) :
    Agree as bs := by
  refine ⟨?_, clear_of_sorted sorted bs, clear_of_sorted sorted' as⟩
  apply List.Pairwise.eq_of_mem_iff (sorted.filter _) (sorted'.filter _)
  intro x
  exact mem_shared.trans (and_comm.trans mem_shared.symm)

end

/-! ## The walk -/

section
variable [LT α] [DecidableLT α]

def intersect : List α → List α → List α
  | [], _ => []
  | _ :: _, [] => []
  | a :: as, b :: bs =>
    if a < b then intersect as (b :: bs)
    else if b < a then intersect (a :: as) bs
    else a :: intersect as bs
termination_by as bs => as.length + bs.length

def Complete (as bs : List α) : Prop := ∀ c ∈ as, c ∈ bs → c ∈ intersect as bs

end

section
variable [LE α] [LT α] [DecidableLT α] [Std.IsLinearOrder α] [Std.LawfulOrderLT α]
  {as bs : List α}

omit [DecidableEq α] in
theorem intersect_sublist (as bs : List α) :
    (intersect as bs).Sublist as ∧ (intersect as bs).Sublist bs := by
  fun_induction intersect as bs with
  | case1 bs => exact ⟨List.Sublist.refl _, List.nil_sublist _⟩
  | case2 a as => exact ⟨List.nil_sublist _, List.Sublist.refl _⟩
  | case3 a as b bs less ih => exact ⟨ih.1.cons a, ih.2⟩
  | case4 a as b bs _ less ih => exact ⟨ih.1, ih.2.cons b⟩
  | case5 a as b bs less greater ih =>
    rw [← eq_of_not_lt less greater]
    exact ⟨ih.1.cons_cons a, ih.2.cons_cons a⟩

/-- The walk finds all that is shared exactly if the lists agree. -/
theorem complete_iff (nodup : as.Nodup) (nodup' : bs.Nodup) :
    Complete as bs ↔ Agree as bs := by
  unfold Complete
  fun_induction intersect as bs with
  | case1 bs =>
    constructor
    · intro _
      exact agree_nil bs
    · intro _ c hc
      cases hc
  | case2 a as =>
    constructor
    · intro _
      exact (agree_nil (a :: as)).symm
    · intro _ c _ hc
      cases hc
  | case3 a as b bs less ih =>
    obtain ⟨fresh, nodup⟩ := List.nodup_cons.mp nodup
    rw [agree_step less, ← ih nodup nodup']
    constructor
    · intro complete
      refine ⟨fun member => ?_, fun c hc => complete c (List.mem_cons_of_mem _ hc)⟩
      have found := complete a (List.mem_cons_self ..) member
      exact fresh ((intersect_sublist as (b :: bs)).1.subset found)
    · rintro ⟨alone, complete⟩ c hc member
      rcases List.mem_cons.mp hc with rfl | hc
      · exact absurd member alone
      · exact complete c hc member
  | case4 a as b bs _ less ih =>
    obtain ⟨fresh, nodup'⟩ := List.nodup_cons.mp nodup'
    rw [agree_comm, agree_step less, agree_comm, ← ih nodup nodup']
    constructor
    · intro complete
      refine ⟨fun member => ?_, fun c hc hc' => complete c hc (List.mem_cons_of_mem _ hc')⟩
      have found := complete b member (List.mem_cons_self ..)
      exact fresh ((intersect_sublist (a :: as) bs).2.subset found)
    · rintro ⟨alone, complete⟩ c hc member
      rcases List.mem_cons.mp member with rfl | hc'
      · exact absurd hc alone
      · exact complete c hc hc'
  | case5 a as b bs less greater ih =>
    obtain rfl := eq_of_not_lt less greater
    obtain ⟨fresh, nodup⟩ := List.nodup_cons.mp nodup
    obtain ⟨fresh', nodup'⟩ := List.nodup_cons.mp nodup'
    rw [agree_cons fresh fresh', ← ih nodup nodup']
    constructor
    · intro complete c hc hc'
      have found := complete c (List.mem_cons_of_mem _ hc) (List.mem_cons_of_mem _ hc')
      rcases List.mem_cons.mp found with rfl | found
      · exact absurd hc fresh
      · exact found
    · intro complete c hc hc'
      rcases List.mem_cons.mp hc with rfl | hc
      · exact List.mem_cons_self ..
      · have ne : c ≠ a := fun same => fresh (same ▸ hc)
        exact List.mem_cons_of_mem _ (complete c hc (List.mem_of_ne_of_mem ne hc'))

end

end Intersection
