/-!
# Visits

A log of sightings, the latest first. A sighting that comes more than `gap`
after the one before it of the same visitor starts a visit. A recorder keeps for
each visitor the time of the last sighting that started a visit, except that it
takes some sightings down `unchecked`.

`recorded_eq_iff`: what the recorder keeps is the start of the current visit
exactly when no unchecked sighting is later than that.
-/

namespace Visits

structure Seen (α : Type) where
  who : α
  time : Int
  unchecked : Bool

variable {α : Type} [DecidableEq α] (gap : Int) (who : α)

def lastSeen : List (Seen α) → Option Int
  | [] => none
  | s :: earlier => if s.who = who then some s.time else lastSeen earlier

/-- The first sighting starts a visit too. -/
def Starts (s : Seen α) (earlier : List (Seen α)) : Prop :=
  ∀ t ∈ lastSeen s.who earlier, gap < s.time - t

instance (s : Seen α) (earlier : List (Seen α)) : Decidable (Starts gap s earlier) := by
  unfold Starts
  infer_instance

/-- The time of the latest sighting that started a visit. -/
def visitStart : List (Seen α) → Option Int
  | [] => none
  | s :: earlier => if s.who = who ∧ Starts gap s earlier then some s.time else visitStart earlier

def recorded : List (Seen α) → Option Int
  | [] => none
  | s :: earlier =>
    if s.who = who ∧ (s.unchecked = true ∨ Starts gap s earlier) then some s.time
    else recorded earlier

/-- Later sightings have later times. -/
def Rising (log : List (Seen α)) : Prop := log.Pairwise fun s earlier => earlier.time ≤ s.time

instance (log : List (Seen α)) : Decidable (Rising log) :=
  inferInstanceAs (Decidable (log.Pairwise _))

variable {gap who} {log : List (Seen α)}

theorem visitStart_mem {t : Int} (h : visitStart gap who log = some t) :
    ∃ s ∈ log, s.who = who ∧ s.time = t := by
  induction log with
  | nil => cases h
  | cons s earlier ih =>
    unfold visitStart at h
    split at h
    · rename_i starts
      exact ⟨s, by simp, starts.1, Option.some.inj h⟩
    · obtain ⟨s', hs', e⟩ := ih h
      exact ⟨s', by simp [hs'], e⟩

theorem visitStart_none (h : visitStart gap who log = none) : lastSeen who log = none := by
  induction log with
  | nil => rfl
  | cons s earlier ih =>
    unfold visitStart at h
    split at h
    · cases h
    · rename_i no
      have before := ih h
      unfold lastSeen
      split
      · rename_i same
        subst same
        refine absurd ⟨rfl, ?_⟩ no
        intro t ht
        simp [before] at ht
      · exact before

theorem visitStart_of_absent (h : ∀ s ∈ log, s.who ≠ who) : visitStart gap who log = none := by
  cases start : visitStart gap who log with
  | none => rfl
  | some t =>
    obtain ⟨s, hs, mine, -⟩ := visitStart_mem start
    exact absurd mine (h s hs)

theorem recorded_of_absent (h : ∀ s ∈ log, s.who ≠ who) : recorded gap who log = none := by
  induction log with
  | nil => rfl
  | cons s earlier ih =>
    have other : s.who ≠ who := h s (by simp)
    simp only [recorded, other, false_and, ↓reduceIte]
    exact ih fun s' hs' => h s' (by simp [hs'])

/-- An unchecked sighting is recorded, so what is recorded is no earlier. -/
theorem recorded_of_unchecked (rising : Rising log) {s : Seen α} (hs : s ∈ log)
    (mine : s.who = who) (unchecked : s.unchecked = true) :
    ∃ t, recorded gap who log = some t ∧ s.time ≤ t := by
  induction log with
  | nil => cases hs
  | cons l earlier ih =>
    obtain ⟨before, rising⟩ := List.pairwise_cons.mp rising
    unfold recorded
    split
    · refine ⟨l.time, rfl, ?_⟩
      rcases List.mem_cons.mp hs with rfl | hs
      · exact Int.le_refl _
      · exact before s hs
    · rename_i no
      rcases List.mem_cons.mp hs with rfl | hs
      · exact absurd ⟨mine, Or.inl unchecked⟩ no
      · exact ih rising hs

/-- The recorder keeps the start of the current visit, unless an unchecked
sighting has come later. -/
theorem recorded_eq_iff (rising : Rising log) : recorded gap who log = visitStart gap who log ↔
    ∀ s ∈ log, s.who = who → s.unchecked = true → ∀ t ∈ visitStart gap who log, s.time ≤ t := by
  constructor
  · intro same s hs mine unchecked t ht
    have kept : ∃ t, recorded gap who log = some t ∧ s.time ≤ t :=
      recorded_of_unchecked rising hs mine unchecked
    obtain ⟨t', kept, le⟩ := kept
    rw [same, ht] at kept
    cases kept
    exact le
  · intro none_later
    induction log with
    | nil => rfl
    | cons l earlier ih =>
      obtain ⟨before, rising⟩ := List.pairwise_cons.mp rising
      by_cases mine : l.who = who
      · by_cases starts : Starts gap l earlier
        · simp [recorded, visitStart, mine, starts]
        · have same : visitStart gap who (l :: earlier) = visitStart gap who earlier := by
            simp [visitStart, starts]
          rw [same] at none_later ⊢
          by_cases unchecked : l.unchecked = true
          · -- The sighting is recorded, so it must have the time of the start.
            have here : recorded gap who (l :: earlier) = some l.time := by
              simp [recorded, mine, unchecked]
            rw [here]
            cases start : visitStart gap who earlier with
            | none =>
              refine absurd ?_ starts
              intro t ht
              rw [mine, visitStart_none start] at ht
              cases ht
            | some t =>
              obtain ⟨s, hs, -, rfl⟩ := visitStart_mem start
              have le := none_later l (by simp) mine unchecked _ start
              have ge := before s hs
              rw [Int.le_antisymm le ge]
          · have skip : recorded gap who (l :: earlier) = recorded gap who earlier := by
              simp [recorded, starts, unchecked]
            rw [skip]
            exact ih rising fun s hs => none_later s (by simp [hs])
      · have same : visitStart gap who (l :: earlier) = visitStart gap who earlier := by
          simp [visitStart, mine]
        have skip : recorded gap who (l :: earlier) = recorded gap who earlier := by
          simp [recorded, mine]
        rw [same] at none_later ⊢
        rw [skip]
        exact ih rising fun s hs => none_later s (by simp [hs])

theorem lastSeen_ne_none {s : Seen α} (hs : s ∈ log) (mine : s.who = who) :
    lastSeen who log ≠ none := by
  induction log with
  | nil => cases hs
  | cons l earlier ih =>
    unfold lastSeen
    split
    · simp
    · rename_i other
      rcases List.mem_cons.mp hs with rfl | hs
      · exact absurd mine other
      · exact ih hs

/-! ## One more sighting -/

theorem lastSeen_mem {t : Int} (h : lastSeen who log = some t) :
    ∃ s ∈ log, s.who = who ∧ s.time = t := by
  induction log with
  | nil => cases h
  | cons s earlier ih =>
    unfold lastSeen at h
    split at h
    · exact ⟨s, by simp, ‹_›, Option.some.inj h⟩
    · obtain ⟨s', hs', e⟩ := ih h
      exact ⟨s', by simp [hs'], e⟩

variable (gap) in
/-- `log'` is `log` with a sighting of `who` at `now`, which starts a visit if
`starts`. -/
structure Sighted (who : α) (now : Int) (starts : Prop) [Decidable starts]
    (log log' : List (Seen α)) : Prop where
  last : lastSeen who log' = some now
  start : visitStart gap who log' = if starts then some now else visitStart gap who log
  lasts : ∀ other, other ≠ who → lastSeen other log' = lastSeen other log
  starts : ∀ other, other ≠ who → visitStart gap other log' = visitStart gap other log
  names : ∀ s ∈ log', s ∈ log ∨ s.who = who

theorem sighted_cons {now : Int} {unchecked : Bool} {starts : Prop} [Decidable starts]
    (h : starts ↔ Starts gap ⟨who, now, unchecked⟩ log) :
    Sighted gap who now starts log (⟨who, now, unchecked⟩ :: log) where
  last := by simp [lastSeen]
  start := by simp [visitStart, h]
  lasts other ne := by simp [lastSeen, Ne.symm ne]
  starts other ne := by simp [visitStart, Ne.symm ne]
  names s hs := by
    rcases List.mem_cons.mp hs with rfl | hs
    · exact Or.inr rfl
    · exact Or.inl hs

/-- With a negative gap every sighting starts a visit. -/
theorem visitStart_of_neg (neg : gap < 0) (rising : Rising log) :
    visitStart gap who log = lastSeen who log := by
  induction log with
  | nil => rfl
  | cons s earlier ih =>
    obtain ⟨before, rising⟩ := List.pairwise_cons.mp rising
    by_cases mine : s.who = who
    · have starts : Starts gap s earlier := by
        intro t ht
        obtain ⟨s', hs', -, rfl⟩ := lastSeen_mem ht
        have le := before s' hs'
        omega
      simp [visitStart, lastSeen, mine, starts]
    · simp [visitStart, lastSeen, mine, ih rising]

/-- A sighting at the time of the last one changes nothing. -/
theorem sighted_again {now : Int} {starts : Prop} [Decidable starts] (h : starts ↔ gap < 0)
    (rising : Rising log) (last : lastSeen who log = some now) :
    Sighted gap who now starts log log where
  last := last
  start := by
    split
    · rename_i yes
      rw [visitStart_of_neg (h.mp yes) rising, last]
    · rfl
  lasts _ _ := rfl
  starts _ _ := rfl
  names _ hs := Or.inl hs

end Visits
