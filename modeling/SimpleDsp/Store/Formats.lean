import SimpleDsp.Store.Redis

/-!
# Texts as formats

What hiredis makes of a text in which no conversion is missing its argument.

* `Reads t ps`: the pieces of such a text; `reads_or_stray`: any other text has a
  first stray conversion;
* `length_le_of_mem_gather`: arguments are no longer than the text they come from.
-/

namespace SimpleDsp

open DecimalText

/-! ## Pieces of a text without stray conversions -/

inductive Reads : Text → List (Option Text) → Prop
  | nil : Reads [] []
  | blank {t : Text} {ps : List (Option Text)} (h : Reads t ps) : Reads (' ' :: t) (none :: ps)
  | percent {t : Text} {ps : List (Option Text)} (h : Reads t ps) :
    Reads ('%' :: '%' :: t) (some ['%'] :: ps)
  | char {c : Char} {t : Text} {ps : List (Option Text)} (hc : c ≠ ' ' ∧ c ≠ '%' ∧ c ≠ nul)
    (h : Reads t ps) : Reads (c :: t) (some [c] :: ps)

theorem pieces_blank (stray : Text → Option (Text × Nat)) (t : Text) :
    pieces stray 0 (' ' :: t) = (pieces stray 0 t).map (none :: ·) := by
  simp [pieces, show ' ' ≠ nul by decide]

theorem pieces_percent (stray : Text → Option (Text × Nat)) (t : Text) :
    pieces stray 0 ('%' :: '%' :: t) = (pieces stray 0 t).map (some ['%'] :: ·) := by
  simp [pieces, cString, show '%' ≠ nul by decide, show '%' ≠ ' ' by decide]

theorem pieces_char (stray : Text → Option (Text × Nat)) {c : Char}
    (hc : c ≠ ' ' ∧ c ≠ '%' ∧ c ≠ nul) (t : Text) :
    pieces stray 0 (c :: t) = (pieces stray 0 t).map (some [c] :: ·) := by
  simp [pieces, hc.1, hc.2.1, hc.2.2]

theorem pieces_stray (stray : Text → Option (Text × Nat)) {t : Text} (some : cString t ≠ [])
    (head : t.head? ≠ Option.some '%') : pieces stray 0 ('%' :: t) =
      (stray t).bind fun e => (pieces stray e.2 t).map (Option.some e.1 :: ·) := by
  simp [pieces, some, head, show '%' ≠ nul by decide, show '%' ≠ ' ' by decide]

theorem pieces_skip (stray : Text → Option (Text × Nat)) (v t : Text) :
    pieces stray v.length (v ++ t) = pieces stray 0 t := by
  induction v with
  | nil => rfl
  | cons c v ih => simpa [pieces] using ih

/-- Where no conversion has an argument, a stray one ends the command. -/
theorem pieces_none {v : Text} (zero : nul ∉ v) (head : v.head? ≠ some '%') (t : Text) :
    pieces (fun _ => none) 0 ('%' :: (v ++ ' ' :: t)) = none := by
  rw [pieces_stray]
  · rfl
  · cases v with
    | nil => simp [cString, show ' ' ≠ nul by decide]
    | cons c v =>
      simp only [List.mem_cons, not_or] at zero
      simp [cString, Ne.symm zero.1]
  · cases v with
    | nil => simp
    | cons c v => simpa using head

/-- Whatever comes behind. -/
theorem Reads.append {t : Text} {ps : List (Option Text)} (h : Reads t ps)
    (stray : Text → Option (Text × Nat)) (u : Text) :
    pieces stray 0 (t ++ u) = (pieces stray 0 u).map (ps ++ ·) := by
  induction h with
  | nil => simp
  | blank h ih => simp [pieces_blank, ih, Function.comp_def]
  | percent h ih => simp [pieces_percent, ih, Function.comp_def]
  | char hc h ih => simp [pieces_char stray hc, ih, Function.comp_def]

/-- A text is read to its end or to the first stray conversion. -/
theorem reads_or_stray (t : Text) (plain : nul ∉ t) : (∃ ps, Reads t ps) ∨
    ∃ u ps v, t = u ++ '%' :: v ∧ Reads u ps ∧ v.head? ≠ some '%' := by
  induction hn : t.length using Nat.strongRecOn generalizing t with
  | ind n ih =>
    cases t with
    | nil => exact Or.inl ⟨[], .nil⟩
    | cons c t =>
      simp only [List.mem_cons, not_or] at plain
      simp only [List.length_cons] at hn
      by_cases blank : c = ' '
      · subst blank
        rcases ih t.length (by omega) t plain.2 rfl with ⟨ps, h⟩ | ⟨u, ps, v, rfl, h, hv⟩
        · exact Or.inl ⟨_, .blank h⟩
        · exact Or.inr ⟨_, _, v, rfl, .blank h, hv⟩
      · by_cases percent : c = '%'
        · subst percent
          cases t with
          | nil => exact Or.inr ⟨[], [], [], rfl, .nil, by simp⟩
          | cons d t =>
            by_cases again : d = '%'
            · subst again
              simp only [List.mem_cons, not_or] at plain
              simp only [List.length_cons] at hn
              rcases ih t.length (by omega) t plain.2.2 rfl with ⟨ps, h⟩ | ⟨u, ps, v, rfl, h, hv⟩
              · exact Or.inl ⟨_, .percent h⟩
              · exact Or.inr ⟨_, _, v, rfl, .percent h, hv⟩
            · exact Or.inr ⟨[], [], d :: t, rfl, .nil, by simpa using again⟩
        · have hc : c ≠ ' ' ∧ c ≠ '%' ∧ c ≠ nul := ⟨blank, percent, fun e => plain.1 e.symm⟩
          rcases ih t.length (by omega) t plain.2 rfl with ⟨ps, h⟩ | ⟨u, ps, v, rfl, h, hv⟩
          · exact Or.inl ⟨_, .char hc h⟩
          · exact Or.inr ⟨_, _, v, rfl, .char hc h, hv⟩

/-- The characters that pieces put into arguments. -/
def weight : List (Option Text) → Nat
  | [] => 0
  | none :: ps => weight ps
  | some e :: ps => e.length + weight ps

theorem weight_append (ps qs : List (Option Text)) :
    weight (ps ++ qs) = weight ps + weight qs := by
  induction ps with
  | nil => simp [weight]
  | cons p ps ih =>
    cases p with
    | none => simpa [weight] using ih
    | some e => simp [weight, ih, Nat.add_assoc]

theorem Reads.weight_le {t : Text} {ps : List (Option Text)} (h : Reads t ps) :
    weight ps ≤ t.length := by
  induction h with
  | nil => exact Nat.le_refl _
  | blank h ih => simp only [weight, List.length_cons]; omega
  | percent h ih => simp only [weight, List.length_cons, List.length_nil]; omega
  | char hc h ih => simp only [weight, List.length_cons, List.length_nil]; omega

/-- Blanks and double percent signs are lost. -/
theorem Reads.weight_lt {t : Text} {ps : List (Option Text)} (h : Reads t ps)
    (lost : ' ' ∈ t ∨ '%' ∈ t) : weight ps < t.length := by
  induction h with
  | nil => simp at lost
  | blank h ih =>
    have le := h.weight_le
    simp only [weight, List.length_cons]
    omega
  | percent h ih =>
    have le := h.weight_le
    simp only [weight, List.length_cons, List.length_nil]
    omega
  | char hc h ih =>
    have rest := ih (by simpa [hc.1.symm, hc.2.1.symm] using lost)
    simp only [weight, List.length_cons, List.length_nil]
    omega

theorem length_le_of_mem_gather {cur : Option Text} {ps : List (Option Text)} {w : Text}
    (h : w ∈ gather cur ps) : w.length ≤ (cur.getD []).length + weight ps := by
  induction ps generalizing cur with
  | nil =>
    cases cur with
    | none => simp [gather] at h
    | some a => simp [gather] at h; simp [h, weight]
  | cons p ps ih =>
    cases p with
    | none =>
      simp only [gather, List.mem_append] at h
      cases h with
      | inl h =>
        cases cur with
        | none => simp at h
        | some a => simp at h; simp [h, weight]
      | inr h =>
        have le := ih h
        simp only [weight, Option.getD_none, List.length_nil] at le ⊢
        omega
    | some e =>
      have le := ih h
      simp only [weight, Option.getD_some, List.length_append] at le ⊢
      omega

theorem gather_some_ne_nil (a : Text) (ps : List (Option Text)) : gather (some a) ps ≠ [] := by
  induction ps generalizing a with
  | nil => simp [gather]
  | cons p ps ih =>
    cases p with
    | none => simp [gather]
    | some e => simpa [gather] using ih _

/-- No argument has a blank. -/
theorem no_blank_of_mem_gather {cur : Option Text} {ps : List (Option Text)}
    (plain : ' ' ∉ cur.getD []) (rest : ∀ e, some e ∈ ps → ' ' ∉ e) {w : Text}
    (h : w ∈ gather cur ps) : ' ' ∉ w := by
  induction ps generalizing cur with
  | nil =>
    cases cur with
    | none => simp [gather] at h
    | some a => simp [gather] at h; simpa [h] using plain
  | cons p ps ih =>
    have behind : ∀ e, some e ∈ ps → ' ' ∉ e := fun e he => rest e (List.mem_cons_of_mem _ he)
    cases p with
    | none =>
      simp only [gather, List.mem_append] at h
      cases h with
      | inl h =>
        cases cur with
        | none => simp at h
        | some a => simp at h; simpa [h] using plain
      | inr h => exact ih (by simp) behind h
    | some e =>
      apply ih _ behind h
      have here := rest e (by simp)
      simpa [here] using plain

theorem no_blank_of_pieces {skip : Nat} {t : Text} {ps : List (Option Text)}
    (h : pieces (fun _ => none) skip t = some ps) : ∀ e, some e ∈ ps → ' ' ∉ e := by
  induction t generalizing skip ps with
  | nil => cases skip <;> simp_all [pieces]
  | cons c t ih =>
    cases skip with
    | succ skip => exact ih (by simpa [pieces] using h)
    | zero =>
      simp only [pieces] at h
      split at h
      · simp_all
      · split at h
        · obtain ⟨qs, hq, rfl⟩ := Option.map_eq_some_iff.mp h
          simpa using ih hq
        · rename_i blank
          split at h
          · split at h
            · obtain ⟨qs, hq, rfl⟩ := Option.map_eq_some_iff.mp h
              simpa using ih hq
            · simp at h
          · obtain ⟨qs, hq, rfl⟩ := Option.map_eq_some_iff.mp h
            intro e he
            cases List.mem_cons.mp he with
            | inl he =>
              obtain rfl := Option.some.inj he
              simpa using Ne.symm blank
            | inr he => exact ih hq e he

theorem gather_none_append (cur : Option Text) (ps qs : List (Option Text)) :
    gather cur (ps ++ none :: qs) = gather cur ps ++ gather none qs := by
  induction ps generalizing cur with
  | nil => rfl
  | cons p ps ih =>
    cases p with
    | none => simp [gather, ih]
    | some e => simp [gather, ih]

/-- What follows the last piece sticks to the last argument. -/
theorem gather_last (cur : Option Text) (ps : List (Option Text)) (e : Text) :
    ∃ us u, ∀ w : Text, gather cur (ps ++ some e :: w.map fun c => some [c]) = us ++ [u ++ w] := by
  induction ps generalizing cur with
  | nil =>
    refine ⟨[], cur.getD [] ++ e, fun w => ?_⟩
    have glued := gather_append (cur.getD [] ++ e) w []
    simp only [List.append_nil] at glued
    simp [gather, glued]
  | cons p ps ih =>
    cases p with
    | none =>
      obtain ⟨us, u, h⟩ := ih none
      exact ⟨cur.toList ++ us, u, fun w => by simp [gather, h]⟩
    | some d =>
      obtain ⟨us, u, h⟩ := ih (some (cur.getD [] ++ d))
      exact ⟨us, u, fun w => by simp [gather, h]⟩

/-! ## Values -/

/-- A text that is one argument at the end of a command. -/
structure IsLast (s : Text) : Prop where
  ne_nil : s ≠ []
  plain : ∀ c ∈ s, c ≠ ' ' ∧ c ≠ nul
  percent : '%' ∉ s.dropLast

theorem IsLast.pieces {s : Text} (h : IsLast s) (stray : Text → Option (Text × Nat)) :
    SimpleDsp.pieces stray 0 s = some (s.map fun c => some [c]) := by
  have front : ∀ c ∈ s.dropLast, c ≠ ' ' ∧ c ≠ '%' ∧ c ≠ nul := by
    intro c hc
    obtain ⟨blank, zero⟩ := h.plain c (List.mem_of_mem_dropLast hc)
    refine ⟨blank, ?_, zero⟩
    rintro rfl
    exact h.percent hc
  obtain ⟨blank, zero⟩ := h.plain _ (List.getLast_mem h.ne_nil)
  have last : SimpleDsp.pieces stray 0 [s.getLast h.ne_nil] = some [some [s.getLast h.ne_nil]] := by
    simp [SimpleDsp.pieces, blank, zero, cString]
  have whole : SimpleDsp.pieces stray 0 (s.dropLast ++ [s.getLast h.ne_nil]) = _ :=
    pieces_plain front _
  rw [List.dropLast_append_getLast h.ne_nil, last] at whole
  rw [whole]
  have back := congrArg (List.map fun c => some [c]) (List.dropLast_append_getLast h.ne_nil)
  rw [List.map_append] at back
  exact congrArg some back

theorem IsLast.args {s : Text} (h : IsLast s) (stray : Text → Option (Text × Nat)) :
    formatArgs stray s = some [s] := by
  have whole := gather_word h.ne_nil []
  rw [List.append_nil] at whole
  rw [formatArgs, h.pieces, Option.map_some, whole]
  rfl

end SimpleDsp
