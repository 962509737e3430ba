import Mathlib.Data.List.Basic

/-!
# Codecs

A codec writes the values that are valid for it and reads exactly what it
writes, whatever comes after. The law is a field, so what is put together from
codecs has it too:

* `read_write`: a written value is read back;
* `both`, `times`, `counted`, `framed`: one after another, a number of times,
  behind their count, and behind the length of what they are written to;
* `decode_iff`: which sequences are one value and nothing else.
-/

namespace Codecs

structure Codec (α V : Type) where
  Valid : V → Prop
  write : V → List α
  read : List α → Option (V × List α)
  read_iff : ∀ {t : List α} {v : V} {rest : List α},
    read t = some (v, rest) ↔ Valid v ∧ t = write v ++ rest

namespace Codec

variable {α V W : Type}

section
variable (c : Codec α V)

theorem read_write {v : V} (valid : c.Valid v) (rest : List α) :
    c.read (c.write v ++ rest) = some (v, rest) := c.read_iff.mpr ⟨valid, rfl⟩

/-- One value and nothing after it. -/
def decode (t : List α) : Option V :=
  match c.read t with
  | some (v, []) => some v
  | _ => none

theorem decode_iff {t : List α} {v : V} : c.decode t = some v ↔ c.Valid v ∧ t = c.write v := by
  have whole : c.decode t = some v ↔ c.read t = some (v, []) := by
    unfold decode
    cases c.read t with
    | none => simp
    | some out =>
      obtain ⟨w, rest⟩ := out
      cases rest <;> simp
  rw [whole, c.read_iff, List.append_nil]

theorem decode_write {v : V} (valid : c.Valid v) : c.decode (c.write v) = some v :=
  c.decode_iff.mpr ⟨valid, rfl⟩

end

/-! ## One value -/

/-- Nothing at all. -/
def nothing : Codec α Unit where
  Valid _ := True
  write _ := []
  read t := some ((), t)
  read_iff := by simp [eq_comm]

/-- One symbol of a kind. -/
def symbol (p : α → Bool) : Codec α α where
  Valid a := p a = true
  write a := [a]
  read
    | [] => none
    | a :: t => if p a then some (a, t) else none
  read_iff := by
    intro t v rest
    cases t with
    | nil => simp
    | cons a t =>
      simp only [Option.ite_none_right_eq_some, Option.some.injEq, Prod.mk.injEq,
        List.singleton_append, List.cons.injEq]
      constructor
      · rintro ⟨kind, rfl, rfl⟩
        exact ⟨kind, rfl, rfl⟩
      · rintro ⟨kind, rfl, rfl⟩
        exact ⟨kind, rfl, rfl⟩

/-- Only some of the values. -/
def only (c : Codec α V) (p : V → Bool) : Codec α V where
  Valid v := c.Valid v ∧ p v = true
  write := c.write
  read t := (c.read t).filter fun out => p out.1
  read_iff := by
    intro t v rest
    rw [Option.filter_eq_some_iff, c.read_iff, and_right_comm]

/-- Other values for the same writing; `back` is right on those that are written. -/
def image (c : Codec α V) (value : V → W) (back : W → V)
    (inverse : ∀ v, c.Valid v → back (value v) = v) : Codec α W where
  Valid w := c.Valid (back w) ∧ value (back w) = w
  write w := c.write (back w)
  read t := (c.read t).map fun out => (value out.1, out.2)
  read_iff := by
    intro t w rest
    rw [Option.map_eq_some_iff]
    constructor
    · rintro ⟨⟨v, s⟩, read, same⟩
      obtain ⟨rfl, rfl⟩ := Prod.mk.inj same
      obtain ⟨valid, rfl⟩ := c.read_iff.mp read
      dsimp only
      rw [inverse v valid]
      exact ⟨⟨valid, rfl⟩, rfl⟩
    · rintro ⟨⟨valid, same⟩, rfl⟩
      refine ⟨(back w, rest), c.read_write valid rest, ?_⟩
      dsimp only
      rw [same]

/-! ## Several values -/

/-- One after the other. -/
def both (c : Codec α V) (d : Codec α W) : Codec α (V × W) where
  Valid v := c.Valid v.1 ∧ d.Valid v.2
  write v := c.write v.1 ++ d.write v.2
  read t := (c.read t).bind fun out => (d.read out.2).map fun out' => ((out.1, out'.1), out'.2)
  read_iff := by
    rintro t ⟨v, w⟩ rest
    rw [Option.bind_eq_some_iff]
    constructor
    · rintro ⟨⟨v', s⟩, first, later⟩
      obtain ⟨⟨w', s'⟩, second, same⟩ := Option.map_eq_some_iff.mp later
      obtain ⟨values, rfl⟩ := Prod.mk.inj same
      obtain ⟨rfl, rfl⟩ := Prod.mk.inj values
      obtain ⟨hv, rfl⟩ := c.read_iff.mp first
      obtain ⟨hw, rfl⟩ := d.read_iff.mp second
      exact ⟨⟨hv, hw⟩, by rw [List.append_assoc]⟩
    · rintro ⟨⟨hv, hw⟩, rfl⟩
      refine ⟨(v, d.write w ++ rest), ?_, ?_⟩
      · rw [List.append_assoc]
        exact c.read_write hv _
      · dsimp only
        rw [d.read_write hw, Option.map_some]

section
variable (c : Codec α V)

def writeAll (vs : List V) : List α := vs.flatMap c.write

def readAll : Nat → List α → Option (List V × List α)
  | 0, t => some ([], t)
  | n + 1, t =>
    (c.read t).bind fun out => (readAll n out.2).map fun out' => (out.1 :: out'.1, out'.2)

theorem readAll_iff (n : Nat) {t : List α} {vs : List V} {rest : List α} :
    c.readAll n t = some (vs, rest) ↔
      (vs.length = n ∧ ∀ v ∈ vs, c.Valid v) ∧ t = c.writeAll vs ++ rest := by
  induction n generalizing t vs with
  | zero =>
    rw [readAll, Option.some.injEq, Prod.mk.injEq]
    constructor
    · rintro ⟨rfl, rfl⟩
      exact ⟨⟨rfl, by simp⟩, rfl⟩
    · rintro ⟨⟨none, -⟩, rfl⟩
      obtain rfl := List.length_eq_zero_iff.mp none
      exact ⟨rfl, rfl⟩
  | succ n ih =>
    rw [readAll, Option.bind_eq_some_iff]
    constructor
    · rintro ⟨⟨v, s⟩, first, later⟩
      obtain ⟨⟨ws, s'⟩, others, same⟩ := Option.map_eq_some_iff.mp later
      obtain ⟨rfl, rfl⟩ := Prod.mk.inj same
      obtain ⟨hv, rfl⟩ := c.read_iff.mp first
      obtain ⟨⟨length, hws⟩, rfl⟩ := ih.mp others
      refine ⟨⟨by rw [List.length_cons, length], ?_⟩, ?_⟩
      · exact List.forall_mem_cons.mpr ⟨hv, hws⟩
      · rw [writeAll, writeAll, List.flatMap_cons, List.append_assoc]
    · rintro ⟨⟨length, valid⟩, rfl⟩
      cases vs with
      | nil => cases length
      | cons v ws =>
        obtain ⟨hv, hws⟩ := List.forall_mem_cons.mp valid
        have others : c.readAll n (c.writeAll ws ++ rest) = some (ws, rest) :=
          ih.mpr ⟨⟨Nat.succ.inj length, hws⟩, rfl⟩
        refine ⟨(v, c.writeAll ws ++ rest), ?_, ?_⟩
        · rw [writeAll, List.flatMap_cons, List.append_assoc]
          exact c.read_write hv _
        · dsimp only
          rw [others, Option.map_some]

/-- A number of values that is known before. -/
def times (n : Nat) : Codec α (List V) where
  Valid vs := vs.length = n ∧ ∀ v ∈ vs, c.Valid v
  write := c.writeAll
  read := c.readAll n
  read_iff := c.readAll_iff n

/-- Values behind their count. -/
def counted (count : Codec α Nat) : Codec α (List V) where
  Valid vs := count.Valid vs.length ∧ ∀ v ∈ vs, c.Valid v
  write vs := count.write vs.length ++ c.writeAll vs
  read t := (count.read t).bind fun out => c.readAll out.1 out.2
  read_iff := by
    intro t vs rest
    rw [Option.bind_eq_some_iff]
    constructor
    · rintro ⟨⟨n, s⟩, first, later⟩
      obtain ⟨⟨rfl, valid⟩, rfl⟩ := (c.readAll_iff n).mp later
      obtain ⟨here, rfl⟩ := count.read_iff.mp first
      exact ⟨⟨here, valid⟩, by rw [List.append_assoc]⟩
    · rintro ⟨⟨here, valid⟩, rfl⟩
      refine ⟨(vs.length, c.writeAll vs ++ rest), ?_, ?_⟩
      · rw [List.append_assoc]
        exact count.read_write here _
      · exact (c.readAll_iff _).mpr ⟨⟨rfl, valid⟩, rfl⟩

/-- A value behind the length of what it is written to. -/
def framed (count : Codec α Nat) : Codec α V where
  Valid v := count.Valid (c.write v).length ∧ c.Valid v
  write v := count.write (c.write v).length ++ c.write v
  read t := (count.read t).bind fun out =>
    if out.1 ≤ out.2.length then (c.decode (out.2.take out.1)).map fun v => (v, out.2.drop out.1)
    else none
  read_iff := by
    intro t v rest
    rw [Option.bind_eq_some_iff]
    constructor
    · rintro ⟨⟨n, s⟩, first, later⟩
      obtain ⟨inside, later⟩ := Option.ite_none_right_eq_some.mp later
      obtain ⟨w, body, same⟩ := Option.map_eq_some_iff.mp later
      obtain ⟨rfl, rfl⟩ := Prod.mk.inj same
      obtain ⟨here, rfl⟩ := count.read_iff.mp first
      obtain ⟨valid, body⟩ := c.decode_iff.mp body
      have length : (c.write w).length = n := by
        rw [← body, List.length_take, Nat.min_eq_left inside]
      rw [length, List.append_assoc, ← body, List.take_append_drop]
      exact ⟨⟨here, valid⟩, rfl⟩
    · rintro ⟨⟨here, valid⟩, rfl⟩
      refine ⟨((c.write v).length, c.write v ++ rest), ?_, ?_⟩
      · rw [List.append_assoc]
        exact count.read_write here _
      · dsimp only
        rw [if_pos (by simp), List.take_left, List.drop_left, c.decode_write valid, Option.map_some]

end

end Codec

end Codecs
