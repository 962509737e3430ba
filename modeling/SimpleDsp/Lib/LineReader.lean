import Mathlib.Data.List.Basic

/-!
# Reading a stream in pieces

A finite stream is read by calls that stop after a terminator or after a number
of elements. That the stream has ended shows only in a call that reaches its end.

* `piece_append_drop`: no element is lost or read twice;
* `Stream.left_read`: every call comes closer to where the end shows.
-/

namespace LineReader

variable {α : Type} (stop : α → Bool)

/-- What a call takes from the elements ahead: at most `limit`, and none after a
terminator. -/
def piece : Nat → List α → List α
  | 0, _ => []
  | _ + 1, [] => []
  | limit + 1, a :: t => if stop a then [a] else a :: piece limit t

/-- The call asks for an element when there is none. -/
def meetsEnd : Nat → List α → Bool
  | 0, _ => false
  | _ + 1, [] => true
  | limit + 1, a :: t => if stop a then false else meetsEnd limit t

theorem piece_append_drop (limit : Nat) (t : List α) :
    piece stop limit t ++ t.drop (piece stop limit t).length = t := by
  induction limit, t using piece.induct stop with
  | case1 t => rfl
  | case2 limit => rfl
  | case3 limit a t h => simp [piece, h]
  | case4 limit a t h ih => simp [piece, h, ih]

theorem length_piece_le (limit : Nat) (t : List α) : (piece stop limit t).length ≤ limit := by
  induction limit, t using piece.induct stop with
  | case1 t => simp [piece]
  | case2 limit => simp [piece]
  | case3 limit a t h => simp [piece, h]
  | case4 limit a t h ih => simpa [piece, h] using ih

theorem mem_of_mem_piece {limit : Nat} {t : List α} {a : α} (h : a ∈ piece stop limit t) :
    a ∈ t := by
  rw [← piece_append_drop stop limit t]
  exact List.mem_append_left _ h

/-- A call that meets the end has taken everything. -/
theorem piece_of_meetsEnd {limit : Nat} {t : List α} (h : meetsEnd stop limit t = true) :
    piece stop limit t = t := by
  induction limit, t using piece.induct stop with
  | case1 t => simp [meetsEnd] at h
  | case2 limit => rfl
  | case3 limit a t ha => simp [meetsEnd, ha] at h
  | case4 limit a t ha ih =>
    rw [meetsEnd, if_neg ha] at h
    rw [piece, if_neg ha, ih h]

theorem piece_ne_nil (limit : Nat) {t : List α} (ahead : t ≠ []) :
    piece stop (limit + 1) t ≠ [] := by
  cases t with
  | nil => exact absurd rfl ahead
  | cons a t =>
    rw [piece]
    split <;> simp

/-! ## Streams -/

/-- What is ahead, and whether the end has shown. -/
structure Stream (α : Type) where
  rest : List α
  atEnd : Bool
  ended : atEnd = true → rest = []

def Stream.ofList (t : List α) : Stream α := ⟨t, false, by simp⟩

def Stream.read (limit : Nat) (s : Stream α) : Stream α where
  rest := s.rest.drop (piece stop limit s.rest).length
  atEnd := s.atEnd || meetsEnd stop limit s.rest
  ended h := by
    rcases Bool.or_eq_true_iff.mp h with h | h
    · rw [s.ended h, List.drop_nil]
    · rw [piece_of_meetsEnd stop h, List.drop_length]

/-- The calls that can still be made before the end shows. -/
def Stream.left (s : Stream α) : Nat := if s.atEnd then 0 else s.rest.length + 1

theorem Stream.piece_append_rest (limit : Nat) (s : Stream α) :
    piece stop limit s.rest ++ (s.read stop limit).rest = s.rest :=
  piece_append_drop stop limit s.rest

theorem Stream.left_read (limit : Nat) (s : Stream α) (more : s.atEnd = false) :
    (s.read stop (limit + 1)).left < s.left := by
  have start : s.left = s.rest.length + 1 := by rw [left, more]; rfl
  cases shows : (s.read stop (limit + 1)).atEnd with
  | true =>
    rw [left, shows, if_pos rfl, start]
    exact Nat.succ_pos _
  | false =>
    have ahead : s.rest ≠ [] := by
      intro none
      simp [read, more, none, meetsEnd] at shows
    have taken := List.length_pos_iff.mpr (piece_ne_nil stop limit ahead)
    have lengths := congrArg List.length (s.piece_append_rest stop (limit + 1))
    rw [List.length_append] at lengths
    rw [left, shows, if_neg Bool.false_ne_true, start]
    omega

end LineReader
