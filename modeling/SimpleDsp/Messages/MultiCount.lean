import SimpleDsp.Messages.Nodes
import Mathlib.Tactic.ByContra

/-!
# The count of a multi node

`handle_node_multi` counts its children and then appends what they encode to:

* `multiNumber_eq`: only the elements with the first one's tag are counted;
* `traversal_encoded`: every element's encoding is appended;
* `multi_count_iff`: when the count is that of the encodings after it.
-/

namespace SimpleDsp.Messages

open DecimalText

/-! ## Runs of handlers -/

def outcome {α : Type} (h : Handler α) (n : Nat) : Option α × Nat := h.run.run n

/-- The handler returns, `n` and `n'` being the readings of the clock before and after. -/
def Yields {α : Type} (h : Handler α) (n : Nat) (a : α) (n' : Nat) : Prop :=
  outcome h n = (some a, n')

section
variable {α β : Type} {a b : α} {n m n' : Nat}

theorem yields_pure (a : α) (n : Nat) : Yields (pure a) n a n := rfl

theorem outcome_bind (h : Handler α) (f : α → Handler β) (n : Nat) :
    outcome (h >>= f) n =
      (outcome h n).1.elim (none, (outcome h n).2) fun a => outcome (f a) (outcome h n).2 := by
  simp only [outcome, OptionT.run_bind, Option.elimM, StateT.run_bind]
  obtain ⟨result, m⟩ := StateT.run (OptionT.run h) n
  cases result <;> rfl

theorem Yields.bind {h : Handler α} {f : α → Handler β} {b : β} (first : Yields h n a m)
    (then_ : Yields (f a) m b n') : Yields (h >>= f) n b n' := by
  unfold Yields at *
  rw [outcome_bind, first]
  exact then_

theorem Yields.unique {h : Handler α} (one : Yields h n a m) (other : Yields h n b n') :
    a = b ∧ m = n' := by
  obtain ⟨same, readings⟩ := Prod.mk.inj (one.symm.trans other)
  exact ⟨Option.some.inj same, readings⟩

theorem yields_ofOption {o : Option α} (h : o = some a) : Yields (ofOption o) n a n := by
  rw [h]
  exact yields_pure a n

end

/-! ## The encodings of the children -/

/-- Every child element encodes to bytes, from one reading of the clock to another. A
comment encodes to nothing and is no item. -/
inductive Encoded (handle : Node → Handler Returned) : List Node → Nat → List Text → Nat → Prop
  | nil (n : Nat) : Encoded handle [] n [] n
  | comment {rest : List Node} {items : List Text} {n n' : Nat}
      (later : Encoded handle rest n items n') : Encoded handle (.comment :: rest) n items n'
  | element {tag text item : Text} {attributes : List (Text × Text)} {children rest : List Node}
      {items : List Text} {n m n' : Nat}
      (here : Yields (handle (.element tag attributes text children)) n (.str item) m)
      (later : Encoded handle rest m items n') :
      Encoded handle (.element tag attributes text children :: rest) n (item :: items) n'

/-- The tags of the child elements. -/
def tags (children : List Node) : List Text := children.filterMap Node.tag

section
variable {handle : Node → Handler Returned} {children : List Node} {items : List Text}
  {n n' : Nat}

theorem Encoded.length_tags (h : Encoded handle children n items n') :
    (tags children).length = items.length := by
  induction h with
  | nil n => rfl
  | comment later ih => exact ih
  | element here later ih => exact congrArg Nat.succ ih

/-- What `traversal_child` has appended at the end, begun with `ret`. -/
theorem traversal_encoded (silent : handle .comment = pure (.str []))
    (h : Encoded handle children n items n') (ret : Text) :
    Yields (children.foldlM (appendChild handle) (.str ret)) n (.str (ret ++ items.flatten)) n' := by
  induction h generalizing ret with
  | nil n =>
    rw [List.flatten_nil, List.append_nil]
    exact yields_pure _ n
  | @comment rest items n n' later ih =>
    have same : Yields (appendChild handle (.str ret) .comment) n (.str ret) n := by
      unfold appendChild
      rw [silent]
      apply (yields_pure (Returned.str []) n).bind
      exact yields_ofOption (by rw [add_str, List.append_nil])
    exact same.bind (ih ret)
  | @element _ _ item _ _ rest items n m n' here later ih =>
    have longer := here.bind (f := fun encoding => ofOption (Returned.add (.str ret) encoding))
      (yields_ofOption (add_str ret item))
    rw [List.flatten_cons, ← List.append_assoc]
    exact longer.bind (ih (ret ++ item))

end

/-! ## The count -/

/-- How many of the tags are the first one's. -/
def likeFirst : List Text → Nat
  | [] => 0
  | first :: rest => (first :: rest).count first

theorem countChild_some (first : Text) (number : Nat) (children : List Node) :
    children.foldl countChild (some first, number) =
      (some first, number + (tags children).count first) := by
  induction children generalizing number with
  | nil => rfl
  | cons child rest ih =>
    cases child with
    | comment => exact ih number
    | element tag attributes text children =>
      have split : tags (.element tag attributes text children :: rest) = tag :: tags rest := rfl
      rw [List.foldl_cons, split, List.count_cons]
      by_cases same : tag = first
      · rw [countChild, if_pos same, ih, if_pos (by simp [same])]
        congr 1
        omega
      · rw [countChild, if_neg same, ih, if_neg (by simp [same])]
        rfl

theorem multiNumber_eq (children : List Node) : multiNumber children = likeFirst (tags children) := by
  induction children with
  | nil => rfl
  | cons child rest ih =>
    cases child with
    | comment => exact ih
    | element tag attributes text children =>
      have split : tags (.element tag attributes text children :: rest) = tag :: tags rest := rfl
      rw [split, likeFirst, List.count_cons_self]
      unfold multiNumber
      rw [List.foldl_cons, countChild, countChild_some]
      omega

theorem likeFirst_le (ts : List Text) : likeFirst ts ≤ ts.length := by
  cases ts with
  | nil => exact Nat.le_refl 0
  | cons first rest => exact List.count_le_length

theorem likeFirst_pos {ts : List Text} (h : ts ≠ []) : 0 < likeFirst ts := by
  cases ts with
  | nil => exact absurd rfl h
  | cons first rest => exact List.count_pos_iff.mpr List.mem_cons_self

/-- All child elements have one tag. -/
def OneTag (ts : List Text) : Prop := ∀ a ∈ ts, ∀ b ∈ ts, a = b

theorem likeFirst_eq_length {ts : List Text} : likeFirst ts = ts.length ↔ OneTag ts := by
  cases ts with
  | nil => simp [likeFirst, OneTag]
  | cons first rest =>
    unfold likeFirst
    rw [List.count_eq_length]
    constructor
    · intro all a ha b hb
      rw [← all a ha, ← all b hb]
    · intro one b hb
      exact one first List.mem_cons_self b hb

/-! ## Readers -/

/-- A reader of one item, used `count` times. -/
def readItems (readItem : Text → Option (Text × Text)) : Nat → Text → Option (List Text × Text)
  | 0, t => some ([], t)
  | count + 1, t => do
    let (item, rest) ← readItem t
    let (items, rest) ← readItems readItem count rest
    some (item :: items, rest)

/-- Takes the count, and then that many items. -/
def readMulti (width : Nat) (readItem : Text → Option (Text × Text)) (t : Text) :
    Option (List Text × Text) :=
  readItems readItem (ofRaw (t.take width)) (t.drop width)

/-- The count is that of the items after it, and a reader of such items takes them all
and nothing else. -/
structure Counts (width : Nat) (bytes : Text) (items : List Text) : Prop where
  counted : ofRaw (bytes.take width) = items.length
  appended : bytes.drop width = items.flatten
  read : ∀ readItem : Text → Option (Text × Text),
    (∀ item ∈ items, ∀ rest, readItem (item ++ rest) = some (item, rest)) →
    readMulti width readItem bytes = some (items, [])

theorem readItems_flatten {readItem : Text → Option (Text × Text)} {items : List Text}
    (reads : ∀ item ∈ items, ∀ rest, readItem (item ++ rest) = some (item, rest)) (rest : Text) :
    readItems readItem items.length (items.flatten ++ rest) = some (items, rest) := by
  induction items with
  | nil => rfl
  | cons item items ih =>
    have later := ih fun item' h => reads item' (List.mem_cons_of_mem item h)
    have here := reads item List.mem_cons_self (items.flatten ++ rest)
    simp only [List.flatten_cons, List.append_assoc, List.length_cons, readItems, here, later,
      Option.bind_eq_bind, Option.bind_some]

theorem counts_rawBytes {width : Nat} {items : List Text} (fits : items.length < 256 ^ width) :
    Counts width (rawBytes width items.length ++ items.flatten) items := by
  have field : (rawBytes width items.length ++ items.flatten).take width =
      rawBytes width items.length := List.take_left' (length_rawBytes width items.length)
  have body : (rawBytes width items.length ++ items.flatten).drop width = items.flatten :=
    List.drop_left' (length_rawBytes width items.length)
  have count : ofRaw (rawBytes width items.length) = items.length := by
    rw [ofRaw_rawBytes, Nat.mod_eq_of_lt fits]
  constructor
  · rw [field, count]
  · exact body
  · intro readItem reads
    have all := readItems_flatten reads []
    rw [List.append_nil] at all
    rw [readMulti, field, count, body, all]

theorem rawBytes_zero (width : Nat) : rawBytes width 0 = List.replicate width nul := by
  induction width with
  | zero => rfl
  | succ width ih =>
    rw [rawBytes, ih, List.replicate_succ]
    rfl

theorem counts_zeros (width : Nat) : Counts width (List.replicate width nul) [] := by
  have empty : Counts width (rawBytes width ([] : List Text).length ++ [].flatten) [] :=
    counts_rawBytes (Nat.pow_pos (by decide))
  rwa [List.flatten_nil, List.append_nil, List.length_nil, rawBytes_zero] at empty

/-! ## Multi nodes -/

theorem most_lt (node : Node) : (multiCounter node).most < 256 ^ (multiCounter node).width := by
  unfold multiCounter
  split
  · decide
  · split <;> decide

theorem pack_natCast {width n : Nat} (h : n < 256 ^ width) : pack width n = rawBytes width n := by
  have below : (n : Int) < 256 ^ width := by
    have cast := Int.ofNat_lt.mpr h
    rwa [Int.natCast_pow] at cast
  rw [pack, Int.emod_eq_of_lt (Int.natCast_nonneg n) below, Int.toNat_natCast]

section
variable {handle : Node → Handler Returned} {node : Node} {items : List Text} {n n' : Nat}

theorem multi_zeros (h : multiNumber node.children = 0 ∨
    (multiCounter node).most < multiNumber node.children) :
    Yields (handleNodeMulti handle node) n (zeros (multiCounter node).width) n := by
  rw [handleNodeMulti, if_pos h]
  exact yields_pure _ n

theorem multi_counted (silent : handle .comment = pure (.str []))
    (encoded : Encoded handle node.children n items n')
    (some_ : multiNumber node.children ≠ 0)
    (fits : multiNumber node.children ≤ (multiCounter node).most) :
    Yields (handleNodeMulti handle node) n
      (.str (rawBytes (multiCounter node).width (multiNumber node.children) ++ items.flatten)) n' := by
  have body := traversal_encoded silent encoded []
  rw [List.nil_append] at body
  rw [handleNodeMulti, if_neg (by omega)]
  apply body.bind
  apply yields_ofOption
  rw [add_str, pack_natCast (Nat.lt_of_le_of_lt fits (most_lt node))]

end

/-- The node's bytes hold the count of the child elements and their encodings, or of
none where there are too many of them. -/
def CountsChildren (handle : Node → Handler Returned) (node : Node) (n : Nat) (items : List Text) :
    Prop :=
  ∃ bytes m, Yields (handleNodeMulti handle node) n (.str bytes) m ∧
    Counts (multiCounter node).width bytes
      (if items.length ≤ (multiCounter node).most then items else [])

/-- The count is right if all child elements have one tag, or if those with the first
one's tag are already too many for the field. -/
theorem multi_count_iff (E : Surroundings) (depth : Nat) (node : Node) (items : List Text)
    (n n' : Nat) (encoded : Encoded (handleNode E depth) node.children n items n') :
    CountsChildren (handleNode E depth) node n items ↔
      OneTag (tags node.children) ∨
        (multiCounter node).most < likeFirst (tags node.children) := by
  have silent : handleNode E depth .comment = pure (.str []) := by cases depth <;> rfl
  have number := multiNumber_eq node.children
  have length := encoded.length_tags
  have le := likeFirst_le (tags node.children)
  constructor
  · rintro ⟨bytes, m, yields, counts⟩
    by_contra wrong
    obtain ⟨mixed, fits⟩ := not_or.mp wrong
    have ne : likeFirst (tags node.children) ≠ (tags node.children).length :=
      fun same => mixed (likeFirst_eq_length.mp same)
    have pos : 0 < likeFirst (tags node.children) := by
      apply likeFirst_pos
      intro none
      rw [none] at ne
      exact ne rfl
    have counted := multi_counted silent encoded (by omega) (by omega)
    obtain ⟨same, -⟩ := yields.unique counted
    have field := counts.counted
    rw [Returned.str.inj same, List.take_left' (length_rawBytes _ _), ofRaw_rawBytes,
      Nat.mod_eq_of_lt (by have := most_lt node; omega)] at field
    split at field
    · omega
    · rw [List.length_nil] at field
      omega
  · intro right
    by_cases fits : items.length ≤ (multiCounter node).most
    · have one : likeFirst (tags node.children) = items.length := by
        obtain one | many := right
        · rw [likeFirst_eq_length.mpr one, length]
        · omega
      by_cases none : items = []
      · subst none
        refine ⟨_, n, multi_zeros (Or.inl (number.trans one)), ?_⟩
        rw [if_pos fits]
        exact counts_zeros _
      · have pos : items.length ≠ 0 := fun h => none (List.length_eq_zero_iff.mp h)
        refine ⟨_, n', multi_counted silent encoded (by omega) (by omega), ?_⟩
        rw [if_pos fits, number, one]
        exact counts_rawBytes (Nat.lt_of_le_of_lt fits (most_lt node))
    · have many : (multiCounter node).most < multiNumber node.children := by
        obtain one | many := right
        · rw [number, likeFirst_eq_length.mpr one, length]
          omega
        · omega
      refine ⟨_, n, multi_zeros (Or.inr many), ?_⟩
      rw [if_neg fits]
      exact counts_zeros _

/-- A machine with the message file alone. -/
def alone : Surroundings where
  document := fun _ => none
  packed := fun _ => none
  now := fun _ => 0
  mktime := fun _ => none
  writable := true

def byteNode (tag text : String) : Node :=
  .element tag.toList [("type".toList, "byte".toList)] text.toList []

def multiNode (children : List Node) : Node := .element "multi".toList [] [] children

theorem encoded_pair (tag : String) :
    Encoded (handleNode alone 1) [byteNode "shop" "7", .comment, byteNode tag "8"] 0
      [[Char.ofNat 7], [Char.ofNat 8]] 0 :=
  .element rfl (.comment (.element rfl (.nil 0)))

theorem multi_count_iff_shops : CountsChildren (handleNode alone 1)
    (multiNode [byteNode "shop" "7", .comment, byteNode "shop" "8"]) 0
      [[Char.ofNat 7], [Char.ofNat 8]] := by
  have one : OneTag ["shop".toList, "shop".toList] := by simp [OneTag]
  exact (multi_count_iff alone 1 (multiNode [byteNode "shop" "7", .comment, byteNode "shop" "8"])
    [[Char.ofNat 7], [Char.ofNat 8]] 0 0 (encoded_pair "shop")).mpr (Or.inl one)

/-- Two children with different tags: the count is 1 and two bytes follow. -/
theorem multi_count_mixed :
    Encoded (handleNode alone 1) [byteNode "shop" "7", .comment, byteNode "level" "8"] 0
        [[Char.ofNat 7], [Char.ofNat 8]] 0 ∧
      ¬CountsChildren (handleNode alone 1)
        (multiNode [byteNode "shop" "7", .comment, byteNode "level" "8"]) 0
          [[Char.ofNat 7], [Char.ofNat 8]] := by
  refine ⟨encoded_pair "level", ?_⟩
  rintro ⟨bytes, m, yields, counts⟩
  have written : Yields (handleNodeMulti (handleNode alone 1)
      (multiNode [byteNode "shop" "7", .comment, byteNode "level" "8"])) 0
      (.str [Char.ofNat 1, Char.ofNat 7, Char.ofNat 8]) 0 := rfl
  obtain ⟨same, -⟩ := yields.unique written
  obtain rfl := Returned.str.inj same
  have field := counts.counted
  revert field
  decide

end SimpleDsp.Messages
