import SimpleDsp.Lib.Codecs
import SimpleDsp.Messages.LeafEncoders

/-!
# Message layouts

A receiver of a message file knows its layout and reads the values in order.
What a tree of nodes stands for is said without a byte:

* `Layout`, `Layout.codec`: the layouts there are, and how their values are
  written and read;
* `Stands`: the layout and the value of a tree, one constructor for each thing a
  handler does;
* `handleNode_writes`: the message is the value as its codec writes it;
* `message_read_back`: so a reader gets the value back, whatever follows it.
-/

namespace SimpleDsp.Messages

open DecimalText
open Codecs (Codec)

/-! ## Bytes and numbers -/

def isByte (c : Char) : Bool := c.toNat < 256

theorem isByte_of_isAscii {c : Char} (ascii : isAscii c = true) : isByte c = true := by
  have below : c.toNat < 128 := of_decide_eq_true ascii
  exact decide_eq_true (by omega)

theorem isByte_ofNat (n : Nat) : isByte (Char.ofNat (n % 256)) = true := by
  have below : n % 256 < 256 := Nat.mod_lt n (by decide)
  rw [isByte, toNat_byte below]
  exact decide_eq_true below

theorem isByte_of_mem_rawBytes {size n : Nat} {c : Char} (mem : c ∈ rawBytes size n) :
    isByte c = true := by
  induction size generalizing n with
  | zero => cases mem
  | succ size ih =>
    rw [rawBytes] at mem
    rcases List.mem_cons.mp mem with rfl | later
    · exact isByte_ofNat n
    · exact ih later

theorem ofRaw_cons (c : Char) (t : Text) : ofRaw (c :: t) = c.toNat + 256 * ofRaw t := rfl

theorem ofRaw_lt {t : Text} (bytes : ∀ c ∈ t, isByte c = true) : ofRaw t < 256 ^ t.length := by
  induction t with
  | nil => exact Nat.one_pos
  | cons c t ih =>
    obtain ⟨here, later⟩ := List.forall_mem_cons.mp bytes
    have byte : c.toNat < 256 := of_decide_eq_true here
    have rest := ih later
    rw [ofRaw_cons, List.length_cons, Nat.pow_succ]
    omega

theorem rawBytes_ofRaw {t : Text} (bytes : ∀ c ∈ t, isByte c = true) :
    rawBytes t.length (ofRaw t) = t := by
  induction t with
  | nil => rfl
  | cons c t ih =>
    obtain ⟨here, later⟩ := List.forall_mem_cons.mp bytes
    have byte : c.toNat < 256 := of_decide_eq_true here
    have low : (c.toNat + 256 * ofRaw t) % 256 = c.toNat := by omega
    have high : (c.toNat + 256 * ofRaw t) / 256 = ofRaw t := by omega
    rw [ofRaw_cons, List.length_cons, rawBytes, low, high, ih later, Char.ofNat_toNat]

/-- The upper half of the bytes stands for the negative numbers, and no number stands
for two of them. -/
theorem decode_emod {f : Format} {t : Text} (bytes : ∀ c ∈ t, isByte c = true)
    (width : t.length = f.size) : f.decode t % 256 ^ f.size = ofRaw t := by
  have below := Int.ofNat_lt.mpr (ofRaw_lt bytes)
  rw [width, Int.natCast_pow] at below
  have inside : (ofRaw t : Int) % 256 ^ f.size = ofRaw t :=
    Int.emod_eq_of_lt (Int.natCast_nonneg _) below
  unfold Format.decode
  split
  · rw [← Int.add_emod_right, Int.sub_add_cancel, inside]
  · exact inside

theorem fits_decode {f : Format} {t : Text} (bytes : ∀ c ∈ t, isByte c = true)
    (width : t.length = f.size) : f.Fits (f.decode t) := by
  have below := Int.ofNat_lt.mpr (ofRaw_lt bytes)
  rw [width, Int.natCast_pow] at below
  change (ofRaw t : Int) < 256 ^ f.size at below
  unfold Format.Fits Format.decode
  cases sign : f.signed with
  | false =>
    rw [if_neg Bool.false_ne_true, if_neg (by simp)]
    exact ⟨Int.natCast_nonneg _, below⟩
  | true =>
    rw [if_pos rfl]
    by_cases upper : 256 ^ f.size ≤ 2 * (ofRaw t : Int)
    · rw [if_pos ⟨rfl, upper⟩]
      omega
    · rw [if_neg (by simp [upper])]
      omega

/-! ## Layouts -/

def bytes (length : Nat) : Codec Char Text := (Codec.symbol isByte).times length

theorem writeAll_symbol (t : Text) : (Codec.symbol isByte).writeAll t = t :=
  List.flatMap_singleton' t

/-- A number that has no sign, in `width` bytes. -/
def counter (width : Nat) : Codec Char Nat :=
  (bytes width).image ofRaw (rawBytes width) (by
    rintro t ⟨rfl, symbols⟩
    exact rawBytes_ofRaw symbols)

theorem write_counter (width n : Nat) : (counter width).write n = rawBytes width n :=
  writeAll_symbol (rawBytes width n)

theorem valid_counter {width n : Nat} : (counter width).Valid n ↔ n < 256 ^ width := by
  have positive : 0 < 256 ^ width := Nat.pow_pos (by decide)
  have same : ofRaw (rawBytes width n) = n ↔ n < 256 ^ width := by
    rw [ofRaw_rawBytes]
    exact Nat.mod_eq_iff_lt (Nat.ne_of_gt positive)
  constructor
  · exact fun valid => same.mp valid.2
  · intro fits
    exact ⟨⟨length_rawBytes width n, fun c mem => isByte_of_mem_rawBytes mem⟩, same.mpr fits⟩

def number (f : Format) : Codec Char Int :=
  (bytes f.size).image f.decode (pack f.size) (by
    rintro t ⟨width, symbols⟩
    rw [pack, decode_emod symbols width, Int.toNat_natCast, ← width]
    exact rawBytes_ofRaw symbols)

theorem write_number (f : Format) (v : Int) : (number f).write v = pack f.size v :=
  writeAll_symbol (pack f.size v)

theorem valid_number {f : Format} {v : Int} : (number f).Valid v ↔ f.Fits v := by
  have packed : (bytes f.size).Valid (pack f.size v) :=
    ⟨length_pack f.size v, fun c mem => isByte_of_mem_rawBytes mem⟩
  constructor
  · rintro ⟨-, same⟩
    rw [← same]
    exact fits_decode packed.2 packed.1
  · exact fun fits => ⟨packed, decode_pack fits⟩

/-- What `fill_message_length` puts before a message. -/
def frameLength : Codec Char Nat := (counter 4).only fun n => n < 2 ^ 31

theorem valid_frameLength {n : Nat} : frameLength.Valid n ↔ n < 2 ^ 31 := by
  constructor
  · exact fun valid => of_decide_eq_true valid.2
  · exact fun short => ⟨valid_counter.mpr (by omega), decide_eq_true short⟩

inductive Layout
  | nothing
  | number (format : Format)
  | text (length : Nat)
  | countedText (width : Nat)
  | both (first second : Layout)
  | many (width : Nat) (item : Layout)
  | framed (body : Layout)

def Layout.Value : Layout → Type
  | .nothing => Unit
  | .number _ => Int
  | .text _ => Text
  | .countedText _ => Text
  | .both first second => first.Value × second.Value
  | .many _ item => List item.Value
  | .framed body => body.Value

def Layout.codec : (l : Layout) → Codec Char l.Value
  | .nothing => Codec.nothing
  | .number f => Messages.number f
  | .text length => bytes length
  | .countedText width => (Codec.symbol isByte).counted (counter width)
  | .both first second => first.codec.both second.codec
  | .many width item => item.codec.counted (counter width)
  | .framed body => body.codec.framed frameLength

theorem write_text {length : Nat} (t : Text) : (Layout.text length).codec.write t = t :=
  writeAll_symbol t

theorem write_countedText {width : Nat} (t : Text) :
    (Layout.countedText width).codec.write t = rawBytes width t.length ++ t := by
  have counted : (Layout.countedText width).codec.write t =
      (counter width).write t.length ++ (Codec.symbol isByte).writeAll t := rfl
  rw [counted, write_counter, writeAll_symbol]

theorem valid_countedText {width : Nat} {t : Text} (symbols : ∀ c ∈ t, isByte c = true)
    (fits : t.length < 256 ^ width) : (Layout.countedText width).codec.Valid t :=
  ⟨valid_counter.mpr fits, symbols⟩

/-! ## What a tree stands for -/

/-- At some reading of the clock a node has a layout and a value; the last number is the
next reading. -/
abbrev Meaning := Node → Nat → (l : Layout) → l.Value → Nat → Prop

section
variable (stands : Meaning)

/-- The child elements, one after the other. -/
inductive Fields : List Node → Nat → (l : Layout) → l.Value → Nat → Prop
  | nil (n : Nat) : Fields [] n .nothing () n
  | comment {rest : List Node} {n m : Nat} {l : Layout} {v : l.Value}
      (later : Fields rest n l v m) : Fields (.comment :: rest) n l v m
  | element {tag text : Text} {attributes : List (Text × Text)} {children rest : List Node}
      {n k m : Nat} {l l' : Layout} {v : l.Value} {v' : l'.Value}
      (here : stands (.element tag attributes text children) n l v k)
      (later : Fields rest k l' v' m) :
      Fields (.element tag attributes text children :: rest) n (.both l l') (v, v') m

/-- Child elements of one layout. -/
inductive Items (item : Layout) : List Node → Nat → List item.Value → Nat → Prop
  | nil (n : Nat) : Items item [] n [] n
  | comment {rest : List Node} {n m : Nat} {vs : List item.Value}
      (later : Items item rest n vs m) : Items item (.comment :: rest) n vs m
  | element {tag text : Text} {attributes : List (Text × Text)} {children rest : List Node}
      {n k m : Nat} {v : item.Value} {vs : List item.Value}
      (here : stands (.element tag attributes text children) n item v k)
      (later : Items item rest k vs m) :
      Items item (.element tag attributes text children :: rest) n (v :: vs) m

end

/-- The field of a number. -/
def NodeHandler.format : NodeHandler → Option Format
  | .byte => some ⟨1, false⟩
  | .short => some ⟨2, true⟩
  | .int => some ⟨4, true⟩
  | .uint => some ⟨4, false⟩
  | _ => none

def NodeHandler.isAddress : NodeHandler → Bool
  | .ip | .ipv4 | .ipv6 => true
  | _ => false

def NodeHandler.isSection : NodeHandler → Bool
  | .nop | .section_ | .body | .root => true
  | _ => false

/-- The clock is read for one text. -/
def afterTime (node : Node) (n : Nat) : Nat := if node.text = "now".toList then n + 1 else n

/-- The text, or nothing where its counter is too small. -/
def keptText (node : Node) : Text :=
  if node.text.length < 256 ^ (stringCounter node).width then node.text else []

/-- The counter of an address. -/
def addressWidth (node : Node) : Nat := if node.get "counter" = some "short".toList then 2 else 1

/-- What a node stands for before its callbacks are called. Where a field is too small
for what it should hold, it holds zero or nothing. -/
inductive Standing (E : Surroundings) (stands : Meaning) :
    NodeHandler → Node → Nat → (l : Layout) → l.Value → Nat → Prop
  | blank {kind : NodeHandler} {node : Node} {n : Nat} {f : Format}
      (format : kind.format = some f) (blank : node.text = []) :
      Standing E stands kind node n (.number f) (0 : Int) n
  | number {kind : NodeHandler} {node : Node} {n : Nat} {f : Format} {v : Int}
      (format : kind.format = some f) (value : int node.text = some v) (fits : f.Fits v) :
      Standing E stands kind node n (.number f) v n
  | beyond {kind : NodeHandler} {node : Node} {n : Nat} {f : Format} {v : Int}
      (format : kind.format = some f) (value : int node.text = some v) (wide : ¬f.Fits v) :
      Standing E stands kind node n (.number f) (0 : Int) n
  | time {node : Node} {n : Nat} {v : Int} (value : timeValue E node n = some v)
      (fits : timeFormat.Fits v) :
      Standing E stands .time node n (.number timeFormat) v (afterTime node n)
  | noTime {node : Node} {n : Nat} {v : Int} (value : timeValue E node n = some v)
      (wide : ¬timeFormat.Fits v) (ne : v ≠ 2 ^ 32) :
      Standing E stands .time node n (.number timeFormat) (0 : Int) (afterTime node n)
  | text {node : Node} {n length : Nat} {t : Text} (ascii : node.text.all isAscii = true)
      (given : node.get "length" = some t) (number : int t = some (length : Int)) :
      Standing E stands .string node n (.text length) (fixed node.text length) n
  | counted {node : Node} {n : Nat} (ascii : node.text.all isAscii = true)
      (free : (node.get "length").getD [] = []) :
      Standing E stands .string node n (.countedText (stringCounter node).width) (keptText node) n
  | address {kind : NodeHandler} {node : Node} {n : Nat} {t : Text}
      (address : kind.isAddress = true) (packed : E.packed node.text = some t)
      (length : t.length = 4 ∨ t.length = 16) (symbols : ∀ c ∈ t, isByte c = true) :
      Standing E stands kind node n (.countedText (addressWidth node)) t n
  | fields {kind : NodeHandler} {node : Node} {n m : Nat} {l : Layout} {v : l.Value}
      (section_ : kind.isSection = true) (children : Fields stands node.children n l v m) :
      Standing E stands kind node n l v m
  | items {node : Node} {n m : Nat} {item : Layout} {vs : List item.Value}
      (children : Items stands item node.children n vs m) (one : OneTag (tags node.children))
      (fits : vs.length ≤ (multiCounter node).most) :
      Standing E stands .multi node n (.many (multiCounter node).width item) vs m
  | tooMany {node : Node} {n : Nat} (item : Layout)
      (many : (multiCounter node).most < likeFirst (tags node.children)) :
      Standing E stands .multi node n (.many (multiCounter node).width item)
        ([] : List item.Value) n
  | notIncluded {node : Node} {n : Nat} (absent : (node.get "src").bind E.document = none) :
      Standing E stands .include_ node n .nothing () n
  | included {node root : Node} {n m : Nat} {l : Layout} {v : l.Value} {src : Text}
      (named : node.get "src" = some src) (some_ : src ≠ []) (document : E.document src = some root)
      (here : stands root n l v m) : Standing E stands .include_ node n l v m

/-- The names that are functions or values of the program. -/
def globalNames : List String :=
  ["save_message_file", "fill_message_length", "int_to_chars", "handle_node", "parse_xml",
    "traversal_child", "handle_node_nop", "handle_node_section", "handle_node_body",
    "handle_node_root"] ++ notCallbacks

/-- What is left of a value after the callbacks. -/
inductive Passed (E : Surroundings) :
    List Text → (l : Layout) → l.Value → (l' : Layout) → l'.Value → Prop
  | done (l : Layout) (v : l.Value) : Passed E [] l v l v
  | filled {names : List Text} {l l' : Layout} {v : l.Value} {v' : l'.Value}
      (short : (l.codec.write v).length < 2 ^ 31) (later : Passed E names (.framed l) v l' v') :
      Passed E ("fill_message_length".toList :: names) l v l' v'
  | saved {names : List Text} {l l' : Layout} {v : l.Value} {v' : l'.Value}
      (writable : E.writable = true) (later : Passed E names l v l' v') :
      Passed E ("save_message_file".toList :: names) l v l' v'
  | ignored {name : Text} {names : List Text} {l l' : Layout} {v : l.Value} {v' : l'.Value}
      (unknown : name ∉ globalNames.map String.toList) (later : Passed E names l v l' v') :
      Passed E (name :: names) l v l' v'

def Stands (E : Surroundings) : Nat → Meaning
  | 0 => fun _ _ _ _ _ => False
  | depth + 1 => fun node n l v m =>
    node ≠ .comment ∧ ∃ (l₀ : Layout) (v₀ : l₀.Value),
      Standing E (Stands E depth) node.handler node n l₀ v₀ m ∧
        Passed E (split ((node.get "callback").getD [])) l₀ v₀ l v

/-! ## What its handler writes -/

theorem Yields.orElse {α : Type} {h h' : Handler α} {n m : Nat} {a : α} (first : Yields h n a m) :
    Yields (h <|> h') n a m := by
  have run : StateT.run h n = (some a, m) := first
  change (OptionT.run (OptionT.orElse h fun _ => h')).run n = (some a, m)
  simp only [OptionT.orElse, OptionT.run_mk, StateT.run_bind, run]
  rfl

/-- The handler writes the value as its codec does, from one reading of the clock to the
next. -/
def Writes (h : Handler Returned) (n : Nat) (l : Layout) (v : l.Value) (m : Nat) : Prop :=
  l.codec.Valid v ∧ Yields h n (.str (l.codec.write v)) m

section
variable {E : Surroundings} {stands : Meaning} {handle : Node → Handler Returned} {n m : Nat}

theorem Fields.encoded (written : ∀ node n l v m, stands node n l v m → Writes (handle node) n l v m)
    {children : List Node} {l : Layout} {v : l.Value} (h : Fields stands children n l v m) :
    l.codec.Valid v ∧
      ∃ items, Encoded handle children n items m ∧ items.flatten = l.codec.write v := by
  induction h with
  | nil n => exact ⟨trivial, [], .nil n, rfl⟩
  | comment later ih =>
    obtain ⟨valid, items, encoded, same⟩ := ih
    exact ⟨valid, items, .comment encoded, same⟩
  | @element _ _ _ _ _ n k m l l' v v' here later ih =>
    obtain ⟨valid, yields⟩ := written _ _ _ _ _ here
    obtain ⟨others, items, encoded, same⟩ := ih
    refine ⟨⟨valid, others⟩, l.codec.write v :: items, .element yields encoded, ?_⟩
    rw [List.flatten_cons, same]
    rfl

theorem Items.encoded (written : ∀ node n l v m, stands node n l v m → Writes (handle node) n l v m)
    {item : Layout} {children : List Node} {vs : List item.Value}
    (h : Items stands item children n vs m) :
    (∀ v ∈ vs, item.codec.Valid v) ∧ Encoded handle children n (vs.map item.codec.write) m := by
  induction h with
  | nil n => exact ⟨by simp, .nil n⟩
  | comment later ih => exact ⟨ih.1, .comment ih.2⟩
  | element here later ih =>
    obtain ⟨valid, yields⟩ := written _ _ _ _ _ here
    exact ⟨List.forall_mem_cons.mpr ⟨valid, ih.1⟩, .element yields ih.2⟩

/-- Where there is no item the clock is not read. -/
theorem Items.still {item : Layout} {children : List Node} {vs : List item.Value}
    (h : Items stands item children n vs m) (none : vs = []) : m = n := by
  induction h with
  | nil n => rfl
  | comment later ih => exact ih none
  | element here later ih => cases none

variable {node : Node}

theorem writes_zero {f : Format} {h : Handler Returned} (zero : Yields h n (zeros f.size) m) :
    Writes h n (.number f) (0 : Int) m := by
  have positive : (0 : Int) < 256 ^ f.size := Int.pow_pos (by decide)
  have fits : f.Fits 0 := by
    unfold Format.Fits
    split <;> omega
  have same : (number f).write 0 = List.replicate f.size nul := by
    rw [write_number, pack, Int.zero_emod, Int.toNat_zero, rawBytes_zero]
  refine ⟨valid_number.mpr fits, ?_⟩
  rw [Layout.codec, same]
  exact zero

/-- A number that fits is what its field holds. -/
theorem writes_of_holds {f : Format} {h : Handler Returned} {v : Int}
    (yields : Yields h n (.str (pack f.size v)) m) (fits : f.Fits v) :
    Writes h n (.number f) v m := by
  refine ⟨valid_number.mpr fits, ?_⟩
  rw [Layout.codec, write_number]
  exact yields

variable (E handle node) in
theorem run_number {kind : NodeHandler} {f : Format} (format : kind.format = some f) :
    ∃ least most : Int, (∀ v, f.Fits v ↔ least ≤ v ∧ v ≤ most) ∧
      kind.run E handle node = handleNumber f.size least most node := by
  cases kind with
  | byte =>
    obtain rfl := Option.some.inj format
    exact ⟨0, 255, fun v => by simp [Format.Fits]; omega, rfl⟩
  | short =>
    obtain rfl := Option.some.inj format
    exact ⟨-32768, 32767, fun v => by simp [Format.Fits]; omega, rfl⟩
  | int =>
    obtain rfl := Option.some.inj format
    exact ⟨-2 ^ 31, 2 ^ 31 - 1, fun v => by simp [Format.Fits]; omega, rfl⟩
  | uint =>
    obtain rfl := Option.some.inj format
    exact ⟨0, 4294967295, fun v => by simp [Format.Fits]; omega, rfl⟩
  | _ => cases format

theorem handleNumber_blank {size : Nat} {least most : Int} (blank : node.text = []) :
    Yields (handleNumber size least most node) n (zeros size) n := by
  rw [handleNumber, if_pos blank]
  exact yields_pure _ n

variable (n) in
theorem handleNumber_int (size : Nat) (least most : Int) {v : Int} (value : int node.text = some v) :
    Yields (handleNumber size least most node) n
      (if v < least ∨ most < v then zeros size else .str (pack size v)) n := by
  have some_ : node.text ≠ [] := by
    intro none
    rw [none, int_nil] at value
    cases value
  rw [handleNumber, if_neg some_]
  exact (yields_ofOption value).bind (yields_pure _ n)

theorem packTime_yields {v : Int} (ne : v ≠ 2 ^ 32) :
    Yields (packTime v) n (if v < 0 ∨ 2 ^ 32 < v then zeros 4 else .str (pack 4 v)) n := by
  unfold packTime
  rw [if_neg ne]
  split <;> exact yields_pure _ n

theorem handleNodeTime_yields {v : Int} (value : timeValue E node n = some v) (ne : v ≠ 2 ^ 32) :
    Yields (handleNodeTime E node) n
      (if v < 0 ∨ 2 ^ 32 < v then zeros 4 else .str (pack 4 v)) (afterTime node n) := by
  unfold timeValue at value
  unfold handleNodeTime afterTime
  by_cases zero : node.text = [] ∨ node.text = "0".toList
  · have later : node.text ≠ "now".toList := by
      rcases zero with zero | zero <;> rw [zero] <;> decide
    rw [if_pos zero] at value
    obtain rfl := Option.some.inj value
    rw [if_pos zero, if_neg later, if_neg (by decide)]
    exact yields_pure _ n
  · rw [if_neg zero] at value
    rw [if_neg zero]
    by_cases now : node.text = "now".toList
    · rw [if_pos now] at value
      obtain rfl := Option.some.inj value
      rw [if_pos now, if_pos now]
      have read : Yields (readClock E) n (E.now n) (n + 1) := rfl
      exact read.bind (packTime_yields ne)
    · rw [if_neg now] at value
      rw [if_neg now, if_neg now]
      exact (yields_ofOption value).bind (packTime_yields ne)

theorem handleNodeIp_yields {t : Text} (packed : E.packed node.text = some t)
    (length : t.length = 4 ∨ t.length = 16) :
    Yields (handleNodeIp E node) n (.str (rawBytes (addressWidth node) t.length ++ t)) n := by
  have field : (if t.length = 4 then (4 : Int) else 16) = t.length := by
    rcases length with length | length <;> rw [length] <;> rfl
  have small : t.length < 256 ^ 1 := by
    rcases length with length | length <;> rw [length] <;> decide
  unfold handleNodeIp addressWidth
  apply (yields_ofOption packed).bind
  dsimp only
  rw [field]
  by_cases short : node.get "counter" = some "short".toList
  · rw [if_pos short, if_pos short, pack_natCast (by omega)]
    exact yields_pure _ n
  · rw [if_neg short, if_neg short, pack_natCast small]
    exact yields_pure _ n

theorem writes_countedText {h : Handler Returned} {width : Nat} {t : Text}
    (symbols : ∀ c ∈ t, isByte c = true) (fits : t.length < 256 ^ width)
    (yields : Yields h n (.str (rawBytes width t.length ++ t)) m) :
    Writes h n (.countedText width) t m := by
  refine ⟨valid_countedText symbols fits, ?_⟩
  rw [write_countedText]
  exact yields

theorem isByte_of_mem_text (ascii : node.text.all isAscii = true) :
    ∀ c ∈ node.text, isByte c = true :=
  fun c mem => isByte_of_isAscii (List.all_eq_true.mp ascii c mem)

theorem writes_noText {h : Handler Returned} {width : Nat} (zero : Yields h n (zeros width) m) :
    Writes h n (.countedText width) ([] : Text) m := by
  have positive : 0 < 256 ^ width := Nat.pow_pos (by decide)
  apply writes_countedText (by simp) positive
  rw [List.length_nil, rawBytes_zero, List.append_nil]
  exact zero

theorem string_writes (ascii : node.text.all isAscii = true)
    (free : (node.get "length").getD [] = []) :
    Writes (handleNodeString node) n (.countedText (stringCounter node).width) (keptText node) n := by
  have most := string_most node
  rw [handleNodeString_counts free]
  by_cases none : node.text.length = 0
  · have kept : keptText node = [] := by
      rw [keptText, List.length_eq_zero_iff.mp none, ite_self]
    rw [if_pos (Or.inl none), kept]
    exact writes_noText (yields_pure _ n)
  · by_cases fits : node.text.length < 256 ^ (stringCounter node).width
    · have kept : keptText node = node.text := if_pos fits
      rw [if_neg (by omega), kept, ofText_ascii ascii, add_str, pack_natCast fits]
      exact writes_countedText (isByte_of_mem_text ascii) fits (yields_pure _ n)
    · have kept : keptText node = [] := if_neg fits
      rw [if_pos (Or.inr (by omega)), kept]
      exact writes_noText (yields_pure _ n)

theorem isByte_of_mem_fixed {t : Text} (length : Nat) (symbols : ∀ c ∈ t, isByte c = true) :
    ∀ c ∈ fixed t length, isByte c = true := by
  intro c mem
  rcases List.mem_append.mp (List.mem_of_mem_take mem) with here | filled
  · exact symbols c here
  · rw [List.eq_of_mem_replicate filled]
    rfl

theorem traversal_writes (silent : handle .comment = pure (.str []))
    (written : ∀ node n l v m, stands node n l v m → Writes (handle node) n l v m)
    {l : Layout} {v : l.Value} (children : Fields stands node.children n l v m) :
    Writes (traversalChild handle node) n l v m := by
  obtain ⟨valid, items, encoded, same⟩ := children.encoded written
  have yields := traversal_encoded silent encoded []
  rw [List.nil_append, same] at yields
  exact ⟨valid, yields⟩

theorem write_many {width : Nat} {item : Layout} (vs : List item.Value) :
    (Layout.many width item).codec.write vs =
      rawBytes width vs.length ++ (vs.map item.codec.write).flatten := by
  have counted : (Layout.many width item).codec.write vs =
      (counter width).write vs.length ++ vs.flatMap item.codec.write := rfl
  rw [counted, write_counter, List.flatMap_def]

theorem writes_noItems {width : Nat} (item : Layout) {h : Handler Returned}
    (zero : Yields h n (zeros width) m) :
    Writes h n (.many width item) ([] : List item.Value) m := by
  have positive : 0 < 256 ^ width := Nat.pow_pos (by decide)
  refine ⟨⟨valid_counter.mpr positive, by simp⟩, ?_⟩
  rw [write_many, List.length_nil, rawBytes_zero, List.map_nil, List.flatten_nil, List.append_nil]
  exact zero

theorem multi_writes (silent : handle .comment = pure (.str []))
    (written : ∀ node n l v m, stands node n l v m → Writes (handle node) n l v m)
    {item : Layout} {vs : List item.Value} (children : Items stands item node.children n vs m)
    (one : OneTag (tags node.children)) (fits : vs.length ≤ (multiCounter node).most) :
    Writes (handleNodeMulti handle node) n (.many (multiCounter node).width item) vs m := by
  obtain ⟨valid, encoded⟩ := children.encoded written
  have length := encoded.length_tags
  rw [List.length_map] at length
  have number : multiNumber node.children = vs.length := by
    rw [multiNumber_eq, likeFirst_eq_length.mpr one, length]
  by_cases none : vs.length = 0
  · obtain rfl := List.length_eq_zero_iff.mp none
    obtain rfl := children.still rfl
    exact writes_noItems item (multi_zeros (Or.inl (number.trans none)))
  · have most := most_lt node
    refine ⟨⟨valid_counter.mpr (by omega), valid⟩, ?_⟩
    rw [write_many, ← number]
    exact multi_counted silent encoded (by omega) (by omega)

theorem Standing.writes (silent : handle .comment = pure (.str []))
    (written : ∀ node n l v m, stands node n l v m → Writes (handle node) n l v m)
    {kind : NodeHandler} {l : Layout} {v : l.Value} (h : Standing E stands kind node n l v m) :
    Writes (kind.run E handle node) n l v m := by
  cases h with
  | blank format blank =>
    obtain ⟨least, most, -, run⟩ := run_number E handle node format
    rw [run]
    exact writes_zero (handleNumber_blank blank)
  | @number _ _ _ f _ format value fits =>
    obtain ⟨least, most, range, run⟩ := run_number E handle node format
    have inside := (range _).mp fits
    have yields := handleNumber_int n f.size least most value
    rw [if_neg (by omega)] at yields
    rw [run]
    exact writes_of_holds yields fits
  | @beyond _ _ _ f _ format value wide =>
    obtain ⟨least, most, range, run⟩ := run_number E handle node format
    have outside := mt (range _).mpr wide
    have yields := handleNumber_int n f.size least most value
    rw [if_pos (by omega)] at yields
    rw [run]
    exact writes_zero yields
  | time value fits =>
    have inside := (fits_time _).mp fits
    have yields := handleNodeTime_yields value (by omega)
    rw [if_neg (by omega)] at yields
    exact writes_of_holds yields fits
  | noTime value wide ne =>
    have outside := mt (fits_time _).mpr wide
    have yields := handleNodeTime_yields value ne
    rw [if_pos (by omega)] at yields
    exact writes_zero yields
  | @text _ _ length _ ascii given number =>
    have symbols := isByte_of_mem_fixed length (isByte_of_mem_text ascii)
    refine ⟨⟨length_fixed _ _, symbols⟩, ?_⟩
    rw [write_text]
    exact string_fixed ascii given number
  | counted ascii free => exact string_writes ascii free
  | address address packed length symbols =>
    have run : kind.run E handle node = handleNodeIp E node := by
      cases kind with
      | ip | ipv4 | ipv6 => rfl
      | _ => cases address
    rw [run]
    apply writes_countedText symbols
    · unfold addressWidth
      split <;> omega
    · exact handleNodeIp_yields packed length
  | fields section_ children =>
    have run : kind.run E handle node = traversalChild handle node := by
      cases kind with
      | nop | section_ | body | root => rfl
      | _ => cases section_
    rw [run]
    exact traversal_writes silent written children
  | items children one fits => exact multi_writes silent written children one fits
  | tooMany item many =>
    rw [← multiNumber_eq] at many
    exact writes_noItems item (multi_zeros (Or.inr many))
  | notIncluded absent =>
    refine ⟨trivial, ?_⟩
    have nothing : Yields (handleNodeInclude handle E node) n (.str []) n := by
      unfold handleNodeInclude
      cases src : node.get "src" with
      | none => exact yields_pure _ n
      | some name =>
        rw [src, Option.bind_some] at absent
        cases name with
        | nil => exact yields_pure _ n
        | cons c rest =>
          dsimp only
          rw [absent]
          rfl
    exact nothing
  | @included _ root _ _ _ _ src named some_ document here =>
    obtain ⟨valid, yields⟩ := written _ _ _ _ _ here
    refine ⟨valid, ?_⟩
    have first : Yields (ofOption (E.document src) >>= handle) n (.str (l.codec.write v)) m :=
      (yields_ofOption document).bind yields
    have included : Yields (handleNodeInclude handle E node) n (.str (l.codec.write v)) m := by
      unfold handleNodeInclude
      cases src with
      | nil => exact absurd rfl some_
      | cons c rest =>
        rw [named]
        exact first.orElse
    exact included

theorem callback_ignored {ret : Returned} {name : Text}
    (unknown : name ∉ globalNames.map String.toList) : callback E handle ret name = pure ret := by
  have ne {known : String} (mem : known ∈ globalNames) : name ≠ known.toList := by
    rintro rfl
    exact unknown (List.mem_map_of_mem mem)
  have traverse : name ∉ ["traversal_child", "handle_node_nop", "handle_node_section",
      "handle_node_body", "handle_node_root"].map String.toList := by
    intro mem
    obtain ⟨known, mem, same⟩ := List.mem_map.mp mem
    have called : known ∈ globalNames := List.mem_append_left _ (List.mem_of_mem_drop (i := 5) mem)
    exact ne called same.symm
  have fails : name ∉ notCallbacks.map String.toList := by
    intro mem
    obtain ⟨known, mem, same⟩ := List.mem_map.mp mem
    exact ne (List.mem_append_right _ mem) same.symm
  unfold callback
  rw [if_neg (ne (by decide)), if_neg (ne (by decide)), if_neg (ne (by decide)),
    if_neg (ne (by decide)), if_neg (ne (by decide)), if_neg traverse, if_neg fails]

theorem fillMessageLength_yields {data : Text} (short : data.length < 2 ^ 31) :
    Yields (fillMessageLength (.str data)) n (.str (rawBytes 4 data.length ++ data)) n := by
  simp only [fillMessageLength, fillMessageLength.length]
  rw [if_neg (by omega), pack_natCast (by omega)]
  exact yields_pure _ n

variable (handle n) in
theorem Passed.writes {names : List Text} {l l' : Layout} {v : l.Value} {v' : l'.Value}
    (h : Passed E names l v l' v') (valid : l.codec.Valid v) :
    l'.codec.Valid v' ∧
      Yields (names.foldlM (callback E handle) (.str (l.codec.write v))) n
        (.str (l'.codec.write v')) n := by
  induction h with
  | done l v => exact ⟨valid, yields_pure _ n⟩
  | @filled names l l' v v' short later ih =>
    obtain ⟨whole, yields⟩ := ih ⟨valid_frameLength.mpr short, valid⟩
    have framed : (Layout.framed l).codec.write v =
        rawBytes 4 (l.codec.write v).length ++ l.codec.write v :=
      congrArg (· ++ l.codec.write v) (write_counter 4 (l.codec.write v).length)
    have filled : Yields (callback E handle (.str (l.codec.write v)) "fill_message_length".toList) n
        (.str ((Layout.framed l).codec.write v)) n := by
      rw [framed]
      exact fillMessageLength_yields short
    exact ⟨whole, filled.bind yields⟩
  | @saved names l l' v v' writable later ih =>
    obtain ⟨whole, yields⟩ := ih valid
    have saved : Yields (callback E handle (.str (l.codec.write v)) "save_message_file".toList) n
        (.str (l.codec.write v)) n := by
      change Yields (if E.writable then _ else _) n _ n
      rw [writable, if_pos rfl]
      exact yields_pure _ n
    exact ⟨whole, saved.bind yields⟩
  | ignored unknown later ih =>
    obtain ⟨whole, yields⟩ := ih valid
    refine ⟨whole, ?_⟩
    rw [List.foldlM_cons, callback_ignored unknown]
    exact (yields_pure _ n).bind yields

end

/-! ## The whole tree -/

theorem handleNode_writes {E : Surroundings} {depth : Nat} {node : Node} {n m : Nat} {l : Layout}
    {v : l.Value} (h : Stands E depth node n l v m) : Writes (handleNode E depth node) n l v m := by
  induction depth generalizing node n l v m with
  | zero => exact h.elim
  | succ depth ih =>
    obtain ⟨some_, l₀, v₀, standing, passed⟩ := h
    cases node with
    | comment => exact absurd rfl some_
    | element tag attributes text children =>
      have silent : handleNode E depth .comment = pure (.str []) := by cases depth <;> rfl
      obtain ⟨valid, yields⟩ := standing.writes silent fun _ _ _ _ _ => ih
      obtain ⟨whole, rest⟩ := passed.writes (handleNode E depth) m valid
      exact ⟨whole, yields.bind rest⟩

/-- A reader that knows the layout of a tree gets its value from the message, whatever
comes after it. -/
theorem message_read_back (E : Surroundings) (depth : Nat) (node : Node) (n m : Nat) (l : Layout)
    (v : l.Value) (stands : Stands E depth node n l v m) :
    ∃ bytes, Yields (handleNode E depth node) n (.str bytes) m ∧
      ∀ rest, l.codec.read (bytes ++ rest) = some (v, rest) := by
  obtain ⟨valid, yields⟩ := handleNode_writes stands
  exact ⟨_, yields, l.codec.read_write valid⟩

/-! ## The message of `user_map.xml` -/

def intNode (tag text : String) : Node :=
  .element tag.toList [("type".toList, "int".toList)] text.toList []

def userPosition : Node :=
  .element "UserPosition".toList [] []
    [intNode "UserId" "1000001", intNode "longitude" "0", intNode "latitude" "0",
      intNode "level" "1", intNode "valid" "1"]

def userMap : Node :=
  .element "root".toList [] []
    [.comment,
      .element "section".toList [("callback".toList, "save_message_file".toList)] []
        [intNode "size" "0",
          .element "body".toList [] []
            [.element "multi".toList [("counter".toList, "int".toList)] [] [userPosition]]]]

def intLayout : Layout := .number ⟨4, true⟩

def userPositionLayout : Layout :=
  .both intLayout (.both intLayout (.both intLayout (.both intLayout (.both intLayout .nothing))))

def userMapLayout : Layout :=
  .both (.both intLayout (.both (.both (.many 4 userPositionLayout) .nothing) .nothing)) .nothing

def userMapValue : userMapLayout.Value :=
  (((0 : Int), (([((1000001 : Int), (0 : Int), (0 : Int), (1 : Int), (1 : Int), ())], ()), ())), ())

theorem stands_intNode {E : Surroundings} {depth n : Nat} (tag text : String) {v : Int}
    (value : int text.toList = some v) (fits : -2 ^ 31 ≤ v ∧ v < 2 ^ 31) :
    Stands E (depth + 1) (intNode tag text) n intLayout v n := by
  have whole : (⟨4, true⟩ : Format).Fits v := by
    change -256 ^ 4 ≤ 2 * v ∧ 2 * v < 256 ^ 4
    omega
  exact ⟨Node.noConfusion, intLayout, v, .number rfl value whole, .done _ _⟩

theorem stands_userPosition : Stands alone 2 userPosition 0 userPositionLayout
    ((1000001 : Int), (0 : Int), (0 : Int), (1 : Int), (1 : Int), ()) 0 := by
  refine ⟨Node.noConfusion, _, _, .fields rfl ?_, .done _ _⟩
  apply Fields.element (stands_intNode _ _ rfl (by decide))
  apply Fields.element (stands_intNode _ _ rfl (by decide))
  apply Fields.element (stands_intNode _ _ rfl (by decide))
  apply Fields.element (stands_intNode _ _ rfl (by decide))
  exact .element (stands_intNode _ _ rfl (by decide)) (.nil 0)

theorem stands_userMap : Stands alone 6 userMap 0 userMapLayout userMapValue 0 := by
  have multi : Stands alone 3 (.element "multi".toList [("counter".toList, "int".toList)] []
      [userPosition]) 0 (.many 4 userPositionLayout)
      [((1000001 : Int), (0 : Int), (0 : Int), (1 : Int), (1 : Int), ())] 0 :=
    ⟨Node.noConfusion, _, _,
      .items (.element stands_userPosition (.nil 0)) (likeFirst_eq_length.mp rfl) (by decide),
      .done _ _⟩
  refine ⟨Node.noConfusion, _, _, .fields rfl (.comment (.element ?_ (.nil 0))), .done _ _⟩
  refine ⟨Node.noConfusion, _, _, .fields rfl ?_, .saved rfl (.done _ _)⟩
  apply Fields.element (stands_intNode _ _ rfl (by decide))
  refine .element ?_ (.nil 0)
  exact ⟨Node.noConfusion, _, _, .fields rfl (.element multi (.nil 0)), .done _ _⟩

theorem message_read_back_userMap :
    ∃ bytes, Yields (handleNode alone 6 userMap) 0 (.str bytes) 0 ∧
      ∀ rest, userMapLayout.codec.read (bytes ++ rest) = some (userMapValue, rest) :=
  message_read_back alone 6 userMap 0 0 userMapLayout userMapValue stands_userMap

end SimpleDsp.Messages
