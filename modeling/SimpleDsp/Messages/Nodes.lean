import SimpleDsp.Lib.DecimalText
import SimpleDsp.Store.Value

/-!
# Message files

What `generate_message_file.py` makes of a parsed message: a handler for each
kind of node, `handleNode` over the whole tree. Handlers read the clock and may
raise; what a handler prints is left out.
-/

namespace SimpleDsp.Messages

open DecimalText

/-! ## Nodes and what handlers return -/

/-- A parsed node. Comments and instructions are no `_Element`. -/
inductive Node
  | element (tag : Text) (attributes : List (Text × Text)) (text : Text) (children : List Node)
  | comment

/-- `node.get(key)` -/
def Node.get (key : String) : Node → Option Text
  | .element _ attributes _ _ => attributes.lookup key.toList
  | .comment => none

/-- `node.text`, where nothing and the empty text are the same after `handle_node`. -/
def Node.text : Node → Text
  | .element _ _ text _ => text
  | .comment => []

def Node.children : Node → List Node
  | .element _ _ _ children => children
  | .comment => []

/-- The tag of an element; that of a comment is equal to no text. -/
def Node.tag : Node → Option Text
  | .element tag _ _ _ => some tag
  | .comment => none

/-- Python 2 keeps bytes and texts apart; a handler may also return `None`. -/
inductive Returned
  | str (bytes : Text)
  | unicode (text : Text)
  | none
  deriving DecidableEq

def isAscii (c : Char) : Bool := c.toNat < 128

/-- The parser keeps a text as bytes where it can. -/
def ofText (t : Text) : Returned := if t.all isAscii then .str t else .unicode t

/-- What is read while a message is made. -/
structure Surroundings where
  /-- `open` and `etree.XML`; `none` where one of them raises -/
  document : Text → Option Node
  /-- `ipaddress.ip_address(text).packed` -/
  packed : Text → Option Text
  /-- the readings of `long(time.time())` -/
  now : Nat → Int
  /-- `long(time.mktime(time.strptime(text, '%Y/%m/%d %H:%M:%S')))` -/
  mktime : Text → Option Int
  /-- whether `file_name` can be written -/
  writable : Bool

/-- A handler counts the readings of the clock, and keeps the count where it raises. -/
abbrev Handler := OptionT (StateM Nat)

def raise {α : Type} : Handler α := failure

def ofOption {α : Type} : Option α → Handler α
  | some a => pure a
  | none => raise

/-- `a + b`. Bytes beside a text are taken for ASCII. -/
def Returned.add : Returned → Returned → Option Returned
  | .str a, .str b => some (.str (a ++ b))
  | .str a, .unicode b => if a.all isAscii then some (.unicode (a ++ b)) else .none
  | .unicode a, .str b => if b.all isAscii then some (.unicode (a ++ b)) else .none
  | .unicode a, .unicode b => some (.unicode (a ++ b))
  | .none, _ => .none
  | _, .none => .none

@[simp] theorem add_str (a b : Text) : Returned.add (.str a) (.str b) = some (.str (a ++ b)) := rfl

/-! ## Numbers -/

/-- `'\x00'*n` -/
def zeros (n : Nat) : Returned := .str (List.replicate n nul)

/-- `struct.pack_into` of a number into `size` bytes, the lowest first -/
def pack (size : Nat) (value : Int) : Text := rawBytes size (value % 256 ^ size).toNat

/-- `int(text)` and `long(text)`: an optional sign and digits, with white space around. -/
def int (t : Text) : Option Int :=
  match scanInt t with
  | some (v, rest) => if skipSpace rest = [] then some v else none
  | none => none

/-- A number of `size` bytes between `least` and `most`; outside they are zeros. -/
def handleNumber (size : Nat) (least most : Int) (node : Node) : Handler Returned :=
  if node.text = [] then pure (zeros size)
  else do
    let value ← ofOption (int node.text)
    pure (if value < least ∨ most < value then zeros size else .str (pack size value))

def handleNodeByte : Node → Handler Returned := handleNumber 1 0 255
def handleNodeShort : Node → Handler Returned := handleNumber 2 (-32768) 32767
def handleNodeInt : Node → Handler Returned := handleNumber 4 (-2 ^ 31) (2 ^ 31 - 1)
def handleNodeUint : Node → Handler Returned := handleNumber 4 0 4294967295

/-! ## Texts and addresses -/

/-- A field for a count of what follows, and the greatest count it takes. -/
structure Counter where
  width : Nat
  most : Nat

/-- `text[:length]` -/
def slice (t : Text) (length : Int) : Text :=
  if 0 ≤ length then t.take length.toNat else t.take (t.length - length.natAbs)

/-- The counter of a text has one byte or two. -/
def stringCounter (node : Node) : Counter :=
  if node.get "counter" = some "short".toList then ⟨2, 65535⟩ else ⟨1, 255⟩

def handleNodeString (node : Node) : Handler Returned :=
  let counted : Handler Returned :=
    let counter := stringCounter node
    let length := node.text.length
    if length = 0 ∨ counter.most < length then pure (zeros counter.width)
    else ofOption (Returned.add (.str (pack counter.width length)) (ofText node.text))
  match node.get "length" with
  | none => counted
  | some [] => counted
  | some length => do
    let length ← ofOption (int length)
    if length < node.text.length then
      -- A part of a text is of the text's own kind.
      pure (match ofText node.text with
        | .unicode t => .unicode (slice t length)
        | _ => .str (slice node.text length))
    else ofOption (Returned.add (ofText node.text) (zeros (length - node.text.length).toNat))

/-- Without a length the text is behind its counter. -/
theorem handleNodeString_counts {node : Node} (free : (node.get "length").getD [] = []) :
    handleNodeString node =
      if node.text.length = 0 ∨ (stringCounter node).most < node.text.length then
        pure (zeros (stringCounter node).width)
      else ofOption (Returned.add (.str (pack (stringCounter node).width node.text.length))
        (ofText node.text)) := by
  unfold handleNodeString
  cases given : node.get "length" with
  | none => rfl
  | some t =>
    rw [given, Option.getD_some] at free
    rw [free]

def handleNodeIp (E : Surroundings) (node : Node) : Handler Returned := do
  let s_ip ← ofOption (E.packed node.text)
  let length := if s_ip.length = 4 then 4 else 16
  if node.get "counter" = some "short".toList then pure (.str (pack 2 length ++ s_ip))
  else pure (.str (pack 1 length ++ s_ip))

def handleNodeIpv4 (E : Surroundings) : Node → Handler Returned := handleNodeIp E
def handleNodeIpv6 (E : Surroundings) : Node → Handler Returned := handleNodeIp E

/-- The next reading of the clock. -/
def readClock (E : Surroundings) : Handler Int := do
  let readings ← get
  set (readings + 1)
  pure (E.now readings)

def handleNodeTime (E : Surroundings) (node : Node) : Handler Returned :=
  if node.text = [] ∨ node.text = "0".toList then pure (zeros 4)
  else do
    let mk_time ←
      if node.text = "now".toList then readClock E else ofOption (E.mktime node.text)
    if mk_time < 0 ∨ 2 ^ 32 < mk_time then pure (zeros 4)
    -- The greatest time let through does not fit.
    else if mk_time = 2 ^ 32 then raise
    else pure (.str (pack 4 mk_time))

/-! ## Nodes with children -/

section
variable (handle : Node → Handler Returned)

/-- One turn of `traversal_child`. -/
def appendChild (ret : Returned) (child : Node) : Handler Returned := do
  let encoding ← handle child
  ofOption (ret.add encoding)

def traversalChild (node : Node) : Handler Returned :=
  node.children.foldlM (appendChild handle) (.str [])

def handleNodeNop : Node → Handler Returned := traversalChild handle
def handleNodeSection : Node → Handler Returned := traversalChild handle
def handleNodeBody : Node → Handler Returned := traversalChild handle
def handleNodeRoot : Node → Handler Returned := traversalChild handle

/-- `first_tag` and `number`. A tag is never empty, so `not first_tag` is the `None`
it begins with. -/
def countChild : Option Text × Nat → Node → Option Text × Nat
  | (first_tag, number), .element tag _ _ _ =>
    match first_tag with
    | none => (some tag, number + 1)
    | some first => if tag = first then (first_tag, number + 1) else (first_tag, number)
  | counted, .comment => counted

def multiNumber (children : List Node) : Nat := (children.foldl countChild (none, 0)).2

def multiCounter (node : Node) : Counter :=
  if node.get "counter" = some "short".toList then ⟨2, 65535⟩
  else if node.get "counter" = some "int".toList then ⟨4, 4294967295⟩
  else ⟨1, 255⟩

def handleNodeMulti (node : Node) : Handler Returned :=
  let number := multiNumber node.children
  let counter := multiCounter node
  if number = 0 ∨ counter.most < number then pure (zeros counter.width)
  else do
    let ret := Returned.str (pack counter.width number)
    ofOption (ret.add (← traversalChild handle node))

/-- Whatever is raised on the way to another file's message, nothing comes of it. -/
def handleNodeInclude (E : Surroundings) (node : Node) : Handler Returned :=
  match node.get "src" with
  | none => pure (.str [])
  | some [] => pure (.str [])
  | some src => (ofOption (E.document src) >>= handle) <|> pure (.str [])

end

/-! ## Callbacks -/

/-- `fill_message_length` -/
def fillMessageLength : Returned → Handler Returned
  | .none => raise
  | .str data => length data (.str data)
  | .unicode data => length data (.unicode data)
where
  length (data : Text) (ret : Returned) : Handler Returned :=
    ofOption (Returned.add
      (if 2 ^ 31 - 1 < data.length then zeros 4 else .str (pack 4 data.length)) ret)

/-- `save_message_file` -/
def saveMessageFile (E : Surroundings) : Returned → Handler Returned
  | .none => raise
  | .str data => if E.writable then pure (.str data) else raise
  | .unicode data => if E.writable ∧ data.all isAscii then pure (.unicode data) else raise

/-- Called with a text, `traversal_child` finds characters, and none of them an element. -/
def traverseText : Returned → Handler Returned
  | .none => raise
  | _ => pure (.str [])

/-- `parse_xml`, which returns nothing -/
def parseXml (E : Surroundings) (handle : Node → Handler Returned) : Returned → Handler Returned
  | .none => raise
  | .str name => parse name
  | .unicode name => parse name
where
  parse (name : Text) : Handler Returned := do
    let root ← ofOption (E.document name)
    let _ ← handle root
    pure .none

/-- The names that fail when they are called with what a handler returned. -/
def notCallbacks : List String :=
  ["handle_node_include", "handle_node_byte", "handle_node_short", "handle_node_int",
    "handle_node_uint", "handle_node_string", "handle_node_multi", "handle_node_ip",
    "handle_node_time", "handle_node_ipv4", "handle_node_ipv6", "os", "sys", "time", "etree",
    "struct", "ctypes", "ipaddress", "file_name", "message_buffer", "message_buffer_tmp",
    "__name__", "__doc__", "__file__", "__package__", "__builtins__"]

/-- `globals()[callback](ret)`, and `ret` itself where there is no such name. -/
def callback (E : Surroundings) (handle : Node → Handler Returned) (ret : Returned) (name : Text) :
    Handler Returned :=
  if name = "save_message_file".toList then saveMessageFile E ret
  else if name = "fill_message_length".toList then fillMessageLength ret
  -- Nothing that a handler returns is a number in range.
  else if name = "int_to_chars".toList then pure .none
  else if name = "handle_node".toList then pure (.str [])
  else if name = "parse_xml".toList then parseXml E handle ret
  else if name ∈ ["traversal_child", "handle_node_nop", "handle_node_section", "handle_node_body",
      "handle_node_root"].map String.toList then traverseText ret
  else if name ∈ notCallbacks.map String.toList then raise
  else pure ret

/-- The white space of `split`. -/
def isSeparator (c : Char) : Bool :=
  isSpace c || c.toNat ∈ [0x85, 0xa0, 0x1680, 0x180e, 0x2028, 0x2029, 0x202f, 0x205f, 0x3000] ||
    0x2000 ≤ c.toNat && c.toNat ≤ 0x200a

def split (t : Text) : List Text := (t.splitOnP isSeparator).filter (· ≠ [])

/-! ## All nodes -/

/-- The functions named `handle_node_` and more. -/
inductive NodeHandler
  | nop | include_ | section_ | byte | short | int | uint | string | multi | ip | time | ipv4 | ipv6
  | body | root

def nodeHandler (name : Text) : Option NodeHandler :=
  if name = "nop".toList then some .nop
  else if name = "include".toList then some .include_
  else if name = "section".toList then some .section_
  else if name = "byte".toList then some .byte
  else if name = "short".toList then some .short
  else if name = "int".toList then some .int
  else if name = "uint".toList then some .uint
  else if name = "string".toList then some .string
  else if name = "multi".toList then some .multi
  else if name = "ip".toList then some .ip
  else if name = "time".toList then some .time
  else if name = "ipv4".toList then some .ipv4
  else if name = "ipv6".toList then some .ipv6
  else if name = "body".toList then some .body
  else if name = "root".toList then some .root
  else none

def NodeHandler.run (E : Surroundings) (handle : Node → Handler Returned) :
    NodeHandler → Node → Handler Returned
  | .nop => handleNodeNop handle
  | .include_ => handleNodeInclude handle E
  | .section_ => handleNodeSection handle
  | .byte => handleNodeByte
  | .short => handleNodeShort
  | .int => handleNodeInt
  | .uint => handleNodeUint
  | .string => handleNodeString
  | .multi => handleNodeMulti handle
  | .ip => handleNodeIp E
  | .time => handleNodeTime E
  | .ipv4 => handleNodeIpv4 E
  | .ipv6 => handleNodeIpv6 E
  | .body => handleNodeBody handle
  | .root => handleNodeRoot handle

/-- `lower`. One letter outside ASCII has its lower case in it and in a handler's name. -/
def lower (t : Text) : Text := t.map fun c => if c = 'İ' then 'i' else c.toLower

/-- The handler of an element, by its type or else by its tag. -/
def Node.handler (node : Node) : NodeHandler :=
  let byTag : NodeHandler :=
    match node.tag with
    | some tag =>
      if tag ∈ ["root", "section", "body", "multi", "include"].map String.toList then
        (nodeHandler tag).getD .nop
      else .nop
    | none => .nop
  match node.get "type" with
  | some s_type => (nodeHandler (lower s_type)).getD byTag
  | none => byTag

/-- `handle_node`, for which Python has `depth` nested calls left. -/
def handleNode (E : Surroundings) : Nat → Node → Handler Returned
  | _, .comment => pure (.str [])
  | 0, .element .. => raise
  | depth + 1, .element tag attributes text children => do
    let node := Node.element tag attributes text children
    let ret ← node.handler.run E (handleNode E depth) node
    (split ((node.get "callback").getD [])).foldlM (callback E (handleNode E depth)) ret

end SimpleDsp.Messages
