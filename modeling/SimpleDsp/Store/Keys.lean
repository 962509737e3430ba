import SimpleDsp.Store.Clock
import Mathlib.Algebra.Group.Int.Defs
import Mathlib.Algebra.Group.Nat.Defs

/-!
# Store keys

Every key the repository builds is a list of words with colons between them.
`Key` says which record and attribute a key is for, `Key.words` gives the words
the source concatenates, `Key.text` the key itself. `Key.text_injective`: no two
records share a key.
-/

namespace SimpleDsp

open DecimalText

inductive LocationProp
  | x | y | z | time
  deriving DecidableEq

inductive LogProp
  | mac | time | x | y | z
  deriving DecidableEq

/-- The two `type` strings of a charge. -/
inductive ChargeType
  | show | click
  deriving DecidableEq

inductive AdAttr
  | valid | counter (type : ChargeType) | weight | content | jumpUrl | group
  deriving DecidableEq

inductive GroupAttr
  | adSet | price (type : ChargeType) | cronTimeSet | marketStart | marketEnd
  | marketShopSet | valid | targetLabelSet | owner
  deriving DecidableEq

inductive ConfigAttr
  | sliceX | sliceY
  deriving DecidableEq

def LocationProp.text : LocationProp → Text
  | .x => "x".toList
  | .y => "y".toList
  | .z => "z".toList
  | .time => "time".toList

def LogProp.text : LogProp → Text
  | .mac => "mac".toList
  | .time => "time".toList
  | .x => "x".toList
  | .y => "y".toList
  | .z => "z".toList

def ChargeType.text : ChargeType → Text
  | .show => "show".toList
  | .click => "click".toList

def AdAttr.text : AdAttr → Text
  | .valid => "valid".toList
  | .counter type => type.text ++ ".counter".toList
  | .weight => "weight".toList
  | .content => "content".toList
  | .jumpUrl => "jump.url".toList
  | .group => "group".toList

def GroupAttr.text : GroupAttr → Text
  | .adSet => "ad.set".toList
  | .price type => type.text ++ ".price".toList
  | .cronTimeSet => "cron.time.set".toList
  | .marketStart => "market.start".toList
  | .marketEnd => "market.end".toList
  | .marketShopSet => "market.shop.set".toList
  | .valid => "valid".toList
  | .targetLabelSet => "target.label.set".toList
  | .owner => "owner".toList

def ConfigAttr.text : ConfigAttr → Text
  | .sliceX => "slice.x".toList
  | .sliceY => "slice.y".toList

/-- Lower-case hexadecimal digits of a byte, as `%.2hhx` prints them. -/
def hexByte (n : Nat) : Text := [Nat.digitChar (n / 16), Nat.digitChar (n % 16)]

/-- The byte of a number that counts `256 ^ i`. -/
def byteAt (n i : Nat) : Nat := n / 256 ^ i % 256

/-- The texts of the six low bytes of a number, the highest first. -/
def macWords (n : Nat) : List Text := [5, 4, 3, 2, 1, 0].map fun i => hexByte (byteAt n i)

/-- A record attribute in the store. -/
inductive Key
  | location (mall_id : Int) (mac : UInt64) (prop : LocationProp)
  /-- The same with the MAC address in the form `uint64_to_str` gives it, which
  shows 48 bits. -/
  | locationHex (mall_id : Int) (mac : BitVec 48) (prop : LocationProp)
  | locationShop (mall_id shop_id : Int) (mac : UInt64)
  | logCounter (mall_id : Int) (slice : Stamp)
  | logDataTimeSet (mall_id : Int)
  | logMacSet (mall_id : Int) (slice : Stamp)
  | logLocLogSet (mall_id : Int) (slice : Stamp) (mac : UInt64)
  | logEntry (mall_id : Int) (slice : Stamp) (log_id : Int) (prop : LogProp)
  | userDuration (date : Stamp) (mall_id user_id : Int)
  | userShopDuration (date : Stamp) (mall_id shop_id user_id : Int)
  | shopDuration (date : Stamp) (mall_id shop_id : Int)
  | mallDuration (date : Stamp) (mall_id : Int)
  | isMallVip (mall_id user_id : Int)
  | vipArriveTime (mall_id : Int)
  | shopArriveTime (is_vip : Bool) (mall_id shop_id : Int)
  | macSetDaily (date : Stamp) (mall_id : Int)
  | locationUpdateTime (date : Stamp) (mall_id : Int)
  | locationUpdateTimeShop (date : Stamp) (mall_id shop_id : Int)
  | userLabelSet (user_id : Int)
  | userMac (user_id : Int)
  | userId (mac : UInt64)
  | userShopId (date : Stamp) (user_id : Int)
  | adSpace (mall_id space_id : Int)
  | adLocation (mall_id cell_x cell_y z : Int)
  | ad (mall_id ad_id : Int) (attr : AdAttr)
  | adGroup (mall_id group_id : Int) (attr : GroupAttr)
  | config (attr : ConfigAttr)
  deriving DecidableEq

namespace Key

def macText (mac : UInt64) : Text := digits mac.toNat

def words : Key → List Text
  | location mall_id mac prop => ["location".toList, decimal mall_id, macText mac, prop.text]
  | locationHex mall_id mac prop =>
    "location".toList :: decimal mall_id :: (macWords mac.toNat ++ [prop.text])
  | locationShop mall_id shop_id mac =>
    ["location".toList, decimal mall_id, decimal shop_id, macText mac, "time".toList]
  | logCounter mall_id slice =>
    ["location.log".toList, decimal mall_id, slice.text, "counter".toList]
  | logDataTimeSet mall_id => ["location.log".toList, decimal mall_id, "data.time.set".toList]
  | logMacSet mall_id slice =>
    ["location.log".toList, decimal mall_id, slice.text, "mac.set".toList]
  | logLocLogSet mall_id slice mac =>
    ["location.log".toList, decimal mall_id, slice.text, macText mac, "loc.log.set".toList]
  | logEntry mall_id slice log_id prop =>
    ["location.log".toList, decimal mall_id, slice.text, decimal log_id, prop.text]
  | userDuration date mall_id user_id =>
    ["user".toList, date.text, decimal mall_id, decimal user_id, "duration".toList]
  | userShopDuration date mall_id shop_id user_id =>
    ["user".toList, date.text, decimal mall_id, decimal shop_id, decimal user_id,
      "duration".toList]
  | shopDuration date mall_id shop_id =>
    ["shop".toList, date.text, decimal mall_id, decimal shop_id, "users.duration".toList]
  | mallDuration date mall_id =>
    ["mall".toList, date.text, decimal mall_id, "users.duration".toList]
  | isMallVip mall_id user_id =>
    ["user".toList, decimal mall_id, decimal user_id, "is.mall.vip".toList]
  | vipArriveTime mall_id => ["user.vip".toList, decimal mall_id, "arrive.time".toList]
  | shopArriveTime is_vip mall_id shop_id =>
    [if is_vip then "user.vip".toList else "user".toList, decimal mall_id, decimal shop_id,
      "arrive.time".toList]
  | macSetDaily date mall_id =>
    ["mac.set".toList, date.text, decimal mall_id, "daily".toList]
  | locationUpdateTime date mall_id =>
    ["location.update.time".toList, date.text, decimal mall_id]
  | locationUpdateTimeShop date mall_id shop_id =>
    ["location.update.time".toList, date.text, decimal mall_id, decimal shop_id]
  | userLabelSet user_id => ["user".toList, decimal user_id, "label.set".toList]
  | userMac user_id => ["user".toList, decimal user_id, "mac".toList]
  | userId mac => ["mac".toList, macText mac, "user.id".toList]
  | userShopId date user_id =>
    ["user".toList, date.text, decimal user_id, "location.shop_id".toList]
  | adSpace mall_id space_id =>
    ["ad.space".toList, decimal mall_id, decimal space_id, "ad.group.set".toList]
  | adLocation mall_id cell_x cell_y z =>
    ["ad.location".toList, decimal mall_id, decimal cell_x, decimal cell_y, decimal z,
      "ad.group.set".toList]
  | ad mall_id ad_id attr => ["ad".toList, decimal mall_id, decimal ad_id, attr.text]
  | adGroup mall_id group_id attr =>
    ["ad.group".toList, decimal mall_id, decimal group_id, attr.text]
  | config attr => ["config".toList, attr.text]

/-- The key as `get_data_entry` and the key streams of the source write it. -/
def text (k : Key) : Text := joined ':' k.words

/-! ## No two records share a key -/

/-- Which constructor a list of words comes from: the first word, the number of
words and sometimes the last one tell. -/
def kindOf (ws : List Text) : Nat :=
  let head := ws.headD []
  let last := ws.getLastD []
  match ws.length with
  | 3 =>
    if head = "location.log".toList then 4 else if head = "user.vip".toList then 13
    else if head = "location.update.time".toList then 16 else if head = "mac".toList then 20
    else if last = "mac".toList then 19 else 18
  | 4 =>
    if head = "location".toList then 0
    else if head = "location.log".toList then (if last = "counter".toList then 3 else 5)
    else if head = "mall".toList then 11 else if head = "user.vip".toList then 14
    else if head = "mac.set".toList then 15 else if head = "location.update.time".toList then 17
    else if head = "ad.space".toList then 22 else if head = "ad".toList then 24
    else if head = "ad.group".toList then 25 else if last = "is.mall.vip".toList then 12
    else if last = "arrive.time".toList then 14 else 21
  | 5 =>
    if head = "location".toList then 2
    else if head = "location.log".toList then (if last = "loc.log.set".toList then 6 else 7)
    else if head = "user".toList then 8 else 10
  | 6 => if head = "user".toList then 9 else 23
  | 9 => 1
  | _ => 26

theorem kindOf_words (k : Key) : kindOf k.words = k.ctorIdx := by
  cases k with
  | logEntry mall_id slice log_id prop => cases prop <;> rfl
  | shopArriveTime is_vip mall_id shop_id => cases is_vip <;> rfl
  | _ => rfl

theorem macText_injective : Function.Injective macText := by
  intro a b h
  exact UInt64.toNat_inj.mp (digits_injective h)

@[simp] theorem macText_inj {a b : UInt64} : macText a = macText b ↔ a = b :=
  macText_injective.eq_iff

theorem digitChar_injective : ∀ a b : Fin 16, Nat.digitChar a = Nat.digitChar b → a = b := by
  decide

theorem hexByte_injective {a b : Nat} (ha : a < 256) (hb : b < 256) (h : hexByte a = hexByte b) :
    a = b := by
  simp only [hexByte, List.cons.injEq, and_true] at h
  have hi := digitChar_injective ⟨a / 16, by omega⟩ ⟨b / 16, by omega⟩ h.1
  have lo := digitChar_injective ⟨a % 16, by omega⟩ ⟨b % 16, by omega⟩ h.2
  simp only [Fin.mk.injEq] at hi lo
  omega

theorem macWords_injective {a b : Nat} (ha : a < 2 ^ 48) (hb : b < 2 ^ 48)
    (h : macWords a = macWords b) : a = b := by
  have byte (i : Nat) (hi : hexByte (byteAt a i) = hexByte (byteAt b i)) :
      byteAt a i = byteAt b i := by
    have lt (n : Nat) : byteAt n i < 256 := Nat.mod_lt _ (by decide)
    exact hexByte_injective (lt a) (lt b) hi
  simp only [macWords, List.map_cons, List.map_nil, List.cons.injEq, and_true] at h
  have e0 := byte 0 h.2.2.2.2.2
  have e1 := byte 1 h.2.2.2.2.1
  have e2 := byte 2 h.2.2.2.1
  have e3 := byte 3 h.2.2.1
  have e4 := byte 4 h.2.1
  have e5 := byte 5 h.1
  simp only [byteAt] at e0 e1 e2 e3 e4 e5
  omega

theorem LocationProp.text_injective : Function.Injective LocationProp.text := by
  rintro (_ | _ | _ | _) (_ | _ | _ | _) h <;> first | rfl | exact absurd h (by decide)

theorem LogProp.text_injective : Function.Injective LogProp.text := by
  rintro (_ | _ | _ | _ | _) (_ | _ | _ | _ | _) h <;> first | rfl | exact absurd h (by decide)

theorem AdAttr.text_injective : Function.Injective AdAttr.text := by
  rintro (_ | ⟨_ | _⟩ | _ | _ | _ | _) (_ | ⟨_ | _⟩ | _ | _ | _ | _) h <;>
    first | rfl | exact absurd h (by decide)

theorem GroupAttr.text_injective : Function.Injective GroupAttr.text := by
  rintro (_ | ⟨_ | _⟩ | _ | _ | _ | _ | _ | _ | _) (_ | ⟨_ | _⟩ | _ | _ | _ | _ | _ | _ | _) h <;>
    first | rfl | exact absurd h (by decide)

theorem ConfigAttr.text_injective : Function.Injective ConfigAttr.text := by
  rintro (_ | _) (_ | _) h <;> first | rfl | exact absurd h (by decide)

theorem words_injective : Function.Injective words := by
  intro a b h
  have kind : a.ctorIdx = b.ctorIdx := by rw [← kindOf_words, ← kindOf_words, h]
  cases a <;> cases b <;> first | exact absurd kind (Nat.ne_of_beq_eq_false rfl) | skip
  case locationHex.locationHex m mac p m' mac' p' =>
    simp only [words, List.cons.injEq, true_and] at h
    obtain ⟨hm, hw⟩ := h
    have hp := List.append_inj_right' hw rfl
    have hmac := macWords_injective mac.isLt mac'.isLt (List.append_inj_left' hw rfl)
    rw [decimal_inj.mp hm, BitVec.eq_of_toNat_eq hmac,
      LocationProp.text_injective (List.cons.inj hp).1]
  case shopArriveTime.shopArriveTime v m s v' m' s' =>
    simp only [words, List.cons.injEq, decimal_inj, and_true] at h
    obtain ⟨hv, rfl, rfl⟩ := h
    cases v <;> cases v' <;> first | rfl | exact absurd hv (by decide)
  all_goals
    simp only [words, List.cons.injEq, decimal_inj, macText_inj, true_and, and_true,
      ← Stamp.ext_iff, LocationProp.text_injective.eq_iff, LogProp.text_injective.eq_iff,
      AdAttr.text_injective.eq_iff, GroupAttr.text_injective.eq_iff,
      ConfigAttr.text_injective.eq_iff] at h
  all_goals simp only [h]

/-- The characters of the words between the colons. -/
def isWordChar (c : Char) : Bool :=
  c.isAlphanum || c = '.' || c = '-' || c = '_'

theorem isWordChar_of_isDigit {c : Char} (h : c.isDigit = true) : isWordChar c = true := by
  simp [isWordChar, Char.isAlphanum, h]

theorem isWordChar_of_digit_or_minus {c : Char} (h : c.isDigit = true ∨ c = '-') :
    isWordChar c = true := by
  rcases h with h | rfl
  · exact isWordChar_of_isDigit h
  · decide

theorem isWordChar_digitChar : ∀ d : Fin 16, isWordChar (Nat.digitChar d) = true := by decide

theorem isWordChar_macWords (n : Nat) : ∀ w ∈ macWords n, ∀ c ∈ w, isWordChar c = true := by
  simp only [macWords, List.mem_map]
  rintro _ ⟨i, _, rfl⟩ c h
  have lt : byteAt n i < 256 := Nat.mod_lt _ (by decide)
  rcases List.mem_cons.mp h with rfl | h
  · exact isWordChar_digitChar ⟨_, by omega⟩
  · rw [List.mem_singleton.mp h]
    exact isWordChar_digitChar ⟨byteAt n i % 16, by omega⟩

theorem LocationProp.isWordChar (p : LocationProp) : ∀ c ∈ p.text, isWordChar c = true := by
  apply List.all_eq_true.mp
  cases p <;> decide

theorem LogProp.isWordChar (p : LogProp) : ∀ c ∈ p.text, isWordChar c = true := by
  apply List.all_eq_true.mp
  cases p <;> decide

theorem AdAttr.isWordChar (p : AdAttr) : ∀ c ∈ p.text, isWordChar c = true := by
  apply List.all_eq_true.mp
  rcases p with _ | ⟨_ | _⟩ | _ | _ | _ | _ <;> decide

theorem GroupAttr.isWordChar (p : GroupAttr) : ∀ c ∈ p.text, isWordChar c = true := by
  apply List.all_eq_true.mp
  rcases p with _ | ⟨_ | _⟩ | _ | _ | _ | _ | _ | _ | _ <;> decide

theorem ConfigAttr.isWordChar (p : ConfigAttr) : ∀ c ∈ p.text, isWordChar c = true := by
  apply List.all_eq_true.mp
  cases p <;> decide

/-- Numbers, dates and the fixed words are made of letters, digits, dots, minus
signs and underscores. -/
theorem isWordChar_of_mem_words (k : Key) : ∀ w ∈ k.words, ∀ c ∈ w, isWordChar c = true := by
  have number (v : Int) : ∀ c ∈ decimal v, isWordChar c = true :=
    fun _ h => isWordChar_of_digit_or_minus (mem_decimal h)
  have stamp (s : Stamp) : ∀ c ∈ s.text, isWordChar c = true :=
    fun c h => isWordChar_of_digit_or_minus (s.plain c h)
  have mac (m : UInt64) : ∀ c ∈ macText m, isWordChar c = true :=
    fun _ h => isWordChar_of_isDigit (isDigit_of_mem_digits h)
  have vip (b : Bool) :
      ∀ c ∈ (if b then "user.vip".toList else "user".toList), isWordChar c = true := by
    apply List.all_eq_true.mp
    cases b <;> decide
  cases k <;> simp only [words, List.forall_mem_cons, List.forall_mem_append] <;> and_intros
  all_goals first
    | exact number _
    | exact stamp _
    | exact mac _
    | exact vip _
    | exact isWordChar_macWords _
    | exact LocationProp.isWordChar _
    | exact LogProp.isWordChar _
    | exact AdAttr.isWordChar _
    | exact GroupAttr.isWordChar _
    | exact ConfigAttr.isWordChar _
    | exact List.forall_mem_nil _
    | exact List.all_eq_true.mp (by decide)

theorem colon_not_mem_words (k : Key) : ∀ w ∈ k.words, ':' ∉ w :=
  fun w hw hc => absurd (isWordChar_of_mem_words k w hw ':' hc) (by decide)

theorem words_eq_cons (k : Key) : ∃ w ws, k.words = w :: ws ∧ w ≠ [] := by
  cases k with
  | shopArriveTime is_vip => cases is_vip <;> exact ⟨_, _, rfl, by decide⟩
  | _ => exact ⟨_, _, rfl, by decide⟩

theorem words_ne_nil (k : Key) : k.words ≠ [] := by
  obtain ⟨w, ws, e, _⟩ := words_eq_cons k
  simp [e]

theorem text_injective : Function.Injective text := by
  intro a b h
  exact words_injective (joined_injective (colon_not_mem_words a) (colon_not_mem_words b)
    (words_ne_nil a) (words_ne_nil b) h)

@[simp] theorem text_inj {a b : Key} : a.text = b.text ↔ a = b := text_injective.eq_iff

theorem mem_text {k : Key} {c : Char} (h : c ∈ k.text) : isWordChar c = true ∨ c = ':' := by
  rcases mem_joined h with ⟨w, hw, hc⟩ | h
  · exact Or.inl (isWordChar_of_mem_words k w hw c hc)
  · exact Or.inr h

theorem text_ne_nil (k : Key) : k.text ≠ [] := by
  obtain ⟨w, ws, e, hw⟩ := words_eq_cons k
  rw [text, e]
  exact joined_cons_ne_nil hw

end Key

end SimpleDsp
