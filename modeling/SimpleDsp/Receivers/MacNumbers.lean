import SimpleDsp.UserMap.Functions
import SimpleDsp.UserMap.MacNumber

/-!
# The MAC numbers of the receivers

How the receivers take a MAC address from a message. Messages are C strings: a
text here ends where the NUL is.

`mac_numbers_agree_iff`: all receivers read the number of the address, exactly
when the uninitialised unions happen to hold zeros in their high two bytes.
-/

namespace SimpleDsp

open DecimalText FormatScan Programs

namespace UserMap

/-- The integers a scan has stored, in order. -/
def storedInts (args : List Arg) : List Int32 :=
  args.filterMap fun a =>
    match a with
    | .int v => some (Int32.ofInt v)
    | _ => none

/-- What `msg_consume` of `ap_signal_receiver` reads from a message of a camera. -/
structure CameraMsg where
  mac : UInt64
  x : Int32
  y : Int32
  width : Int32
  height : Int32
  mall_id : Int32

/-- The "Mac:" branch; `uninit` is what the four coordinates hold before. -/
def parseMacMsg (uninit : Nat → Int32) (msg : Text) : CameraMsg :=
  let args := scanf
    "Mac:%hhx:%hhx:%hhx:%hhx:%hhx:%hhx Rect:%d,%d,%d,%d Group:%d".toList msg
  let int (i : Nat) : Int32 := (storedInts args)[i]?.getD (uninit i)
  { mac := ((Mac.ofNumber 0).store args).number
    x := int 0
    y := int 1
    width := int 2
    height := int 3
    mall_id := (storedInts args)[4]?.getD 2 }

/-- The "Mac:" branch as a whole. -/
def macMsg (cfg : Config) (uninit : Nat → Int32) (msg : Text) : UserM Unit :=
  let m := parseMacMsg uninit msg
  whenM (0 < m.mac) (do
    let _ ← userAdd cfg m.mac (m.x.toInt + m.width.toInt / (2 : Rat))
      (m.y.toInt + m.height.toInt / (2 : Rat)) INT_MIN m.mall_id
    pure ())

/-- The `i`-th entry of the list that starts at `offset`. -/
def entryMac (uninit : Mac) (offset : Nat) (msg : Text) (i : Nat) : UInt64 :=
  strToUint64 uninit (msg.drop (offset + 19 * i))

/-- In `parse_apmac_msg` the list starts at 30. -/
def apmacEntry (uninit : Mac) (msg : Text) (i : Nat) : UInt64 := entryMac uninit 30 msg i

/-- In `parse_apmac_closer_msg` the list starts where it does in this text. -/
def apmacCloserEntry (uninit : Mac) (msg : Text) (i : Nat) : UInt64 :=
  entryMac uninit "ApMac-Closer:60:cd:a9:00:9a:3a Macs:[".length msg i

/-- What `user_tag_receiver` reads. -/
structure TagMsg where
  mac : UInt64
  usertag : Text

def parseTagMsg (uninit : Mac) (msg : Text) : TagMsg :=
  let args := scanf "Mac %hhx:%hhx:%hhx:%hhx:%hhx:%hhx %s".toList msg
  { mac := (uninit.store args).number
    usertag :=
      match args.drop 6 with
      | .word t :: _ => t
      | _ => [] }

/-- What `user_phone_receiver` reads; its union is wider, with the number in the
first eight bytes. -/
structure PhoneMsg where
  mac : UInt64
  phone : Text

def parsePhoneMsg (msg : Text) : PhoneMsg :=
  let args := scanf "%hhX-%hhX-%hhX-%hhX-%hhX-%hhX|".toList msg
  { mac := ((Mac.ofNumber 0).store args).number
    phone := msg.drop 18 }

/-! ## What they have in common -/

/-- After `front` the message shows the address, and then something that is no
hexadecimal digit. -/
def Shows (front : Text) (sep : Char) (mac : BitVec 48) (msg : Text) : Prop :=
  ∃ t rest, IsMacText sep mac t ∧ EndsHex rest ∧ msg = front ++ (t ++ rest)

section
variable {mac : BitVec 48} {msg : Text}

/-- A format that goes on with the address after `front`. -/
theorem number_scan_iff {uninit : Mac} {front : Text} {sep : Char} {ds ds' : List Directive}
    (hsep : isHexDigit sep = false)
    (hfront : ∀ t, scan ds (front ++ t) = scan (hexes sep 6 ++ ds') t ∨
      scan ds (front ++ t) = scan (hexes sep 6 ++ ds') (skipSpace t))
    (shows_ : Shows front sep mac msg) :
    (uninit.store (scan ds msg)).number = UInt64.ofNat mac.toNat ↔ uninit.HighZero := by
  obtain ⟨t, rest, ⟨ws, hws, rfl⟩, hr, rfl⟩ := shows_
  have args : scan (hexes sep 6 ++ ds') (joined sep ws ++ rest) = _ :=
    scan_hexes hsep hws ds' hr
  have read : scan ds (front ++ (joined sep ws ++ rest)) =
      (macBytes mac).map .byte ++ scan ds' rest := by
    cases hfront (joined sep ws ++ rest) with
    | inl h => rw [h, args]
    | inr h => rw [h, skipSpace_hexes hws, args]
  rw [read]
  exact number_store_eq_iff uninit mac _

theorem strToUint64_shows_iff {uninit : Mac} (h : Shows [] ':' mac msg) :
    strToUint64 uninit msg = UInt64.ofNat mac.toNat ↔ uninit.HighZero := by
  have format : directives "%hhx:%hhx:%hhx:%hhx:%hhx:%hhx".toList = hexes ':' 6 ++ [] := by decide
  rw [strToUint64, scanf, format]
  exact number_scan_iff (by decide) (fun _ => Or.inl rfl) h

/-- The union of the "Mac:" branch is zero. -/
theorem parseMacMsg_mac {uninit : Nat → Int32} (h : Shows "Mac:".toList ':' mac msg) :
    (parseMacMsg uninit msg).mac = UInt64.ofNat mac.toNat := by
  have format :
      directives "Mac:%hhx:%hhx:%hhx:%hhx:%hhx:%hhx Rect:%d,%d,%d,%d Group:%d".toList =
      [.literal 'M', .literal 'a', .literal 'c', .literal ':'] ++
        (hexes ':' 6 ++ directives " Rect:%d,%d,%d,%d Group:%d".toList) := by decide
  rw [parseMacMsg]
  simp only [scanf, format]
  apply (number_scan_iff (by decide) (fun _ => Or.inl rfl) h).mpr
  exact ⟨rfl, rfl⟩

theorem parseTagMsg_mac_iff {uninit : Mac} (h : Shows "Mac ".toList ':' mac msg) :
    (parseTagMsg uninit msg).mac = UInt64.ofNat mac.toNat ↔ uninit.HighZero := by
  have format : directives "Mac %hhx:%hhx:%hhx:%hhx:%hhx:%hhx %s".toList =
      [.literal 'M', .literal 'a', .literal 'c', .space] ++ (hexes ':' 6 ++ [.space, .word]) := by
    decide
  rw [parseTagMsg]
  simp only [scanf, format]
  exact number_scan_iff (by decide) (fun _ => Or.inr rfl) h

theorem parsePhoneMsg_mac (h : Shows [] '-' mac msg) :
    (parsePhoneMsg msg).mac = UInt64.ofNat mac.toNat := by
  have format : directives "%hhX-%hhX-%hhX-%hhX-%hhX-%hhX|".toList =
      hexes '-' 6 ++ [.literal '|'] := by decide
  rw [parsePhoneMsg]
  simp only [scanf, format]
  apply (number_scan_iff (by decide) (fun _ => Or.inl rfl) h).mpr
  exact ⟨rfl, rfl⟩

end

/-- What a number becomes through its text and back is the number, for 48 bits. -/
theorem strToUint64_uint64ToStr_iff {uninit : Mac} (n : UInt64) (h : n.toNat < 2 ^ 48) :
    strToUint64 uninit (uint64ToStr n) = n ↔ uninit.HighZero := by
  have number : n = UInt64.ofNat (BitVec.ofNat 48 n.toNat).toNat := by
    rw [BitVec.toNat_ofNat, Nat.mod_eq_of_lt h, UInt64.ofNat_toNat]
  have shown : Shows [] ':' (BitVec.ofNat 48 n.toNat) (uint64ToStr n) := by
    refine ⟨_, [], isMacText_macWords _, by simp [EndsHex], ?_⟩
    rw [uint64ToStr_eq, BitVec.toNat_ofNat, Nat.mod_eq_of_lt h]
    simp
  rw [← strToUint64_shows_iff shown, ← number]

/-- Every receiver reads the number of the address, and numbers survive
`uint64_to_str` and `str_to_uint64`. -/
structure OneNumber (mac : BitVec 48) (inEntry inCloser inTag inBack : Mac) (uninit : Nat → Int32)
    (apmac closer camera tag phone : Text) (i j : Nat) : Prop where
  entry : apmacEntry inEntry apmac i = UInt64.ofNat mac.toNat
  closer : apmacCloserEntry inCloser closer j = UInt64.ofNat mac.toNat
  camera : (parseMacMsg uninit camera).mac = UInt64.ofNat mac.toNat
  tag : (parseTagMsg inTag tag).mac = UInt64.ofNat mac.toNat
  phone : (parsePhoneMsg phone).mac = UInt64.ofNat mac.toNat
  back : ∀ n : UInt64, n.toNat < 2 ^ 48 → strToUint64 inBack (uint64ToStr n) = n

/-- The numbers agree exactly when each union that is not initialised happens to
hold zeros in its high two bytes. -/
theorem mac_numbers_agree_iff {mac : BitVec 48} {apmac closer camera tag phone : Text} {i j : Nat}
    (hentry : Shows [] ':' mac (apmac.drop (30 + 19 * i)))
    (hcloser : Shows [] ':' mac (closer.drop (37 + 19 * j)))
    (hcamera : Shows "Mac:".toList ':' mac camera) (htag : Shows "Mac ".toList ':' mac tag)
    (hphone : Shows [] '-' mac phone) (inEntry inCloser inTag inBack : Mac) (uninit : Nat → Int32) :
    OneNumber mac inEntry inCloser inTag inBack uninit apmac closer camera tag phone i j ↔
      inEntry.HighZero ∧ inCloser.HighZero ∧ inTag.HighZero ∧ inBack.HighZero := by
  have fits : ∀ n : UInt64, n.toNat < 2 ^ 48 →
      (strToUint64 inBack (uint64ToStr n) = n ↔ inBack.HighZero) :=
    fun n h => strToUint64_uint64ToStr_iff n h
  constructor
  · intro one
    have back := (fits 0 (by decide)).mp (one.back 0 (by decide))
    exact ⟨(strToUint64_shows_iff hentry).mp one.entry, (strToUint64_shows_iff hcloser).mp one.closer,
      (parseTagMsg_mac_iff htag).mp one.tag, back⟩
  · rintro ⟨entry, closer, tag, back⟩
    exact {
      entry := (strToUint64_shows_iff hentry).mpr entry
      closer := (strToUint64_shows_iff hcloser).mpr closer
      camera := parseMacMsg_mac hcamera
      tag := (parseTagMsg_mac_iff htag).mpr tag
      phone := parsePhoneMsg_mac hphone
      back := fun n h => (fits n h).mpr back }

/-- The address `a0:b1:c2:d3:e4:f5` in each of the messages, and unions that hold zeros. -/
theorem mac_numbers_agree_iff_zero : OneNumber 0xa0b1c2d3e4f5 (fun _ => 0) (fun _ => 0) (fun _ => 0)
    (fun _ => 0) (fun _ => 0) "ApMac:60:cd:a9:00:9a:3a Macs:[a0:b1:c2:d3:e4:f5]".toList
    "ApMac-Closer:60:cd:a9:00:9a:3a Macs:[a0:b1:c2:d3:e4:f5]".toList
    "Mac:a0:b1:c2:d3:e4:f5 Rect:1,2,3,4 Group:2".toList "Mac a0:b1:c2:d3:e4:f5 vip".toList
    "A0-B1-C2-D3-E4-F5|13800000000".toList 0 0 := by
  have colons := isMacText_macWords 0xa0b1c2d3e4f5
  have dashes : IsMacText '-' 0xa0b1c2d3e4f5 "A0-B1-C2-D3-E4-F5".toList := by
    refine ⟨["A0".toList, "B1".toList, "C2".toList, "D3".toList, "E4".toList, "F5".toList], ?_,
      by decide⟩
    simp only [macBytes, List.map_cons, List.map_nil, List.forall₂_cons, List.Forall₂.nil, and_true]
    and_intros <;> exact ⟨_, _, rfl, by decide, by decide, by decide⟩
  have bracket : EndsHex "]".toList := endsHex_cons (by decide) _
  have blank (t : Text) : EndsHex (' ' :: t) := endsHex_cons (by decide) t
  have bar (t : Text) : EndsHex ('|' :: t) := endsHex_cons (by decide) t
  exact (mac_numbers_agree_iff ⟨_, _, colons, bracket, by decide⟩ ⟨_, _, colons, bracket, by decide⟩
    ⟨_, _, colons, blank "Rect:1,2,3,4 Group:2".toList, by decide⟩
    ⟨_, _, colons, blank "vip".toList, by decide⟩
    ⟨_, _, dashes, bar "13800000000".toList, by decide⟩ (fun _ => 0) (fun _ => 0) (fun _ => 0)
    (fun _ => 0) (fun _ => 0)).mpr ⟨⟨rfl, rfl⟩, ⟨rfl, rfl⟩, ⟨rfl, rfl⟩, ⟨rfl, rfl⟩⟩

/-- A one in the highest byte of the union `str_to_uint64` does not initialise. -/
theorem mac_number_with_high_byte :
    apmacEntry (fun i => if i = 7 then 1 else 0)
      "ApMac:60:cd:a9:00:9a:3a Macs:[a0:b1:c2:d3:e4:f5]".toList 0 = 0x0100a0b1c2d3e4f5 ∧
    (parseMacMsg (fun _ => 0) "Mac:a0:b1:c2:d3:e4:f5 Rect:1,2,3,4 Group:2".toList).mac =
      0xa0b1c2d3e4f5 ∧
    ¬OneNumber 0xa0b1c2d3e4f5 (fun i => if i = 7 then 1 else 0) (fun _ => 0) (fun _ => 0)
      (fun _ => 0) (fun _ => 0) "ApMac:60:cd:a9:00:9a:3a Macs:[a0:b1:c2:d3:e4:f5]".toList
      "ApMac-Closer:60:cd:a9:00:9a:3a Macs:[a0:b1:c2:d3:e4:f5]".toList
      "Mac:a0:b1:c2:d3:e4:f5 Rect:1,2,3,4 Group:2".toList "Mac a0:b1:c2:d3:e4:f5 vip".toList
      "A0-B1-C2-D3-E4-F5|13800000000".toList 0 0 := by
  have read : apmacEntry (fun i => if i = 7 then 1 else 0)
      "ApMac:60:cd:a9:00:9a:3a Macs:[a0:b1:c2:d3:e4:f5]".toList 0 = 0x0100a0b1c2d3e4f5 := by
    decide +kernel
  refine ⟨read, by decide +kernel, fun one => ?_⟩
  have same := read.symm.trans one.entry
  revert same
  decide

end UserMap

end SimpleDsp
