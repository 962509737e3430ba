import SimpleDsp.Receivers.ShopVisits

/-!
# The VIP lookup

`mac_is_vip` compares the first 17 characters of an entry as they stand, while the
store keys are made of the number that `sscanf` reads from it.

* `uint64ToStr_store`: the text of a number whose six bytes were scanned;
* `scan_canonical`: what is scanned from such a text, whatever follows;
* `vip_lookup_iff`: the entries for which both name one device.
-/

namespace SimpleDsp

open DecimalText FormatScan Programs

namespace UserMap

/-- The text of `mac_is_vip`'s query is the canonical form of the entry's number, made of
hexadecimal digits and colons. -/
def LooksUp (entry : Text × UInt64) : Prop :=
  ∀ shop_id, (macIsVip entry.1 shop_id).Every fun c =>
    match c with
    | .macIsVip mac_string _ => mac_string = uint64ToStr entry.2 ∧
        ∀ c ∈ mac_string, isHexDigit c = true ∨ c = ':'
    | _ => True

/-- `sscanf` stores all six bytes. -/
def ReadsSix (entry : Text) : Prop :=
  (scanf "%hhx:%hhx:%hhx:%hhx:%hhx:%hhx".toList entry).length = 6

instance (entry : Text) : Decidable (ReadsSix entry) := inferInstanceAs (Decidable (_ = 6))

def bytesText (bytes : List UInt8) : Text := joined ':' (bytes.map fun b => hexByte b.toNat)

/-- What `%hhx` makes of two digits and more that follow them. -/
def byteOf (digits : Text) : UInt8 := UInt8.ofNat (min (hexValue digits) (2 ^ 64 - 1))

/-- Six pairs of lower-case digits with colons between them; if more digits follow, the
last byte is the same with them. -/
def Canonical (entry : Text) : Prop :=
  ∃ b5 b4 b3 b2 b1 b0 : UInt8, entry.take 17 = bytesText [b5, b4, b3, b2, b1, b0] ∧
    byteOf (hexByte b0.toNat ++ (entry.drop 17).takeWhile isHexDigit) = b0

/-! ## Six bytes as text -/

section
variable {b5 b4 b3 b2 b1 b0 : UInt8}

theorem eq_six {bs : List UInt8} (h : bs.length = 6) :
    ∃ b5 b4 b3 b2 b1 b0, bs = [b5, b4, b3, b2, b1, b0] := by
  match bs, h with
  | [b5, b4, b3, b2, b1, b0], _ => exact ⟨b5, b4, b3, b2, b1, b0, rfl⟩

theorem byteAt_foldr {l : List UInt8} {i : Nat} (h : i < l.length) :
    byteAt (l.foldr (fun b n => b.toNat + 256 * n) 0) i = l[i].toNat := by
  induction l generalizing i with
  | nil => cases h
  | cons b l ih =>
    have lt := b.toNat_lt
    cases i with
    | zero =>
      simp only [List.foldr_cons, byteAt, Nat.pow_zero, Nat.div_one, List.getElem_cons_zero]
      omega
    | succ i =>
      rw [List.getElem_cons_succ, ← ih (Nat.lt_of_succ_lt_succ h)]
      simp only [List.foldr_cons, byteAt]
      rw [Nat.pow_succ', ← Nat.div_div_eq_div_mul]
      congr 2
      omega

/-- The bytes of the union are those of the number. -/
theorem byteAt_number (m : Mac) (i : Fin 8) : byteAt m.number.toNat i = (m i).toNat := by
  have lt := foldr_bytes_lt (List.ofFn m)
  rw [List.length_ofFn] at lt
  have value : m.number.toNat = (List.ofFn m).foldr (fun b n => b.toNat + 256 * n) 0 :=
    UInt64.toNat_ofNat_of_lt' (by simpa [UInt64.size] using lt)
  rw [value, byteAt_foldr (by simp), List.getElem_ofFn]

theorem uint64ToStr_store (uninit : Mac) :
    uint64ToStr (uninit.store [.byte b5, .byte b4, .byte b3, .byte b2, .byte b1, .byte b0]).number =
      bytesText [b5, b4, b3, b2, b1, b0] := by
  let m := uninit.store [.byte b5, .byte b4, .byte b3, .byte b2, .byte b1, .byte b0]
  have byte (i : Fin 8) : byteAt m.number.toNat i = (m i).toNat := byteAt_number m i
  have words : macWords m.number.toNat =
      [m 5, m 4, m 3, m 2, m 1, m 0].map fun b => hexByte b.toNat := by
    simp only [macWords, List.map_cons, List.map_nil, ← byte]
    rfl
  rw [uint64ToStr_eq]
  exact congrArg (joined ':') words

theorem scan_canonical (b5 b4 b3 b2 b1 b0 : UInt8) (rest : Text) :
    scanf "%hhx:%hhx:%hhx:%hhx:%hhx:%hhx".toList (bytesText [b5, b4, b3, b2, b1, b0] ++ rest) =
      [.byte b5, .byte b4, .byte b3, .byte b2, .byte b1,
        .byte (byteOf (hexByte b0.toNat ++ rest.takeWhile isHexDigit))] := by
  have pair (b : UInt8) : IsHexOf b (hexByte b.toNat) := by
    have := isHexOf_hexByte b.toNat_lt
    rwa [UInt8.ofNat_toNat] at this
  have format : directives "%hhx:%hhx:%hhx:%hhx:%hhx:%hhx".toList =
      hexes ':' 5 ++ [.literal ':', .hexByte] := by decide
  have all : List.Forall₂ IsHexOf [b5, b4, b3, b2, b1]
      ([b5, b4, b3, b2, b1].map fun b => hexByte b.toNat) := by
    simp only [List.map_cons, List.map_nil, List.forall₂_cons, pair, List.Forall₂.nil, and_self]
  have text : bytesText [b5, b4, b3, b2, b1, b0] ++ rest =
      joined ':' ([b5, b4, b3, b2, b1].map fun b => hexByte b.toNat) ++
        ':' :: (hexByte b0.toNat ++ rest) := rfl
  obtain ⟨h, l, digits, high, low, -⟩ := pair b0
  have last : scanHexByte (hexByte b0.toNat ++ rest) =
      some (byteOf (hexByte b0.toNat ++ rest.takeWhile isHexDigit), rest.dropWhile isHexDigit) := by
    have whole := List.takeWhile_append_dropWhile (p := isHexDigit) (l := rest)
    have hex : ∀ c ∈ hexByte b0.toNat ++ rest.takeWhile isHexDigit, isHexDigit c = true := by
      intro c hc
      rw [digits] at hc
      obtain rfl | hc := List.mem_cons.mp hc
      · exact high
      obtain rfl | hc := List.mem_cons.mp hc
      · exact low
      · exact List.all_eq_true.mp List.all_takeWhile c hc
    have read := scanHexByte_digits (by simp [digits]) hex (endsHex_dropWhile rest)
      (by rw [digits]; exact skipHexPrefix_of_isHexDigit low)
    rwa [List.append_assoc, whole] at read
  rw [scanf, format, text]
  have colon : isHexDigit ':' = false := by decide
  have front := scan_hexes colon all [.literal ':', .hexByte]
    (endsHex_cons colon (hexByte b0.toNat ++ rest))
  have back : FormatScan.scan [.literal ':', .hexByte] (':' :: (hexByte b0.toNat ++ rest)) =
      [.byte (byteOf (hexByte b0.toNat ++ rest.takeWhile isHexDigit))] := by
    simp [FormatScan.scan, last]
  rw [back] at front
  exact front

end

/-! ## The lookup -/

section
variable {entry : Text} {uninit : Mac}

theorem looksUp_iff {n : UInt64} : LooksUp (entry, n) ↔
    entry.take 17 = uint64ToStr n ∧ ∀ c ∈ entry.take 17, isHexDigit c = true ∨ c = ':' := by
  constructor
  · intro looks
    obtain ⟨-, asked⟩ := looks 0
    exact (asked true).1
  · intro canonical shop_id
    refine ⟨trivial, fun ok => ?_⟩
    cases ok with
    | true => exact ⟨canonical, fun _ => trivial⟩
    | false => trivial

theorem mem_bytesText {c : Char} {bs : List UInt8} (h : c ∈ bytesText bs) :
    isHexDigit c = true ∨ c = ':' := by
  obtain ⟨w, hw, hc⟩ | rfl := mem_joined h
  · obtain ⟨b, -, rfl⟩ := List.mem_map.mp hw
    obtain ⟨h, l, digits, high, low, -⟩ := isHexOf_hexByte b.toNat_lt
    rw [digits] at hc
    obtain rfl | hc := List.mem_cons.mp hc
    · exact Or.inl high
    · obtain rfl := List.mem_singleton.mp hc
      exact Or.inl low
  · exact Or.inr rfl

theorem readsSix_iff : ReadsSix entry ↔ ∃ b5 b4 b3 b2 b1 b0 : UInt8,
    scanf "%hhx:%hhx:%hhx:%hhx:%hhx:%hhx".toList entry =
      [.byte b5, .byte b4, .byte b3, .byte b2, .byte b1, .byte b0] := by
  constructor
  · intro six
    have format : directives "%hhx:%hhx:%hhx:%hhx:%hhx:%hhx".toList = hexes ':' 6 ++ [] := by decide
    rw [ReadsSix, scanf, format] at six
    obtain ⟨rest, bs, -, length, scanned⟩ | ⟨-, few⟩ := scan_hexes_cases ':' 5 [] entry
    · obtain ⟨b5, b4, b3, b2, b1, b0, rfl⟩ := eq_six length
      refine ⟨b5, b4, b3, b2, b1, b0, ?_⟩
      rw [scanf, format, scanned]
      rfl
    · exact absurd (six.symm.le.trans few) (by decide)
  · rintro ⟨b5, b4, b3, b2, b1, b0, scanned⟩
    rw [ReadsSix, scanned]
    rfl

theorem canonical_iff (six : ReadsSix entry) :
    entry.take 17 = uint64ToStr (strToUint64 uninit entry) ↔ Canonical entry := by
  have parts := List.take_append_drop 17 entry
  constructor
  · intro same
    obtain ⟨b5, b4, b3, b2, b1, b0, scanned⟩ := readsSix_iff.mp six
    rw [strToUint64, scanned, uint64ToStr_store] at same
    refine ⟨b5, b4, b3, b2, b1, b0, same, ?_⟩
    rw [← parts, same, scan_canonical] at scanned
    simp only [List.cons.injEq, Arg.byte.injEq, true_and, and_true] at scanned
    exact scanned
  · rintro ⟨b5, b4, b3, b2, b1, b0, same, last⟩
    have scanned := scan_canonical b5 b4 b3 b2 b1 b0 (entry.drop 17)
    rw [← same, parts, last] at scanned
    rw [strToUint64, scanned, uint64ToStr_store, same]

end

/-- An entry is looked up under its canonical form exactly if it is written so. -/
theorem vip_lookup_iff (uninit : Nat → Mac) (msg : Text) (entry : Text × UInt64)
    (listed : entry ∈ apmacCloserEntries uninit msg) (six : ReadsSix entry.1) :
    LooksUp entry ↔ Canonical entry.1 := by
  obtain ⟨i, -, rfl⟩ := List.mem_map.mp listed
  rw [looksUp_iff]
  constructor
  · rintro ⟨same, -⟩
    exact (canonical_iff six).mp same
  · intro canonical
    refine ⟨(canonical_iff six).mpr canonical, ?_⟩
    obtain ⟨b5, b4, b3, b2, b1, b0, same, -⟩ := canonical
    rw [same]
    exact fun c hc => mem_bytesText hc

def lowerCloser : Text := "ApMac-Closer:60:cd:a9:00:9a:3a Macs:[a0:b1:c2:d3:e4:f5]".toList

def upperCloser : Text := "ApMac-Closer:60:cd:a9:00:9a:3a Macs:[A0:B1:C2:D3:E4:F5]".toList

theorem vip_lookup_iff_lower : LooksUp ("a0:b1:c2:d3:e4:f5]".toList, 0xa0b1c2d3e4f5) := by
  apply (vip_lookup_iff (fun _ _ => 0) lowerCloser ("a0:b1:c2:d3:e4:f5]".toList, 0xa0b1c2d3e4f5)
    (by decide +kernel) (by decide +kernel)).mpr
  exact ⟨0xa0, 0xb1, 0xc2, 0xd3, 0xe4, 0xf5, by decide +kernel, by decide +kernel⟩

/-- Upper-case digits are read as the same number and looked up as they are. -/
theorem vip_lookup_differs :
    ("A0:B1:C2:D3:E4:F5]".toList, 0xa0b1c2d3e4f5) ∈
        apmacCloserEntries (fun _ _ => 0) upperCloser ∧
      ReadsSix "A0:B1:C2:D3:E4:F5]".toList ∧
      ¬LooksUp ("A0:B1:C2:D3:E4:F5]".toList, 0xa0b1c2d3e4f5) := by
  refine ⟨by decide +kernel, by decide +kernel, fun looks => ?_⟩
  obtain ⟨same, -⟩ := looksUp_iff.mp looks
  revert same
  decide +kernel

end UserMap

end SimpleDsp
