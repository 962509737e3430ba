import SimpleDsp.Receivers.ListMessages

/-!
# Lists read in full

* `body_drop`: the entry at each place of a list;
* `decoded_iff`: when a message is decoded completely.
-/

namespace SimpleDsp

open DecimalText FormatScan

namespace UserMap

/-- The message of the access point `ap` that lists `macs`. -/
def ListForm.message (form : ListForm) (ap : Text) (macs : List Text) : Text :=
  form.front ++ (ap ++ (" Macs:[".toList ++ (List.intercalate ", ".toList macs ++ "]".toList)))

/-- The address in a number. -/
def lowBits (n : UInt64) : BitVec 48 := BitVec.ofNat 48 n.toNat

/-- The shop of the access point is looked up, and the loop has the devices, one by one. -/
structure Decoded (form : ListForm) (ap : BitVec 48) (devices : List (BitVec 48)) (msg : Text) :
    Prop where
  ap : ∀ uninit, lowBits (strToUint64 uninit (msg.drop form.front.length)) = ap
  devices : ∀ mem uninit, (form.numbers mem uninit msg).map lowBits = devices

section
variable {mac : BitVec 48} {msg t : Text} {macs : List Text}

/-! ## Lists of texts of one length -/

theorem intercalate_cons_cons (sep a b : Text) (l : List Text) :
    List.intercalate sep (a :: b :: l) = a ++ (sep ++ List.intercalate sep (b :: l)) := by
  simp [List.intercalate]

theorem length_intercalate {sep : Text} {n : Nat} {l : List Text} (lengths : ∀ t ∈ l, t.length = n)
    (some : l ≠ []) :
    (List.intercalate sep l).length + sep.length = (n + sep.length) * l.length := by
  induction l with
  | nil => exact absurd rfl some
  | cons a l ih =>
    have head : a.length = n := lengths a (List.mem_cons_self ..)
    cases l with
    | nil => simp [List.intercalate, head]
    | cons b l =>
      have rest := ih (fun t ht => lengths t (List.mem_cons_of_mem _ ht)) (List.cons_ne_nil b l)
      rw [intercalate_cons_cons, List.length_append, List.length_append, head, List.length_cons,
        Nat.mul_succ, ← rest]
      omega

/-- Behind the entries before it stands the entry, and then a comma or the bracket. -/
theorem body_drop (lengths : ∀ t ∈ macs, t.length = 17) {i : Nat} (h : i < macs.length) :
    ∃ rest, EndsHex rest ∧
      (List.intercalate ", ".toList macs ++ "]".toList).drop (19 * i) = macs[i] ++ rest := by
  induction macs generalizing i with
  | nil => exact absurd h (Nat.not_lt_zero i)
  | cons a l ih =>
    have head : a.length = 17 := lengths a (List.mem_cons_self ..)
    cases l with
    | nil =>
      obtain rfl : i = 0 := by simpa using h
      exact ⟨"]".toList, endsHex_cons (by decide) _, by simp [List.intercalate]⟩
    | cons b l =>
      cases i with
      | zero =>
        rw [intercalate_cons_cons]
        exact ⟨_, endsHex_cons (by decide) _, List.append_assoc ..⟩
      | succ i =>
        obtain ⟨rest, hr, at_⟩ := ih (fun t ht => lengths t (List.mem_cons_of_mem _ ht))
          (Nat.lt_of_succ_lt_succ h)
        refine ⟨rest, hr, ?_⟩
        have skip : 19 * (i + 1) = (a ++ ", ".toList).length + 19 * i := by
          rw [List.length_append, head]
          have two : ", ".toList.length = 2 := rfl
          omega
        rw [intercalate_cons_cons, ← List.append_assoc, List.append_assoc, skip,
          List.drop_length_add_append, at_]
        rfl

/-! ## Addresses -/

theorem length_of_isHexOf {bs : List UInt8} {ws : List Text} (h : List.Forall₂ IsHexOf bs ws) :
    ∀ w ∈ ws, w.length = 2 := by
  induction h with
  | nil => simp
  | cons hb _ ih =>
    obtain ⟨x, y, rfl, -⟩ := hb
    exact List.forall_mem_cons.mpr ⟨rfl, ih⟩

theorem length_macText {sep : Char} (h : IsMacText sep mac t) : t.length = 17 := by
  obtain ⟨ws, hws, rfl⟩ := h
  have six : ws.length = 6 := hws.length_eq.symm
  have whole : (List.intercalate [sep] ws).length + 1 = (2 + 1) * ws.length :=
    length_intercalate (length_of_isHexOf hws) (by rintro rfl; cases six)
  rw [joined]
  omega

theorem nul_notMem_of_isHexOf {bs : List UInt8} {ws : List Text}
    (h : List.Forall₂ IsHexOf bs ws) : ∀ w ∈ ws, nul ∉ w := by
  induction h with
  | nil => simp
  | cons hb _ ih =>
    obtain ⟨x, y, rfl, hx, hy, -⟩ := hb
    refine List.forall_mem_cons.mpr ⟨?_, ih⟩
    intro member
    cases List.mem_pair.mp member with
    | inl same =>
      rw [← same] at hx
      exact absurd hx (by decide)
    | inr same =>
      rw [← same] at hy
      exact absurd hy (by decide)

theorem nul_notMem_macText (h : IsMacText ':' mac t) : nul ∉ t := by
  obtain ⟨ws, hws, rfl⟩ := h
  intro member
  rcases mem_joined member with ⟨w, hw, inside⟩ | same
  · exact nul_notMem_of_isHexOf hws w hw inside
  · exact absurd same (by decide)

theorem lowBits_shows (uninit : Mac) (h : Shows [] ':' mac msg) :
    lowBits (strToUint64 uninit msg) = mac := by
  obtain ⟨t, rest, ⟨ws, hws, rfl⟩, hr, rfl⟩ := h
  have format : directives "%hhx:%hhx:%hhx:%hhx:%hhx:%hhx".toList = hexes ':' 6 ++ [] := by decide
  have args : scan (hexes ':' 6 ++ []) (joined ':' ws ++ rest) =
      (macBytes mac).map .byte ++ scan [] rest := scan_hexes (by decide) hws [] hr
  rw [strToUint64, scanf, format, List.nil_append, args, lowBits, number_store]
  apply BitVec.eq_of_toNat_eq
  rw [BitVec.toNat_ofNat, Nat.add_mul_mod_self_left, Nat.mod_eq_of_lt mac.isLt]

/-! ## Messages -/

section
variable {form : ListForm} {ap : Text}

theorem length_front (form : ListForm) : form.front.length + 24 = form.start := by
  cases form with
  | apMac => rfl
  | apMacCloser => rfl

theorem message_drop (hap : ap.length = 17) (macs : List Text) (i : Nat) :
    (form.message ap macs).drop (form.start + i) =
      (List.intercalate ", ".toList macs ++ "]".toList).drop i := by
  have header : form.start = form.front.length + (ap.length + " Macs:[".toList.length) := by
    have seven : " Macs:[".toList.length = 7 := rfl
    rw [← length_front, hap, seven]
  rw [ListForm.message, header, Nat.add_assoc, Nat.add_assoc, List.drop_length_add_append,
    List.drop_length_add_append, List.drop_length_add_append]

theorem length_message (hap : ap.length = 17) (macs : List Text) :
    (form.message ap macs).length =
      form.start + (List.intercalate ", ".toList macs).length + 1 := by
  have seven : " Macs:[".toList.length = 7 := rfl
  have one : "]".toList.length = 1 := rfl
  simp only [ListForm.message, List.length_append, ← length_front, hap, seven, one]
  omega

theorem fullEntries_message (hap : ap.length = 17) (lengths : ∀ t ∈ macs, t.length = 17) :
    form.fullEntries (form.message ap macs) = macs.length := by
  have whole : (form.message ap macs).length =
      form.start + (List.intercalate ", ".toList macs).length + 1 := length_message hap macs
  rw [ListForm.fullEntries, whole]
  cases macs with
  | nil =>
    have none : (List.intercalate ", ".toList ([] : List Text)).length = 0 := rfl
    rw [none, List.length_nil]
    omega
  | cons a l =>
    have body : (List.intercalate ", ".toList (a :: l)).length + 2 = (17 + 2) * (a :: l).length :=
      length_intercalate lengths (List.cons_ne_nil a l)
    omega

theorem nul_notMem_message (hap : nul ∉ ap) (plain : ∀ t ∈ macs, nul ∉ t) :
    nul ∉ form.message ap macs := by
  have front : nul ∉ form.front := by
    cases form with
    | apMac => decide
    | apMacCloser => decide
  have body : nul ∉ List.intercalate ", ".toList macs := by
    induction macs with
    | nil => exact List.not_mem_nil
    | cons a l ih =>
      obtain ⟨head, rest⟩ := List.forall_mem_cons.mp plain
      cases l with
      | nil => simpa [List.intercalate] using head
      | cons b l =>
        rw [intercalate_cons_cons]
        simp only [List.mem_append, not_or]
        exact ⟨head, by decide, ih rest⟩
  simp only [ListForm.message, List.mem_append, not_or]
  exact ⟨front, hap, by decide, body, by decide⟩

variable {address : BitVec 48} {devices : List (BitVec 48)}

theorem forall_of_forall₂ {P : Text → Prop} (step : ∀ {mac t}, IsMacText ':' mac t → P t)
    (h : List.Forall₂ (IsMacText ':') devices macs) : ∀ t ∈ macs, P t := by
  induction h with
  | nil => simp
  | cons head _ ih => exact List.forall_mem_cons.mpr ⟨step head, ih⟩

theorem decoded_of_le (hap : IsMacText ':' address ap)
    (hmacs : List.Forall₂ (IsMacText ':') devices macs) (few : devices.length ≤ reachable) :
    Decoded form address devices (form.message ap macs) := by
  have lengths : ∀ t ∈ macs, t.length = 17 := forall_of_forall₂ length_macText hmacs
  have plain : nul ∉ form.message ap macs :=
    nul_notMem_message (nul_notMem_macText hap) (forall_of_forall₂ nul_notMem_macText hmacs)
  have entries : form.fullEntries (form.message ap macs) = macs.length :=
    fullEntries_message (length_macText hap) lengths
  have same := hmacs.length_eq
  have start := start_lt form
  have long : form.start ≤ (form.message ap macs).length + 1 := by
    rw [length_message (length_macText hap)]
    omega
  have fits : (form.message ap macs).length < 2 ^ 64 := by
    rw [ListForm.fullEntries] at entries
    rw [reachable] at few
    omega
  have rounds : form.rounds (form.message ap macs) = devices.length := by
    rw [rounds_of_long long fits, entries, ← same]
    rw [reachable] at few
    simp only [Int.bmod]
    split <;> omega
  have inside : ReadsInside form (form.message ap macs) :=
    (readsInside_iff fits).mpr ⟨long, by rw [rounds]; exact few⟩
  constructor
  · intro uninit
    apply lowBits_shows
    refine ⟨ap, " Macs:[".toList ++ (List.intercalate ", ".toList macs ++ "]".toList), hap,
      endsHex_cons (by decide) _, ?_⟩
    exact List.drop_left
  · intro mem uninit
    rw [numbers_inside mem uninit plain fits inside, rounds, List.map_map]
    apply List.ext_getElem
    · simp
    · intro i hi hi'
      obtain ⟨rest, hr, place⟩ := body_drop lengths (i := i) (by omega)
      rw [List.getElem_map, List.getElem_range, Function.comp_apply, entryMac,
        message_drop (length_macText hap), place]
      apply lowBits_shows
      exact ⟨_, rest, hmacs.get hi' (by omega), hr, rfl⟩

/-! ## Too many entries -/

/-- Nothing is read where only NULs are. -/
theorem stringAt_before {msg : Text} {offset : Int32} (before : offset.toInt < 0) :
    stringAt ⟨fun _ => nul, []⟩ msg offset = [] := by
  cases value : offset.toInt with
  | ofNat n =>
    rw [value] at before
    exact absurd before (by simp)
  | negSucc n =>
    have zeros : ((List.range (n + 1)).map fun _ => nul).reverse = nul :: List.replicate n nul := by
      rw [List.map_const', List.length_range, List.reverse_replicate, List.replicate_succ]
    rw [stringAt, value]
    change cString (((List.range (n + 1)).map fun _ => nul).reverse ++ msg) = []
    rw [zeros]
    simp [cString]

theorem strToUint64_nil (uninit : Mac) : strToUint64 uninit [] = uninit.number := rfl

theorem numbers_reachable {msg : Text} (many : reachable < form.rounds msg) (byte : UInt8) :
    (form.numbers ⟨fun _ => nul, []⟩ (fun _ _ => byte) msg)[reachable]? =
      some (Mac.number fun _ => byte) := by
  rw [numbers_eq, List.getElem?_map, List.getElem?_range many, Option.map_some,
    stringAt_before toInt_offset_neg, strToUint64_nil]

/-- A message is decoded completely exactly if an `int` can hold the places of its entries. -/
theorem decoded_iff (form : ListForm) (hap : IsMacText ':' address ap)
    (hmacs : List.Forall₂ (IsMacText ':') devices macs) :
    Decoded form address devices (form.message ap macs) ↔ devices.length ≤ reachable := by
  constructor
  · intro decoded
    by_contra many
    have rounds : form.rounds (form.message ap macs) = devices.length := by
      have lengths := congrArg List.length (decoded.devices ⟨fun _ => nul, []⟩ fun _ _ => 0)
      rwa [List.length_map, numbers_eq, List.length_map, List.length_range] at lengths
    have entry (byte : UInt8) : devices[reachable]? = some (lowBits (Mac.number fun _ => byte)) := by
      rw [← decoded.devices ⟨fun _ => nul, []⟩ fun _ _ => byte, List.getElem?_map,
        numbers_reachable (by omega)]
      rfl
    have same := (entry 0).symm.trans (entry 1)
    exact absurd (Option.some.inj same) (by decide)
  · exact decoded_of_le hap hmacs

theorem decoded_iff_one : Decoded .apMac 0x60cda9009a3a [0xa0b1c2d3e4f5, 7, 0xffffffffffff]
    "ApMac:60:cd:a9:00:9a:3a Macs:[a0:b1:c2:d3:e4:f5, 00:00:00:00:00:07, ff:ff:ff:ff:ff:ff]".toList := by
  have ap : IsMacText ':' 0x60cda9009a3a "60:cd:a9:00:9a:3a".toList := isMacText_macWords _
  have first : IsMacText ':' 0xa0b1c2d3e4f5 "a0:b1:c2:d3:e4:f5".toList := isMacText_macWords _
  have second : IsMacText ':' 7 "00:00:00:00:00:07".toList := isMacText_macWords _
  have third : IsMacText ':' 0xffffffffffff "ff:ff:ff:ff:ff:ff".toList := isMacText_macWords _
  exact (decoded_iff .apMac ap (.cons first (.cons second (.cons third .nil)))).mpr (by decide)

/-- The last of so many entries is looked for before the message. -/
theorem long_list_misread :
    ¬Decoded .apMac 0x60cda9009a3a (List.replicate (reachable + 1) 0xa0b1c2d3e4f5)
      (ListForm.apMac.message "60:cd:a9:00:9a:3a".toList
        (List.replicate (reachable + 1) "a0:b1:c2:d3:e4:f5".toList)) := by
  have ap : IsMacText ':' 0x60cda9009a3a "60:cd:a9:00:9a:3a".toList := isMacText_macWords _
  have device : IsMacText ':' 0xa0b1c2d3e4f5 "a0:b1:c2:d3:e4:f5".toList := isMacText_macWords _
  have list (n : Nat) : List.Forall₂ (IsMacText ':') (List.replicate n 0xa0b1c2d3e4f5)
      (List.replicate n "a0:b1:c2:d3:e4:f5".toList) := by
    induction n with
    | zero => exact .nil
    | succ n ih => exact .cons device ih
  intro decoded
  have few := (decoded_iff .apMac ap (list (reachable + 1))).mp decoded
  rw [List.length_replicate] at few
  omega

end

end

end UserMap

end SimpleDsp
