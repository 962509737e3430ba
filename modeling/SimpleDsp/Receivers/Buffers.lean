import SimpleDsp.Receivers.MacNumbers

/-!
# Buffers of the tag and phone receivers

What the two receivers write and read around the message they have copied:

* `usertag_iff`: when the tag stays inside its array;
* `phone_iff`: when the phone starts inside the copy;
* `buffers_kept_iff`: both.
-/

namespace SimpleDsp

open DecimalText FormatScan

namespace UserMap

/-! ## The copy of a message -/

/-- `p_msg`: what `strncpy` leaves of the payload, and the terminator. -/
def copied (payload : Text) : Text :=
  cString payload ++ List.replicate (payload.length - (cString payload).length) nul ++ [nul]

/-- The text that starts at `offset` of a buffer; `none` if the buffer ends before it does. -/
def bufferText (buffer : Text) (offset : Nat) : Option Text :=
  if nul ∈ buffer.drop offset then some (cString (buffer.drop offset)) else none

theorem length_copied (payload : Text) : (copied payload).length = payload.length + 1 := by
  have le := length_cString_le payload
  simp only [copied, List.length_append, List.length_replicate, List.length_singleton]
  omega

/-- After the text, the copy holds zeros only. -/
theorem copied_eq (payload : Text) : ∃ zeros : Nat,
    copied payload = cString payload ++ List.replicate (zeros + 1) nul := by
  refine ⟨payload.length - (cString payload).length, ?_⟩
  rw [copied, List.append_assoc, List.replicate_succ']

theorem cString_copied (payload : Text) : cString (copied payload) = cString payload := by
  obtain ⟨zeros, e⟩ := copied_eq payload
  rw [e, List.replicate_succ]
  exact cString_append_nul (nul_notMem_cString payload)

theorem bufferText_copied (payload : Text) (offset : Nat) :
    bufferText (copied payload) offset =
      if offset ≤ payload.length then some ((cString payload).drop offset) else none := by
  unfold bufferText
  by_cases inside : offset ≤ payload.length
  · have last : nul ∈ (copied payload).drop offset := by
      rw [copied, List.drop_append_of_le_length (by
        have le := length_cString_le payload
        simp only [List.length_append, List.length_replicate]
        omega)]
      exact List.mem_append_right _ (List.mem_singleton.mpr rfl)
    rw [if_pos last, if_pos inside]
    obtain ⟨zeros, e⟩ := copied_eq payload
    have tail : nul ∉ (cString payload).drop offset :=
      fun h => nul_notMem_cString payload (List.mem_of_mem_drop h)
    have length := congrArg List.length e
    simp only [length_copied, List.length_append, List.length_replicate] at length
    obtain ⟨more, left⟩ : ∃ more, zeros + 1 - (offset - (cString payload).length) = more + 1 :=
      ⟨zeros - (offset - (cString payload).length), by omega⟩
    rw [e, List.drop_append, List.drop_replicate, left, List.replicate_succ,
      cString_append_nul tail]
  · have beyond : (copied payload).drop offset = [] :=
      List.drop_eq_nil_of_le (by rw [length_copied]; omega)
    rw [beyond, if_neg List.not_mem_nil, if_neg inside]

/-! ## Tags -/

/-- What `sscanf` writes into `usertag`, the terminator included. -/
def usertagWritten (payload : Text) : Text :=
  match (scanf "Mac %hhx:%hhx:%hhx:%hhx:%hhx:%hhx %s".toList (cString (copied payload))).drop 6 with
  | .word t :: _ => t ++ [nul]
  | _ => []

/-- Unless the message is a `Mac` with six hexadecimal numbers and a word of 40
characters or more after them. -/
def TagFits (payload : Text) : Prop :=
  ∀ t rest, cString payload = "Mac".toList ++ t → HexNumbers ':' 6 (skipSpace t) rest →
    (word rest).length ≤ 39

theorem skipSpace_idem (t : Text) : skipSpace (skipSpace t) = skipSpace t := by
  induction t with
  | nil => rfl
  | cons c t ih =>
    cases blank : isSpace c with
    | true =>
      have step : skipSpace (c :: t) = skipSpace t := List.dropWhile_cons_of_pos blank
      rw [step, ih]
    | false => rw [skipSpace_of_head blank, skipSpace_of_head blank]

theorem scan_word (t : Text) :
    scan [.space, .word] t = if word t = [] then [] else [.word (word t)] := by
  have same : word (skipSpace t) = word t := by rw [word, word, skipSpace_idem]
  rw [scan, scan, same]
  split
  · rfl
  · rw [scan]

theorem scan_mac (ds : List Directive) (t : Text) :
    scan ([.literal 'M', .literal 'a', .literal 'c', .space] ++ ds) ("Mac".toList ++ t) =
      scan ds (skipSpace t) := by
  simp [scan]

theorem scan_mac_other {t : Text} (other : ∀ u, t ≠ "Mac".toList ++ u) (ds : List Directive) :
    scan ([.literal 'M', .literal 'a', .literal 'c', .space] ++ ds) t = [] := by
  obtain _ | ⟨m, t⟩ := t
  · rfl
  by_cases hm : m = 'M'
  · subst hm
    obtain _ | ⟨a, t⟩ := t
    · rfl
    by_cases ha : a = 'a'
    · subst ha
      obtain _ | ⟨c, t⟩ := t
      · rfl
      by_cases hc : c = 'c'
      · subst hc
        exact absurd rfl (other t)
      · simp [scan, hc]
    · simp [scan, ha]
  · simp [scan, hm]

theorem tagDirectives : directives "Mac %hhx:%hhx:%hhx:%hhx:%hhx:%hhx %s".toList =
    [.literal 'M', .literal 'a', .literal 'c', .space] ++ (hexes ':' 6 ++ [.space, .word]) := by
  decide

theorem usertag_iff (payload : Text) : (usertagWritten payload).length ≤ 40 ↔ TagFits payload := by
  unfold usertagWritten TagFits
  rw [cString_copied, scanf, tagDirectives]
  by_cases mac : ∃ t, cString payload = "Mac".toList ++ t
  · obtain ⟨t, ht⟩ := mac
    rw [ht, scan_mac]
    obtain ⟨rest, bs, numbers, length, scanned⟩ | ⟨none, few⟩ :=
      scan_hexes_cases ':' 5 [.space, .word] (skipSpace t)
    · have tag : (scan (hexes ':' 6 ++ [.space, .word]) (skipSpace t)).drop 6 =
          if word rest = [] then [] else [.word (word rest)] := by
        rw [scanned, List.drop_left' (by rw [List.length_map, length]), scan_word]
      have only : (∀ t' rest', "Mac".toList ++ t = "Mac".toList ++ t' →
          HexNumbers ':' 6 (skipSpace t') rest' → (word rest').length ≤ 39) ↔
            (word rest).length ≤ 39 := by
        constructor
        · intro all
          exact all t rest rfl numbers
        · intro short t' rest' same numbers'
          obtain rfl := List.append_cancel_left same
          rwa [← numbers.unique numbers']
      rw [tag, only]
      by_cases empty : word rest = []
      · simp [empty]
      · simp only [empty, ↓reduceIte, List.length_append, List.length_singleton]
        omega
    · have tag : (scan (hexes ':' 6 ++ [.space, .word]) (skipSpace t)).drop 6 = [] :=
        List.drop_eq_nil_of_le (Nat.le_succ_of_le few)
      rw [tag]
      refine ⟨fun _ t' rest' same numbers => ?_, fun _ => Nat.zero_le _⟩
      obtain rfl := List.append_cancel_left same
      exact absurd numbers (none rest')
  · rw [scan_mac_other fun u e => mac ⟨u, e⟩]
    exact ⟨fun _ t rest e _ => absurd ⟨t, e⟩ mac, fun _ => Nat.zero_le _⟩

/-! ## Phones -/

/-- `string(p_msg+18)` -/
def phoneText (payload : Text) : Option Text := bufferText (copied payload) 18

theorem phone_iff (payload : Text) : (phoneText payload).isSome ↔ 18 ≤ payload.length := by
  rw [phoneText, bufferText_copied]
  split
  · simp [*]
  · simp [*]

/-- Inside the copy, the phone is the one read from the message as a text. -/
theorem phoneText_eq {payload : Text} (inside : 18 ≤ payload.length) :
    phoneText payload = some (parsePhoneMsg (cString payload)).phone := by
  rw [phoneText, bufferText_copied, if_pos inside]
  rfl

/-! ## Both -/

theorem buffers_kept_iff (payload : Text) :
    ((usertagWritten payload).length ≤ 40 ↔ TagFits payload) ∧
      ((phoneText payload).isSome ↔ 18 ≤ payload.length) :=
  ⟨usertag_iff payload, phone_iff payload⟩

/-- A tag of 40 characters needs 41 bytes, and a short message is jumped over. -/
theorem buffers_left :
    (usertagWritten ("Mac 1:2:3:4:5:6 ".toList ++ List.replicate 40 'a')).length = 41 ∧
      phoneText "A0-B1-C2-D3-E4-F5".toList = none :=
  ⟨by decide +kernel, by decide⟩

end UserMap

end SimpleDsp
