import SimpleDsp.AdServer.Accounts
import SimpleDsp.AdMap.Rotation
import SimpleDsp.Lib.LateTurns

/-!
# Rotation among other processes

`get_eCPM` reads the counters of a group one after the other, and `bidding` counts the ad much
later, while other processes do the same.

* `Rota.Stays`: a group that stays as it is, all the time;
* `Rota.Looks`: what a process has last read, and that it shows an ad by it;
* `looks_main`: every process does;
* `late_turns_stay_fair`: crosswise, with `n` processes no ad is `n` shows ahead of another.
-/

namespace SimpleDsp

open DecimalText Programs Ranking Rotation
open AdMap (Globals UserPosition Tally Highest Bid AdNode Ret AdState IsCounter counterKey
  counterKey_inj OnlyCounters DBL_MAX)

namespace AdServer

/-! ## A group -/

/-- The ads of a group, and those of them that are valid. -/
structure Rota where
  mall_id : Int32
  group : Int32
  listed : Finset Int32
  ads : Finset Int32
  weight : Int32 → Nat

variable {G : Globals} {R : Rota}

abbrev Rota.counter (R : Rota) (a : Int32) : Key := counterKey R.mall_id a .show

/-- No other group has the valid ads, no space lists the group twice, and an `int` holds the
counters. -/
structure Rota.Stays (R : Rota) (G : Globals) (db : Db) : Prop where
  once : (AdMap.adIdSet G db R.mall_id R.group).Nodup
  listed : ∀ a, a ∈ AdMap.adIdSet G db R.mall_id R.group ↔ a ∈ R.listed
  valid : ∀ a, a ∈ R.ads ↔ a ∈ R.listed ∧ AdMap.checkAdValid G db R.mall_id a = true
  weight : ∀ a ∈ R.ads, (AdMap.weightOf G db R.mall_id a).toInt = R.weight a ∧ 0 < R.weight a
  alone : ∀ g, g ≠ R.group → ∀ a ∈ R.ads, a ∉ AdMap.adIdSet G db R.mall_id g
  candidate : ∀ space_id, (AdMap.getAdGroupSetOfSpace G db R.mall_id space_id).count R.group ≤ 1
  counter : ∀ a ∈ R.ads, ∃ n : Nat, counterAt (db (R.counter a).text) = some (n : Int) ∧ n < 2 ^ 31

/-- What an ad that was read with `x` shows has for its weight, were it shown once more. -/
def Rota.ratio (R : Rota) (a : Int32) (x : Nat) : Rat := ((x : Rat) + 1) / (R.weight a : Rat)

theorem counterAt_unique {o : Option Val} {m n : Nat} (hm : counterAt o = some (m : Int))
    (hn : counterAt o = some (n : Int)) : m = n :=
  Int.ofNat_inj.mp (Option.some.inj (hm.symm.trans hn))

/-- What `get_eCPM` reads of a counter. -/
theorem Rota.Stays.read {db : Db} (stays : R.Stays G db) {a : Int32} (ha : a ∈ R.ads) {x : Nat}
    (hx : counterAt (db (R.counter a).text) = some (x : Int)) :
    (AdMap.counterOf G db R.mall_id a .show).toInt = x := by
  obtain ⟨n, hn, small⟩ := stays.counter a ha
  obtain rfl := counterAt_unique hn hx
  exact AdMap.counterOf_eq hn small

theorem Rota.Stays.ratio_eq {db : Db} (stays : R.Stays G db) {a : Int32} (ha : a ∈ R.ads) {x : Nat}
    (hx : counterAt (db (R.counter a).text) = some (x : Int)) :
    AdMap.showWeight G db R.mall_id a = R.ratio a x := by
  rw [AdMap.showWeight, stays.read ha hx, (stays.weight a ha).1]
  rfl

theorem Rota.ratio_le {a b : Int32} {x y : Nat} (ha : 0 < R.weight a) (hb : 0 < R.weight b) :
    R.ratio a x ≤ R.ratio b y ↔ (x + 1) * R.weight b ≤ (y + 1) * R.weight a := by
  have positive {n : Nat} (h : 0 < n) : (0 : Rat) < n := by exact_mod_cast h
  rw [ratio, ratio, div_le_div_iff₀ (positive ha) (positive hb)]
  norm_cast

/-! ## Readings -/

/-- How often each ad of the group had been shown when it was last read. -/
abbrev Readings := Int32 → Option Nat

def Rota.noted (R : Rota) (seen : Readings) (k : Key) (t : Text) : Readings := fun a =>
  if a ∈ R.ads ∧ k = R.counter a then some (atoi t).toInt.toNat else seen a

/-- A counter is read with zero for one that is not there. The group shows an ad only if it
has the least by what was read, and then all that was read is used up. -/
def Rota.Looks (R : Rota) : Rules Cmd Cmd.Reply Readings
  | seen, .get .string k default_v, t, seen' =>
    (default_v = "0".toList ∨ ∀ a ∈ R.ads, k ≠ R.counter a) ∧ seen' = R.noted seen k t
  | seen, .incr k, _, seen' =>
    IsCounter k = true ∧
      ((∃ a ∈ R.ads, k = R.counter a ∧ Least R.ads R.weight seen a ∧ seen' = fun _ => none) ∨
        (∀ a ∈ R.ads, k ≠ R.counter a) ∧ seen' = seen)
  | seen, _, _, seen' => seen' = seen

/-- Some store in which the group is as it is gives this reply. -/
def Rota.Given (R : Rota) (G : Globals) (c : Cmd) (r : c.Reply) : Prop :=
  ∃ s s', R.Stays G s.db ∧ exec G c s r s'

variable {seen : Readings}

theorem Rota.noted_other {k : Key} (other : ∀ a ∈ R.ads, k ≠ R.counter a) (t : Text) :
    R.noted seen k t = seen := by
  funext a
  exact if_neg fun h => other a h.1 h.2

theorem Rota.noted_show {a : Int32} (ha : a ∈ R.ads) (t : Text) : R.noted seen (R.counter a) t =
    Function.update seen a (some (atoi t).toInt.toNat) := by
  funext b
  by_cases here : b = a
  · subst here
    rw [Function.update_self]
    exact if_pos ⟨ha, rfl⟩
  · rw [Function.update_of_ne here]
    exact if_neg fun h => here (counterKey_inj.mp h.2).2.1.symm

theorem Rota.counter_isCounter {k : Key} (h : IsCounter k = false) (a : Int32) :
    k ≠ R.counter a := by
  rintro rfl
  cases h

theorem looks_of_plain {c : Cmd} {r : c.Reply} (plain : c.Plain) : R.Looks seen c r seen := by
  cases c with
  | incr | exec => exact plain.elim
  | get τ k d =>
    cases τ with
    | string =>
      have other : ∀ a ∈ R.ads, k ≠ R.counter a := fun a _ => R.counter_isCounter plain a
      exact ⟨Or.inr other, (R.noted_other other r).symm⟩
    | _ => rfl
  | _ => rfl

theorem looks_of_exec (charge : AdMap.Charge) : R.Looks seen (.exec charge) () seen := rfl

/-- What others read and what is charged for is of no interest. -/
def Cmd.Unseen : Cmd → Prop
  | .exec _ => True
  | c => c.Plain

theorem looks_unseen {α : Type} {p : AdM α} (h : p.Every Cmd.Unseen) (seen : Readings) :
    Obeys R.Looks (R.Given G) p seen (Returns fun _ seen' => seen' = seen) := by
  refine obeys_of_every h (noThrow p) fun c seen r unseen => ?_
  cases c with
  | exec charge => exact looks_of_exec charge
  | _ => exact looks_of_plain unseen

theorem looks_plain {α : Type} {p : AdM α} (h : p.Every Cmd.Plain) (seen : Readings) :
    Obeys R.Looks (R.Given G) p seen (Returns fun _ seen' => seen' = seen) := by
  refine looks_unseen (h.mono fun c plain => ?_) seen
  cases c with
  | exec => exact plain.elim
  | _ => exact plain

theorem looks_get {τ : Ty} {k : Key} {default_v : τ.Val} (plain : IsCounter k = false) :
    Obeys R.Looks (R.Given G) (get τ k default_v) seen (Returns fun r seen' =>
      seen' = seen ∧ ∃ db, R.Stays G db ∧ r = AdMap.get G db τ k default_v) := by
  rintro r ⟨s, s', stays, rfl, -⟩
  exact ⟨seen, looks_of_plain (c := .get τ k default_v) plain, rfl, s.db, stays, rfl⟩

theorem looks_get_text {k : Key} :
    Obeys R.Looks (R.Given G) (get .string k "0".toList) seen (Returns fun r seen' =>
      seen' = R.noted seen k r ∧ ∃ db, R.Stays G db ∧
        r = AdMap.get G db .string k "0".toList) := by
  rintro r ⟨s, s', stays, rfl, -⟩
  exact ⟨_, ⟨Or.inl rfl, rfl⟩, rfl, s.db, stays, rfl⟩

theorem looks_checkAdValid (mall_id ad_id : Int32) :
    Obeys R.Looks (R.Given G) (checkAdValid mall_id ad_id) seen (Returns fun valid seen' =>
      seen' = seen ∧ ∃ db, R.Stays G db ∧ valid = AdMap.checkAdValid G db mall_id ad_id) := by
  refine (looks_get rfl).next ?_
  rintro _ _ ⟨rfl, db, stays, rfl⟩
  exact ⟨rfl, db, stays, rfl⟩

/-! ## The choice of get_eCPM -/

def noTally : Tally := ⟨0, 0, DBL_MAX, -1⟩

/-- Even if counter and weight are read at different times. -/
theorem showWeight_lt (mall_id ad_id : Int32) (db db' : Db) :
    ((AdMap.counterOf G db mall_id ad_id .show).toInt + 1 : Rat) /
      ((AdMap.weightOf G db' mall_id ad_id).toInt : Rat) < DBL_MAX := by
  let k := counterKey mall_id ad_id .show
  let mixed : Db := fun t => if t = k.text then db t else db' t
  have counter : AdMap.counterOf G mixed mall_id ad_id .show =
      AdMap.counterOf G db mall_id ad_id .show :=
    congrArg atoi (CBaseMdb.get_congr (if_pos rfl))
  have weight : AdMap.weightOf G mixed mall_id ad_id = AdMap.weightOf G db' mall_id ad_id := by
    have other : (Key.ad mall_id.toInt ad_id.toInt .weight).text ≠ k.text :=
      fun same => nomatch (Key.ad.inj (Key.text_inj.mp same)).2.2
    have stored : AdMap.get G mixed .int (.ad mall_id.toInt ad_id.toInt .weight) (0 : Int32) =
        AdMap.get G db' .int (.ad mall_id.toInt ad_id.toInt .weight) (0 : Int32) :=
      CBaseMdb.get_congr (if_neg other)
    rw [AdMap.weightOf, AdMap.weightOf, stored]
  rw [← counter, ← weight]
  exact AdMap.showWeight_lt mall_id ad_id

section
variable {show_price click_price : Rat} {mall_id : Int32} {t : Tally} {a : Int32}

theorem tally_next (show_counter click_counter weight : Int32) :
    (tally show_price click_price show_counter click_counter weight t a).next_ad_id = a ∨
      (tally show_price click_price show_counter click_counter weight t a).next_ad_id =
        t.next_ad_id := by
  simp only [tally]
  split
  · exact Or.inl rfl
  · exact Or.inr rfl

/-- An ad of another group: the loop may choose it, and does if it has not chosen any. -/
theorem looks_tallyAd_other (other : mall_id ≠ R.mall_id ∨ a ∉ R.ads) :
    Obeys R.Looks (R.Given G) (tallyAd show_price click_price mall_id t a) seen
      (Returns fun t' seen' => seen' = seen ∧
        (t' = t ∨ t'.next_ad_id = a ∨ t ≠ noTally ∧ t'.next_ad_id = t.next_ad_id)) := by
  have unnoted (type : ChargeType) : ∀ b ∈ R.ads, counterKey mall_id a type ≠ R.counter b := by
    intro b hb same
    obtain ⟨rfl, rfl, rfl⟩ := counterKey_inj.mp same
    exact other.elim (fun ne => ne rfl) fun out => out hb
  refine (looks_checkAdValid mall_id a).next ?_
  rintro valid _ ⟨rfl, -⟩
  split
  · refine looks_get_text.next ?_
    rintro _ _ ⟨rfl, db, -, rfl⟩
    refine looks_get_text.next ?_
    rintro _ _ ⟨rfl, -⟩
    refine (looks_get rfl).next ?_
    rintro _ _ ⟨rfl, db', -, rfl⟩
    rw [R.noted_other (unnoted .show), R.noted_other (unnoted .click)]
    refine ⟨rfl, ?_⟩
    by_cases first : t = noTally
    · subst first
      exact Or.inr (Or.inl (if_pos (decide_eq_true (showWeight_lt mall_id a db db'))))
    · exact Or.inr ((tally_next _ _ _).imp id fun kept => ⟨first, kept⟩)
  · exact ⟨rfl, Or.inl rfl⟩

/-- What the loop has found among the ads it has looked at. -/
structure Rota.Chosen (R : Rota) (before : List Int32) (t : Tally) (seen : Readings) : Prop where
  least : ∀ b ∈ before, b ∈ R.ads → ∃ y, seen b = some y ∧ t.min_show_weight ≤ R.ratio b y
  next : t = noTally ∨ t.next_ad_id ∈ before ∧ t.next_ad_id ∈ R.ads ∧
    ∃ x, seen t.next_ad_id = some x ∧ t.min_show_weight = R.ratio t.next_ad_id x

theorem Rota.Chosen.tally {before : List Int32} (h : R.Chosen before t seen) (fresh : a ∉ before)
    (ha : a ∈ R.ads) {show_counter click_counter weight : Int32} {n : Nat}
    (counter : show_counter.toInt = n) (own : weight.toInt = R.weight a)
    (finite : R.ratio a n < DBL_MAX) :
    R.Chosen (before ++ [a])
      (tally show_price click_price show_counter click_counter weight t a)
      (Function.update seen a (some n)) := by
  have show_weight : ((show_counter.toInt + 1 : Rat)) / (weight.toInt : Rat) = R.ratio a n := by
    rw [Rota.ratio, counter, own, Int.cast_natCast, Int.cast_natCast]
  have kept {b : Int32} (hb : b ∈ before) : Function.update seen a (some n) b = seen b := by
    apply Function.update_of_ne
    rintro rfl
    exact fresh hb
  obtain ⟨least, next⟩ := h
  by_cases less : R.ratio a n < t.min_show_weight
  · have min : (AdServer.tally show_price click_price show_counter click_counter weight t
        a).min_show_weight = R.ratio a n := by simp [AdServer.tally, show_weight, less]
    have chosen : (AdServer.tally show_price click_price show_counter click_counter weight t
        a).next_ad_id = a := by simp [AdServer.tally, show_weight, less]
    constructor
    · intro b hb inside
      rw [min]
      rcases List.mem_append.mp hb with earlier | last
      · obtain ⟨y, read, le⟩ := least b earlier inside
        exact ⟨y, (kept earlier).trans read, less.le.trans le⟩
      · obtain rfl := List.mem_singleton.mp last
        exact ⟨n, Function.update_self .., le_refl _⟩
    · rw [min, chosen]
      exact Or.inr ⟨by simp, ha, n, Function.update_self .., rfl⟩
  · have min : (AdServer.tally show_price click_price show_counter click_counter weight t
        a).min_show_weight = t.min_show_weight := by simp [AdServer.tally, show_weight, less]
    have chosen : (AdServer.tally show_price click_price show_counter click_counter weight t
        a).next_ad_id = t.next_ad_id := by simp [AdServer.tally, show_weight, less]
    constructor
    · intro b hb inside
      rw [min]
      rcases List.mem_append.mp hb with earlier | last
      · obtain ⟨y, read, le⟩ := least b earlier inside
        exact ⟨y, (kept earlier).trans read, le⟩
      · obtain rfl := List.mem_singleton.mp last
        exact ⟨n, Function.update_self .., not_lt.mp less⟩
    · rcases next with rfl | ⟨earlier, inside, x, read, equal⟩
      · exact absurd finite less
      · rw [min, chosen]
        exact Or.inr ⟨List.mem_append_left _ earlier, inside, x, (kept earlier).trans read, equal⟩

/-- An ad of the group. -/
theorem looks_tallyAd_own {before : List Int32} (h : R.Chosen before t seen) (fresh : a ∉ before)
    (ha : a ∈ R.listed) :
    Obeys R.Looks (R.Given G) (tallyAd show_price click_price R.mall_id t a) seen
      (Returns (R.Chosen (before ++ [a]))) := by
  refine (looks_checkAdValid R.mall_id a).next ?_
  rintro valid _ ⟨rfl, db, stays, rfl⟩
  have inside := stays.valid a
  split
  · rename_i valid
    have mem := inside.mpr ⟨ha, valid⟩
    refine looks_get_text.next ?_
    rintro _ _ ⟨rfl, db, stays, rfl⟩
    refine looks_get_text.next ?_
    rintro _ _ ⟨rfl, -⟩
    refine (looks_get rfl).next ?_
    rintro _ _ ⟨rfl, db', stays', rfl⟩
    have click : ∀ b ∈ R.ads, counterKey R.mall_id a .click ≠ R.counter b :=
      fun b _ same => nomatch (counterKey_inj.mp same).2.2
    obtain ⟨n, hn, -⟩ := stays.counter a mem
    have counter := stays.read mem hn
    have own := (stays'.weight a mem).1
    have finite : AdMap.showWeight G db R.mall_id a < DBL_MAX := AdMap.showWeight_lt R.mall_id a
    rw [stays.ratio_eq mem hn] at finite
    have read : (atoi (AdMap.get G db .string (R.counter a) "0".toList)).toInt.toNat = n :=
      (congrArg Int.toNat counter).trans (Int.toNat_natCast n)
    rw [R.noted_other click, R.noted_show mem, read]
    exact h.tally fresh mem counter own finite
  · rename_i invalid
    have out : a ∉ R.ads := fun mem => invalid (inside.mp mem).2
    constructor
    · intro b hb mem
      rcases List.mem_append.mp hb with earlier | last
      · exact h.least b earlier mem
      · exact absurd (List.mem_singleton.mp last ▸ mem) out
    · exact h.next.imp id fun chosen => ⟨List.mem_append_left _ chosen.1, chosen.2⟩

end

theorem looks_smembers {τ : Ty} {k : Key} :
    Obeys R.Looks (R.Given G) (smembers τ k) seen (Returns fun r seen' =>
      seen' = seen ∧ ∃ db, R.Stays G db ∧ r = AdMap.smembers G db τ k) := by
  rintro r ⟨s, s', stays, rfl, -⟩
  exact ⟨seen, rfl, rfl, s.db, stays, rfl⟩

theorem looks_zmembers {τ : Ty} {k : Key} :
    Obeys R.Looks (R.Given G) (zmembers τ k) seen (Returns fun r seen' =>
      seen' = seen ∧ ∃ db, R.Stays G db ∧ r = AdMap.zmembers G db τ k) := by
  rintro r ⟨s, s', stays, rfl, -⟩
  exact ⟨seen, rfl, rfl, s.db, stays, rfl⟩

/-- The value of `get_eCPM`. -/
def ecpmOf (t : Tally) : Rat :=
  if t.sum_weight = 0 then 0 else t.sum_eCPM / (t.sum_weight.toInt : Rat)

theorem ecpmOf_noTally : ecpmOf noTally = 0 := rfl

/-- No other group bids with an ad of the group. -/
theorem looks_getECPM_other {mall_id g : Int32} (other : mall_id ≠ R.mall_id ∨ g ≠ R.group) :
    Obeys R.Looks (R.Given G) (getECPM mall_id g (-1)) seen (Returns fun e seen' =>
      seen' = seen ∧ (0 < e.1 → mall_id = R.mall_id → e.2 ∉ R.ads)) := by
  refine looks_smembers.next ?_
  rintro ids seen ⟨rfl, db, stays, same⟩
  have out : ∀ a ∈ (ids : List Int32), mall_id ≠ R.mall_id ∨ a ∉ R.ads := by
    intro a ha
    rcases other with far | ne
    · exact Or.inl far
    · refine Classical.or_iff_not_imp_left.mpr fun near mem => ?_
      obtain rfl := Classical.not_not.mp near
      rw [same] at ha
      exact stays.alone g ne a mem ha
  refine (looks_get rfl).next ?_
  rintro show_price seen ⟨rfl, -⟩
  refine (looks_get rfl).next ?_
  rintro click_price seen ⟨rfl, -⟩
  have loop : Obeys R.Looks (R.Given G)
      ((ids : List Int32).foldlM (tallyAd show_price click_price mall_id) noTally) seen
      (Returns fun t seen' => seen' = seen ∧ (t = noTally ∨ t.next_ad_id ∈ (ids : List Int32))) := by
    refine obeys_foldlM (fun before t seen' => seen' = seen ∧
      (t = noTally ∨ t.next_ad_id ∈ before)) ?_ ⟨rfl, Or.inl rfl⟩
    rintro before a after split t _ ⟨rfl, next⟩
    refine (looks_tallyAd_other (out a (by simp [split]))).weaken ?_
    rintro (e | t') seen' done
    · exact done.elim
    · obtain ⟨rfl, rfl | chosen | ⟨some_, kept⟩⟩ := done
      · exact ⟨rfl, next.imp id fun mem => List.mem_append_left _ mem⟩
      · exact ⟨rfl, Or.inr (by simp [chosen])⟩
      · refine ⟨rfl, Or.inr ?_⟩
        rw [kept]
        exact List.mem_append_left _ (next.resolve_left some_)
  refine loop.next ?_
  rintro t _ ⟨rfl, next⟩
  refine ⟨rfl, fun positive near => ?_⟩
  have some_ : t ≠ noTally := by
    rintro rfl
    exact lt_irrefl _ (ecpmOf_noTally ▸ positive)
  exact (out _ (next.resolve_left some_)).resolve_left fun far => far near

/-- The group bids with an ad that has the least by what was read. -/
theorem looks_getECPM_own :
    Obeys R.Looks (R.Given G) (getECPM R.mall_id R.group (-1)) seen (Returns fun e seen' =>
      0 < e.1 → e.2 ∈ R.ads ∧ Least R.ads R.weight seen' e.2) := by
  refine looks_smembers.next ?_
  rintro ids seen ⟨rfl, db, stays, same⟩
  have listed : ∀ a, a ∈ (ids : List Int32) ↔ a ∈ R.listed := fun a => by
    rw [same]
    exact stays.listed a
  have once : (ids : List Int32).Nodup := by
    rw [same]
    exact stays.once
  refine (looks_get rfl).next ?_
  rintro show_price seen ⟨rfl, -⟩
  refine (looks_get rfl).next ?_
  rintro click_price seen ⟨rfl, -⟩
  have loop : Obeys R.Looks (R.Given G)
      ((ids : List Int32).foldlM (tallyAd show_price click_price R.mall_id) noTally) seen
      (Returns (R.Chosen ids)) := by
    refine obeys_foldlM R.Chosen ?_ ⟨fun b hb => (List.not_mem_nil hb).elim, Or.inl rfl⟩
    intro before a after split t seen' chosen
    rw [split] at once
    have fresh : a ∉ before := fun mem =>
      (List.nodup_append.mp once).2.2 a mem a (by simp) rfl
    exact looks_tallyAd_own chosen fresh ((listed a).mp (by simp [split]))
  refine loop.next ?_
  intro t seen' chosen positive
  have some_ : t ≠ noTally := by
    rintro rfl
    exact lt_irrefl _ (ecpmOf_noTally ▸ positive)
  obtain ⟨-, mem, x, read, min⟩ := chosen.next.resolve_left some_
  refine ⟨mem, x, read, fun j hj => ?_⟩
  obtain ⟨y, read', le⟩ := chosen.least j ((listed j).mpr ((stays.valid j).mp hj).1) hj
  rw [min, Rota.ratio_le (stays.weight _ mem).2 (stays.weight j hj).2] at le
  exact ⟨y, read', le⟩

/-! ## The auction -/

theorem looks_adGroupList (pos : UserPosition) (user_id space_id : Int32) :
    Obeys R.Looks (R.Given G) (adGroupList G pos user_id space_id R.mall_id) seen
      (Returns fun groups seen' => seen' = seen ∧ groups.count R.group ≤ 1) := by
  refine looks_zmembers.next ?_
  rintro ofSpace _ ⟨rfl, db, stays, rfl⟩
  split
  · refine looks_zmembers.next ?_
    rintro ofLocation _ ⟨rfl, -⟩
    exact ⟨rfl, ((AdMap.setIntersection_sublist _ _).count_le _).trans (stays.candidate space_id)⟩
  · exact ⟨rfl, stays.candidate space_id⟩

/-- The bids of the candidates that the loop has looked at. -/
structure Rota.Bids (R : Rota) (before : List Int32) (bids : List Bid) (seen : Readings) : Prop where
  once : bids.countP (fun b => b.group = R.group) ≤ before.count R.group
  least : ∀ b ∈ bids, 0 < b.eCPM → b.ad ∈ R.ads →
    b.group = R.group ∧ Least R.ads R.weight seen b.ad

section
variable {user_id mall_id it : Int32} {labels : List Text} {n : Nat} {lists : Highest n}
  {before : List Int32} {bids : List Bid}

theorem looks_bidFor_far (far : mall_id ≠ R.mall_id) :
    Obeys R.Looks (R.Given G) (bidFor G user_id mall_id labels lists it) seen
      (Returns fun _ seen' => seen' = seen) := by
  refine (looks_plain (plain_passes user_id mall_id labels it) seen).next ?_
  rintro pass _ rfl
  split
  · refine (looks_getECPM_other (Or.inl far)).next ?_
    rintro e _ ⟨rfl, -⟩
    rfl
  · rfl

theorem Rota.Bids.skip (h : R.Bids before bids seen) : R.Bids (before ++ [it]) bids seen where
  once := h.once.trans (by simp [List.count_append])
  least := h.least

/-- The group bids, for the first time: nothing read before was for a bid. -/
theorem Rota.Bids.own (h : R.Bids before bids seen) (fresh : before.count R.group = 0)
    {seen' : Readings} {e : Rat × Int32}
    (chosen : 0 < e.1 → e.2 ∈ R.ads ∧ Least R.ads R.weight seen' e.2) :
    R.Bids (before ++ [R.group]) (bids ++ [⟨R.group, e.1, e.2⟩]) seen' := by
  have none : bids.countP (fun b => b.group = R.group) = 0 :=
    Nat.le_zero.mp (h.once.trans fresh.le)
  constructor
  · simp [none, fresh, List.count_append]
  · intro b hb positive inside
    rcases List.mem_append.mp hb with earlier | last
    · have group := (h.least b earlier positive inside).1
      exact absurd (decide_eq_true group) (List.countP_eq_zero.mp none b earlier)
    · rw [List.mem_singleton.mp last] at positive ⊢
      exact ⟨rfl, (chosen positive).2⟩

theorem Rota.Bids.other (h : R.Bids before bids seen) {e : Rat × Int32} (ne : it ≠ R.group)
    (out : 0 < e.1 → e.2 ∉ R.ads) :
    R.Bids (before ++ [it]) (bids ++ [⟨it, e.1, e.2⟩]) seen := by
  constructor
  · simpa [List.count_append, List.count_singleton, ne] using h.once
  · intro b hb positive inside
    rcases List.mem_append.mp hb with earlier | last
    · exact h.least b earlier positive inside
    · rw [List.mem_singleton.mp last] at positive inside
      exact absurd inside (out positive)

theorem looks_bidFor (fresh : it = R.group → before.count R.group = 0)
    (h : R.Bids before bids seen) (row : lists.bid = fill Bid.eCPM n AdMap.noBid bids) :
    Obeys R.Looks (R.Given G) (bidFor G user_id R.mall_id labels lists it) seen
      (Returns fun lists' seen' => ∃ bids', lists'.bid = fill Bid.eCPM n AdMap.noBid bids' ∧
        R.Bids (before ++ [it]) bids' seen') := by
  have next (e : Rat × Int32) : (lists.insert it e.1 e.2 n (Nat.le_refl n)).bid =
      fill Bid.eCPM n AdMap.noBid (bids ++ [⟨it, e.1, e.2⟩]) := by
    rw [AdMap.insert_bid, row]
    simp [fill]
  refine (looks_plain (plain_passes user_id R.mall_id labels it) seen).next ?_
  rintro pass _ rfl
  split
  · by_cases own : it = R.group
    · subst own
      refine looks_getECPM_own.next ?_
      intro e seen' chosen
      exact ⟨_, next e, h.own (fresh rfl) chosen⟩
    · refine (looks_getECPM_other (Or.inr own)).next ?_
      rintro e _ ⟨rfl, out⟩
      exact ⟨_, next e, h.other own fun positive => out positive rfl⟩
  · exact ⟨bids, row, h.skip⟩

end

/-! ## Answers -/

theorem unseen_getAd (mall_id group ad_id : Int32) :
    (getAd mall_id group ad_id).Every Cmd.Unseen :=
  ⟨rfl, fun _ => ⟨rfl, fun _ => trivial⟩⟩

theorem unseen_chargeAd (mall_id ad_id group : Int32) (type : ChargeType) :
    (chargeAd mall_id ad_id group type).Every Cmd.Unseen :=
  ⟨rfl, fun _ => ⟨rfl, fun _ => ⟨trivial, fun _ => trivial⟩⟩⟩

theorem looks_increase_own {a : Int32} (ha : a ∈ R.ads) (least : Least R.ads R.weight seen a) :
    Obeys R.Looks (R.Given G) (increaseAdTime R.mall_id a .show) seen
      (Returns fun _ seen' => seen' = fun _ => none) :=
  fun _ _ => ⟨_, ⟨rfl, Or.inl ⟨a, ha, rfl, least, rfl⟩⟩, rfl⟩

theorem looks_increase_other {mall_id a : Int32} {type : ChargeType}
    (other : ∀ b ∈ R.ads, counterKey mall_id a type ≠ R.counter b) :
    Obeys R.Looks (R.Given G) (increaseAdTime mall_id a type) seen
      (Returns fun _ seen' => seen' = seen) :=
  fun _ _ => ⟨_, ⟨rfl, Or.inr ⟨other, rfl⟩⟩, rfl⟩

/-- An answer shows the group at most once, by what was read for its bid. -/
theorem looks_showBids {row : List Bid}
    (once : (row.takeWhile fun b => b.eCPM ≠ 0).countP (fun b => b.ad ∈ R.ads) ≤ 1)
    (least : ∀ b ∈ row.takeWhile fun b => b.eCPM ≠ 0, b.ad ∈ R.ads →
      Least R.ads R.weight seen b.ad) :
    Obeys R.Looks (R.Given G) (showBids R.mall_id row) seen (Returns fun _ _ => True) := by
  induction row generalizing seen with
  | nil => trivial
  | cons b row ih =>
    rw [showBids]
    split
    · rename_i shown
      rw [List.takeWhile_cons_of_pos (by simpa using shown)] at once least
      have rest : Obeys R.Looks (R.Given G) (showBid R.mall_id b) seen (Returns fun _ seen' =>
          (row.takeWhile fun b => b.eCPM ≠ 0).countP (fun b => b.ad ∈ R.ads) ≤ 1 ∧
          ∀ c ∈ row.takeWhile fun b => b.eCPM ≠ 0, c.ad ∈ R.ads →
            Least R.ads R.weight seen' c.ad) := by
        refine (looks_unseen (unseen_getAd R.mall_id b.group b.ad) seen).next ?_
        rintro node _ rfl
        by_cases inside : b.ad ∈ R.ads
        · refine (looks_increase_own inside (least b (by simp) inside)).next ?_
          rintro _ _ rfl
          refine (looks_unseen (unseen_chargeAd R.mall_id b.ad b.group .show) _).next ?_
          rintro _ _ rfl
          rw [List.countP_cons_of_pos (by simpa using inside)] at once
          have none := Nat.le_zero.mp (Nat.le_of_succ_le_succ once)
          refine ⟨none.le.trans (Nat.zero_le 1), fun c hc mem => ?_⟩
          exact absurd (decide_eq_true mem) (List.countP_eq_zero.mp none c hc)
        · have other : ∀ a ∈ R.ads, counterKey R.mall_id b.ad .show ≠ R.counter a :=
            fun a ha same => inside ((counterKey_inj.mp same).2.1 ▸ ha)
          refine (looks_increase_other other).next ?_
          rintro _ _ rfl
          refine (looks_unseen (unseen_chargeAd R.mall_id b.ad b.group .show) _).next ?_
          rintro _ _ rfl
          rw [List.countP_cons_of_neg (by simpa using inside)] at once
          exact ⟨once, fun c hc => least c (List.mem_cons_of_mem b hc)⟩
      refine rest.next ?_
      rintro ad seen' ⟨once', least'⟩
      exact (ih once' least').next fun _ _ _ => trivial
    · trivial

theorem looks_showBids_far {mall_id : Int32} (far : mall_id ≠ R.mall_id) (row : List Bid) :
    Obeys R.Looks (R.Given G) (showBids mall_id row) seen (Returns fun _ _ => True) := by
  induction row generalizing seen with
  | nil => trivial
  | cons b row ih =>
    rw [showBids]
    split
    · have other : ∀ a ∈ R.ads, counterKey mall_id b.ad .show ≠ R.counter a :=
        fun a _ same => far (counterKey_inj.mp same).1
      have bid : Obeys R.Looks (R.Given G) (showBid mall_id b) seen (Returns fun _ _ => True) := by
        refine (looks_unseen (unseen_getAd mall_id b.group b.ad) seen).next ?_
        rintro node _ rfl
        refine (looks_increase_other other).next ?_
        rintro _ _ rfl
        exact (looks_unseen (unseen_chargeAd mall_id b.ad b.group .show) _).next fun _ _ _ => trivial
      refine bid.next fun ad seen' _ => ?_
      exact ih.next fun _ _ _ => trivial
    · trivial

/-! ## Requests -/

theorem looks_bidding (pos : UserPosition) (user_id space_id : Int32) (n : Nat) :
    Obeys R.Looks (R.Given G) (bidding G pos user_id space_id R.mall_id n) seen
      (Returns fun _ _ => True) := by
  refine (looks_adGroupList pos user_id space_id).next ?_
  rintro groups seen ⟨rfl, once⟩
  refine (looks_plain (plain_userLabelSet user_id) seen).next ?_
  rintro labels seen rfl
  have loop : Obeys R.Looks (R.Given G)
      (groups.foldlM (bidFor G user_id R.mall_id labels) (Highest.zero n)) seen
      (Returns fun lists seen' => ∃ bids, lists.bid = fill Bid.eCPM n AdMap.noBid bids ∧
        R.Bids groups bids seen') := by
    refine obeys_foldlM (fun before (lists : Highest n) seen' => ∃ bids,
      lists.bid = fill Bid.eCPM n AdMap.noBid bids ∧ R.Bids before bids seen') ?_
      ⟨[], rfl, Nat.zero_le _, fun b hb => (List.not_mem_nil hb).elim⟩
    rintro before it after split lists seen' ⟨bids, row, h⟩
    refine looks_bidFor (fun own => ?_) h row
    subst own
    simp only [split, List.count_append, List.count_cons_self] at once
    omega
  refine loop.next ?_
  rintro lists seen' ⟨bids, row, once', least⟩
  -- What is shown are the best of the positive bids.
  have holds : Holds AdMap.noBid _ (best Bid.eCPM n (bids.filter fun b => (0 : Rat) < b.eCPM)) :=
    holds_fill n AdMap.noBid bids
  have shown : (List.ofFn lists.bid).takeWhile (fun b => b.eCPM ≠ 0) =
      best Bid.eCPM n (bids.filter fun b => (0 : Rat) < b.eCPM) := by
    rw [row]
    apply holds.takeWhile
    · intro b hb
      have positive := (List.mem_filter.mp (mem_of_mem_best hb)).2
      simpa using ne_of_gt (of_decide_eq_true positive)
    · simp [AdMap.noBid]
  have one : (best Bid.eCPM n (bids.filter fun b => (0 : Rat) < b.eCPM)).countP
      (fun b => b.ad ∈ R.ads) ≤ 1 := by
    calc (best Bid.eCPM n (bids.filter fun b => (0 : Rat) < b.eCPM)).countP (fun b => b.ad ∈ R.ads)
        ≤ (rank Bid.eCPM (bids.filter fun b => (0 : Rat) < b.eCPM)).countP
          (fun b => b.ad ∈ R.ads) := (List.take_sublist _ _).countP_le
      _ = (bids.filter fun b => (0 : Rat) < b.eCPM).countP (fun b => b.ad ∈ R.ads) :=
          (List.perm_insertionSort _ _).countP_eq _
      _ ≤ (bids.filter fun b => (0 : Rat) < b.eCPM).countP (fun b => b.group = R.group) := by
          apply List.countP_mono_left
          intro b hb inside
          obtain ⟨mem, positive⟩ := List.mem_filter.mp hb
          exact decide_eq_true
            (least b mem (of_decide_eq_true positive) (of_decide_eq_true inside)).1
      _ ≤ bids.countP (fun b => b.group = R.group) := (List.filter_sublist ..).countP_le
      _ ≤ 1 := once'.trans once
  have shows : ∀ b ∈ best Bid.eCPM n (bids.filter fun b => (0 : Rat) < b.eCPM), b.ad ∈ R.ads →
      Least R.ads R.weight seen' b.ad := by
    intro b hb inside
    obtain ⟨mem, positive⟩ := List.mem_filter.mp (mem_of_mem_best hb)
    exact (least b mem (of_decide_eq_true positive) inside).2
  rw [← shown] at one shows
  exact (looks_showBids one shows).next fun _ _ _ => trivial

/-- A request in another mall. -/
theorem looks_bidding_far {mall_id : Int32} (far : mall_id ≠ R.mall_id) (pos : UserPosition)
    (user_id space_id : Int32) (n : Nat) :
    Obeys R.Looks (R.Given G) (bidding G pos user_id space_id mall_id n) seen
      (Returns fun _ _ => True) := by
  refine (looks_plain (plain_adGroupList pos user_id space_id mall_id) seen).next ?_
  rintro groups seen rfl
  refine (looks_plain (plain_userLabelSet user_id) seen).next ?_
  rintro labels seen rfl
  have loop : Obeys R.Looks (R.Given G)
      (groups.foldlM (bidFor G user_id mall_id labels) (Highest.zero n)) seen
      (Returns fun _ seen' => seen' = seen) := by
    refine obeys_foldlM (fun _ _ seen' => seen' = seen) ?_ rfl
    rintro before it after - lists seen rfl
    exact looks_bidFor_far far
  refine loop.next ?_
  rintro lists seen rfl
  exact (looks_showBids_far far _).next fun _ _ _ => trivial

theorem looks_adClick (ad_id mall_id : Int32) :
    Obeys R.Looks (R.Given G) (adClick ad_id mall_id) seen (Returns fun _ _ => True) := by
  refine (looks_plain (plain_get rfl) seen).next ?_
  rintro group_id seen rfl
  split
  · trivial
  · have other : ∀ a ∈ R.ads, counterKey mall_id ad_id .click ≠ R.counter a :=
      fun a _ same => nomatch (counterKey_inj.mp same).2.2
    refine (looks_increase_other other).next ?_
    rintro _ seen rfl
    exact (looks_unseen (unseen_chargeAd mall_id ad_id group_id .click) seen).next
      fun _ _ _ => trivial

theorem looks_answer (request : Request) :
    Obeys R.Looks (R.Given G) (request.answer G) seen (Returns fun _ _ => True) := by
  cases request with
  | request mac user_id space_id mall_id n =>
    refine (looks_plain (plain_userQuery mac mall_id) seen).next ?_
    rintro pos seen rfl
    by_cases near : mall_id = R.mall_id
    · subst near
      exact looks_bidding pos user_id space_id n
    · exact looks_bidding_far near pos user_id space_id n
  | click ad_id mall_id => exact looks_adClick ad_id mall_id

theorem looks_main (requests : List Request) :
    Obeys R.Looks (R.Given G) (main G requests) seen (Returns fun _ _ => True) := by
  induction requests generalizing seen with
  | nil => trivial
  | cons request later ih =>
    exact (looks_answer request).next fun ret seen' _ => ih.next fun _ _ _ => trivial

/-! ## All processes -/

/-- Others leave the group and the counters of its ads as they are. -/
structure Rota.Spares (R : Rota) (G : Globals) (s s' : AdState) : Prop where
  stays : R.Stays G s'.db
  counters : ∀ a ∈ R.ads, s'.db (R.counter a).text = s.db (R.counter a).text

/-- The counters are what the processes have read, or more. -/
structure Rota.Turning (R : Rota) (G : Globals) (s : AdState) (seen : Nat → Readings) (n : Nat) :
    Prop where
  stays : R.Stays G s.db
  late : ∃ turns : Int32 → Nat,
    (∀ a ∈ R.ads, counterAt (s.db (R.counter a).text) = some (turns a : Int)) ∧
      Late R.ads R.weight turns seen n

/-- The largest number that an `int` can be increased to. -/
abbrev intMax : Nat := 2 ^ 31 - 1

theorem Rota.Stays.of_onlyCounters {db db' : Db} (stays : R.Stays G db)
    (same : OnlyCounters db db') (counter : ∀ a ∈ R.ads, ∃ n : Nat,
      counterAt (db' (R.counter a).text) = some (n : Int) ∧ n < 2 ^ 31) : R.Stays G db' := by
  have ids (g : Int32) : AdMap.adIdSet G db' R.mall_id g = AdMap.adIdSet G db R.mall_id g :=
    CBaseMdb.smembers_congr (same _ rfl)
  constructor
  · rw [ids]
    exact stays.once
  · intro a
    rw [ids]
    exact stays.listed a
  · intro a
    have flag : AdMap.get G db' .int (.ad R.mall_id.toInt a.toInt .valid) (1 : Int32) =
        AdMap.get G db .int (.ad R.mall_id.toInt a.toInt .valid) (1 : Int32) :=
      AdMap.get_onlyCounters same rfl
    rw [AdMap.checkAdValid, flag]
    exact stays.valid a
  · intro a ha
    have stored : AdMap.get G db' .int (.ad R.mall_id.toInt a.toInt .weight) (0 : Int32) =
        AdMap.get G db .int (.ad R.mall_id.toInt a.toInt .weight) (0 : Int32) :=
      AdMap.get_onlyCounters same rfl
    rw [AdMap.weightOf, stored]
    exact stays.weight a ha
  · intro g other a ha
    rw [ids]
    exact stays.alone g other a ha
  · intro space_id
    have listed : AdMap.getAdGroupSetOfSpace G db' R.mall_id space_id =
        AdMap.getAdGroupSetOfSpace G db R.mall_id space_id := CBaseMdb.zmembers_congr (same _ rfl)
    rw [listed]
    exact stays.candidate space_id
  · exact counter

theorem onlyCounters_incr {k : Key} (counter : IsCounter k = true) (db : Db) :
    OnlyCounters db (CBaseMdb.incr G.type G.m k.text 1 db).2 := by
  intro k' other
  apply AdMap.incr_frame
  rintro rfl
  rw [counter] at other
  cases other

section
variable {s : AdState} {seen : Nat → Readings} {n i : Nat}

/-- A process reads a counter. -/
theorem Rota.Turning.reads (h : R.Turning G s seen n) {k : Key} {default_v : Text}
    (zero : default_v = "0".toList ∨ ∀ a ∈ R.ads, k ≠ R.counter a) :
    R.Turning G s (Function.update seen i
      (R.noted (seen i) k (AdMap.get G s.db .string k default_v))) n := by
  obtain ⟨stays, turns, counter, late⟩ := h
  by_cases own : ∃ a ∈ R.ads, k = R.counter a
  · obtain ⟨a, ha, rfl⟩ := own
    obtain rfl := zero.resolve_right fun other => other a ha rfl
    refine ⟨stays, turns, counter, ?_⟩
    have read : (atoi (AdMap.get G s.db .string (R.counter a) "0".toList)).toInt.toNat =
        turns a :=
      (congrArg Int.toNat (stays.read ha (counter a ha))).trans (Int.toNat_natCast _)
    rw [R.noted_show ha, read]
    exact late.read i a fun _ => rfl
  · rw [R.noted_other fun a ha same => own ⟨a, ha, same⟩, Function.update_eq_self]
    exact ⟨stays, turns, counter, late⟩

/-- A process counts an ad. -/
theorem Rota.Turning.counts (h : R.Turning G s seen n) (lt : i < n) {k : Key}
    {seen' : Readings} {r : Int32} (moved : R.Looks (seen i) (.incr k) r seen')
    (room : Below intMax (.incr k) s) :
    R.Turning G { s with db := (CBaseMdb.incr G.type G.m k.text 1 s.db).2 }
      (Function.update seen i seen') n := by
  obtain ⟨stays, turns, counter, late⟩ := h
  obtain ⟨isCounter, own⟩ := moved
  have same := onlyCounters_incr (G := G) isCounter s.db
  rcases own with ⟨a, ha, rfl, least, rfl⟩ | ⟨other, rfl⟩
  · have now := counter a ha
    have below : turns a < 2 ^ 31 - 1 := Int.ofNat_lt.mp (room _ now)
    have fits := CBaseMdb.int_le_counterMax G.type
    have after : ∀ b ∈ R.ads, counterAt ((CBaseMdb.incr G.type G.m (R.counter a).text 1 s.db).2
        (R.counter b).text) = some ((Function.update turns a (turns a + 1) b : Nat) : Int) := by
      intro b hb
      by_cases here : b = a
      · subst here
        rw [Function.update_self]
        exact AdMap.increaseAdTime_self (s := s) now (by omega)
      · have ne : R.counter b ≠ R.counter a := fun e => here (counterKey_inj.mp e).2.1
        rw [Function.update_of_ne here, ← counter b hb]
        exact congrArg counterAt (AdMap.incr_frame ne s.db)
    refine ⟨stays.of_onlyCounters same fun b hb => ⟨_, after b hb, ?_⟩, _, after,
      late.turn lt ha least⟩
    by_cases here : b = a
    · subst here
      rw [Function.update_self]
      omega
    · obtain ⟨x, hx, small⟩ := stays.counter b hb
      rw [Function.update_of_ne here]
      obtain rfl := counterAt_unique hx (counter b hb)
      exact small
  · have kept : ∀ b ∈ R.ads, (CBaseMdb.incr G.type G.m k.text 1 s.db).2 (R.counter b).text =
        s.db (R.counter b).text := fun b hb => AdMap.incr_frame (Ne.symm (other b hb)) s.db
    rw [Function.update_eq_self]
    refine ⟨stays.of_onlyCounters same fun b hb => ?_, turns, fun b hb => ?_, late⟩
    · obtain ⟨x, hx, small⟩ := stays.counter b hb
      exact ⟨x, (congrArg counterAt (kept b hb)).trans hx, small⟩
    · exact (congrArg counterAt (kept b hb)).trans (counter b hb)

end

theorem watches_turns (G : Globals) (R : Rota) :
    (servers G intMax (R.Spares G)).Watches R.Looks (fun _ => none) (R.Given G)
      (fun _ => Returns fun _ _ => True) (R.Turning G) where
  obeys requests := looks_main requests
  spawn s seen n h blank := by
    obtain ⟨stays, turns, counter, late⟩ := h
    exact ⟨stays, turns, counter, late.enter blank⟩
  known s seen n i l c r s' h done := ⟨s, s', h.stays, done.1⟩
  act s seen n i l c r s' seen' h lt done moved := by
    obtain ⟨done, room⟩ := done
    have still (kept : seen' = seen i) (same : s' = s) :
        R.Turning G s' (Function.update seen i seen') n := by
      rw [kept, Function.update_eq_self, same]
      exact h
    cases c with
    | get τ k default_v =>
      cases τ with
      | string =>
        obtain ⟨rfl, rfl⟩ := done
        obtain ⟨zero, rfl⟩ := moved
        exact h.reads zero
      | _ => exact still moved done.2
    | smembers | zmembers | hget => exact still moved done.2
    | time => exact still moved done
    | incr k =>
      obtain ⟨-, rfl⟩ := done
      exact h.counts lt moved room
    | exec charge =>
      obtain rfl := done
      obtain rfl := moved
      rw [Function.update_eq_self]
      exact ⟨h.stays, h.late⟩
  drift s seen n s' h moved := by
    obtain ⟨stays, turns, counter, late⟩ := h
    refine ⟨moved.stays, turns, fun a ha => ?_, late⟩
    rw [moved.counters a ha]
    exact counter a ha

/-- The group with the ads 1 and 2. -/
def twoRota : Rota := ⟨3, 4, {1, 2}, {1, 2}, AdMap.twoWeights⟩

theorem twoAds_stays : twoRota.Stays AdMap.orderedGlobals AdMap.twoAds.db := by
  have rotates := AdMap.twoAds_rotates
  have ids : AdMap.adIdSet AdMap.orderedGlobals AdMap.twoAds.db 3 4 = [1, 2] := by decide +kernel
  have counter (a : Int32) : AdMap.twoAds.db (twoRota.counter a).text = none := by
    apply AdMap.storeOf_eq_none
    rintro e he same
    simp only [AdMap.twoAdsEntries, List.mem_cons, List.not_mem_nil, or_false] at he
    obtain rfl | rfl | rfl | rfl := he
    · cases same
    · cases same
    · cases same
    · cases (Key.ad.inj same).2.2
  constructor
  · exact (congrArg List.Nodup ids).mpr (by simp)
  · intro a
    refine (congrArg (a ∈ ·) ids).to_iff.trans ?_
    simp [twoRota]
  · refine fun a => ⟨fun ha => ⟨ha, ?_⟩, And.left⟩
    exact (List.mem_filter.mp ((rotates.valid a).mp ha)).2
  · exact rotates.weight
  · exact rotates.alone
  · exact rotates.once
  · intro a _
    rw [counter a]
    exact ⟨0, rfl, by omega⟩

/-- Three processes read the counters before any of them counts. -/
def tangled : Option (Pool Cmd Cmd.Reply Empty (List Ret) (List Request) AdState) :=
  Pool.runs (answersBelow AdMap.orderedGlobals intMax 0)
    [(0, 24), (1, 24), (2, 40), (0, 40), (1, 40)]
    ⟨AdMap.twoAds, [(askOnce, main AdMap.orderedGlobals askOnce),
      (askOnce, main AdMap.orderedGlobals askOnce), (askOnce, main AdMap.orderedGlobals askOnce)]⟩

theorem tangled_reach {p : Pool Cmd Cmd.Reply Empty (List Ret) (List Request) AdState}
    (h : tangled = some p) :
    (servers AdMap.orderedGlobals intMax (twoRota.Spares AdMap.orderedGlobals)).Reach AdMap.twoAds
      p :=
  (((System.Reach.start.spawn askOnce).spawn askOnce).spawn askOnce).runs
    (fun _ _ => exec_answersBelow) h

/-- A group whose counters start at zero rotates among processes that read its counters one
by one and count much later. At every moment, with `P` processes: crosswise, no ad is `P`
shows ahead of another, and no ad is more than one show short of its share by weight and
`P - 1` further ones for each ad of the group. -/
theorem late_turns_stay_fair {s0 : AdState} (stays : R.Stays G s0.db)
    (zero : ∀ a ∈ R.ads, counterAt (s0.db (R.counter a).text) = some 0)
    {p : Pool Cmd Cmd.Reply Empty (List Ret) (List Request) AdState}
    (reach : (servers G intMax (R.Spares G)).Reach s0 p) : ∃ turns : Int32 → Nat,
      (∀ a ∈ R.ads, (AdMap.counterOf G p.world.db R.mall_id a .show).toInt = turns a) ∧
      (∀ a ∈ R.ads, ∀ b ∈ R.ads, turns a * R.weight b ≤
        (turns b + 1) * R.weight a + (p.threads.length - 1) * R.weight b) ∧
      ∀ a ∈ R.ads, (∑ b ∈ R.ads, turns b) * R.weight a ≤
        (turns a + 1) * (∑ b ∈ R.ads, R.weight b) +
          R.ads.card * ((p.threads.length - 1) * R.weight a) := by
  have start : R.Turning G s0 (fun _ _ => none) 0 := ⟨stays, fun _ => 0, zero, late_zero⟩
  obtain ⟨seen, ⟨stays, turns, counter, late⟩, -⟩ := (watches_turns G R).reach start reach
  exact ⟨turns, fun a ha => stays.read ha (counter a ha), fun a ha b hb => late.crosswise ha hb,
    fun a ha => late.share ha⟩

/-- All three show the heavier ad, so it is ahead by more than one show. -/
theorem late_turns_stay_fair_tangled : ∃ p,
    (servers AdMap.orderedGlobals intMax (twoRota.Spares AdMap.orderedGlobals)).Reach AdMap.twoAds
      p ∧ p.threads.length = 3 ∧ ∃ turns : Int32 → Nat, turns 1 = 0 ∧ turns 2 = 3 ∧
        turns 2 * twoRota.weight 1 ≤ (turns 1 + 1) * twoRota.weight 2 +
          (p.threads.length - 1) * twoRota.weight 1 := by
  have facts : tangled.map (fun p => (p.threads.length,
      AdMap.counterOf AdMap.orderedGlobals p.world.db 3 1 .show,
      AdMap.counterOf AdMap.orderedGlobals p.world.db 3 2 .show)) = some (3, 0, 3) := by
    decide +kernel
  obtain ⟨p, ran, same⟩ := Option.map_eq_some_iff.mp facts
  simp only [Prod.mk.injEq] at same
  obtain ⟨three, light, heavy⟩ := same
  have zero : ∀ a ∈ twoRota.ads,
      counterAt (AdMap.twoAds.db (twoRota.counter a).text) = some 0 :=
    AdMap.forall_two (by decide +kernel) (by decide +kernel)
  have reach := tangled_reach ran
  obtain ⟨turns, counter, fair, -⟩ := late_turns_stay_fair twoAds_stays zero reach
  have one := counter 1 (by simp [twoRota])
  have two := counter 2 (by simp [twoRota])
  refine ⟨p, reach, three, turns, ?_, ?_, fair 2 (by simp [twoRota]) 1 (by simp [twoRota])⟩
  · have same := one.symm.trans (congrArg Int32.toInt light)
    exact Int.ofNat_inj.mp same
  · have same := two.symm.trans (congrArg Int32.toInt heavy)
    exact Int.ofNat_inj.mp same

end AdServer

end SimpleDsp
