import SimpleDsp.Receivers.ShopVisits

/-!
# User zero

`user_get_id` returns zero for a user that does not exist, and it does so when
PG prints nothing. `user_add`, the two receivers and `user_tag_update` go on
with the number they get.

* `SameZero`: nothing has been recorded for a user zero;
* `user_zero_untouched`: runs in which every lookup is answered.
-/

namespace SimpleDsp

open DecimalText Programs

namespace UserMap

/-! ## Entry points -/

inductive EntryCall
  | userAdd (mac : UInt64) (x y : Rat) (z mall_id : Int32)
  | apmacMsg (apUninit : Mac) (uninit : Nat → Mac) (msg : Text)
  | apmacCloserMsg (apUninit : Mac) (uninit : Nat → Mac) (msg : Text)
  | userTagUpdate (mac : UInt64) (user_tag : Text) (user_value : Rat)

section
variable (cfg : Config) (doubles : Doubles) (user_tag_save_on_tair : Bool)

def EntryCall.start : EntryCall → UserM Unit
  | userAdd mac x y z mall_id => do
    let _ ← UserMap.userAdd cfg mac x y z mall_id
    pure ()
  | apmacMsg apUninit uninit msg => parseApmacMsg cfg apUninit uninit msg
  | apmacCloserMsg apUninit uninit msg => parseApmacCloserMsg cfg apUninit uninit msg
  | userTagUpdate mac user_tag user_value => do
    let _ ← UserMap.userTagUpdate doubles user_tag_save_on_tair mac user_tag user_value
    pure ()

/-- The output of `add_user_sql`. -/
def Cmd.printed : (c : Cmd) → c.Reply → List Text
  | .addUser _, r => [r]
  | _, _ => []

/-- `exec`, with the outputs so far. -/
def execPrinting (E : Env) (pid : Nat) (c : Cmd) (s : World × List Text) (r : c.Reply)
    (s' : World × List Text) : Prop :=
  exec E pid c s.1 r s'.1 ∧ s'.2 = s.2 ++ c.printed r

/-- Calls one after the other, in any processes; each may end with an exception. -/
inductive EntryCalls (E : Env) (s0 : World × List Text) : World × List Text → Prop
  | start : EntryCalls E s0 s0
  | call {s s' : World × List Text} {pid : Nat} {r : EntryCall} {x : Except Exn Unit}
      (before : EntryCalls E s0 s)
      (runs : (r.start cfg doubles user_tag_save_on_tair).Runs (execPrinting E pid) s x s') :
      EntryCalls E s0 s'

end

/-- The ten attempts of a lookup are not all in vain, and no output is the number zero. -/
structure Heard (outputs : List Text) : Prop where
  attempts : ¬List.replicate 10 [] <:+: outputs
  number : ∀ out ∈ outputs, stoi out ≠ .ok 0

theorem Heard.of_prefix {l l' : List Text} (h : Heard l') (le : l <+: l') : Heard l where
  attempts in_ := h.attempts (in_.trans le.isInfix)
  number out hout := h.number out (le.subset hout)

/-! ## The records of user zero -/

/-- The record is about user zero alone. -/
def ZeroRecord : Key → Bool
  | .userDuration _ _ user_id | .userShopDuration _ _ _ user_id | .userLabelSet user_id
  | .userShopId _ user_id => user_id = 0
  | _ => false

/-- The record has users as members. -/
def ArriveRecord : Key → Bool
  | .vipArriveTime _ | .shopArriveTime .. => true
  | _ => false

/-- The score of the member `0`. -/
def zeroScore (type : TypeDb) (v : Option Val) : Option Rat :=
  (zsetAt v).bind fun z => z.lookup (CBaseMdb.storedWord type (decimal 0))

/-- Nothing is created or changed that is about user zero. -/
structure SameZero (type : TypeDb) (w v : World) : Prop where
  records : ∀ k, ZeroRecord k = true → v.db k.text = w.db k.text
  members : ∀ k, ArriveRecord k = true →
    zeroScore type (v.db k.text) = zeroScore type (w.db k.text)

theorem SameZero.refl {type : TypeDb} (w : World) : SameZero type w w :=
  ⟨fun _ _ => rfl, fun _ _ => rfl⟩

theorem SameZero.trans {type : TypeDb} {a b c : World} (h : SameZero type a b)
    (h' : SameZero type b c) : SameZero type a c where
  records k hk := (h'.records k hk).trans (h.records k hk)
  members k hk := (h'.members k hk).trans (h.members k hk)

/-- The operation is not about user zero. -/
structure Cmd.Spares (c : Cmd) : Prop where
  records : ∀ k, c.Touches k → ZeroRecord k = false
  members : ∀ o, c = .store o → ArriveRecord o.key = true →
    ∃ k score id, o = .zadd k score (decimal id) ∧ id ≠ 0

theorem zeroScore_addScore {type : TypeDb} {id : Int} {score : Rat} (h : id ≠ 0) (v : Option Val) :
    zeroScore type (CBaseMdb.addScore (CBaseMdb.storedWord type (decimal id)) score v) =
      zeroScore type v := by
  cases e : zsetAt v with
  | none => rw [CBaseMdb.addScore, e]
  | some z =>
    have ne : CBaseMdb.storedWord type (decimal 0) ≠ CBaseMdb.storedWord type (decimal id) := by
      intro same
      exact h (decimal_injective (CBaseMdb.storedWord_injective type same)).symm
    rw [zeroScore, zeroScore, CBaseMdb.zsetAt_addScore e, e]
    exact AList.lookup_insert_ne ne

variable {E : Env} {pid : Nat} {w v : World}

theorem exec_spares {c : Cmd} {r : c.Reply} (spares : c.Spares) (x : exec E pid c w r v) :
    SameZero E.type w v := by
  constructor
  · intro k hk
    apply exec_frame x
    intro touches
    rw [spares.records k touches] at hk
    cases hk
  · intro k hk
    by_cases touches : c.Touches k
    · cases c with
      | store o =>
        obtain rfl : o.key = k := touches
        obtain ⟨k, score, id, rfl, ne⟩ := spares.members o rfl hk
        have added : zeroScore E.type (((StoreOp.zadd k score (decimal id)).run E.type E.m w.db).2
            k.text) = zeroScore E.type (w.db k.text) := by
          simp only [StoreOp.run, CBaseMdb.zadd_word (isWord_decimal id), zeroScore_addScore ne]
        rcases x.1 with ⟨_, -, served⟩ | ⟨-, -, lost | carried⟩
        · have after : v.db = ((StoreOp.zadd k score (decimal id)).run E.type E.m w.db).2 :=
            (congrArg Prod.snd served).trans (StoreOp.run_finding_snd ..)
          rw [after]
          exact added
        · rw [lost]
        · rw [carried]
          exact added
      | addUser mac => obtain rfl := touches; cases hk
      | setLastDateTime mall_id s => obtain rfl := touches; cases hk
      | _ => exact touches.elim
    · rw [exec_frame x touches]

/-! ## Programs -/

/-- The outputs grow, and if every lookup is answered, user zero is left alone. -/
structure ZeroKept (type : TypeDb) (s s' : World × List Text) : Prop where
  outputs : s.2 <+: s'.2
  zero : Heard s'.2 → SameZero type s.1 s'.1

theorem ZeroKept.refl {type : TypeDb} (s : World × List Text) : ZeroKept type s s :=
  ⟨List.prefix_rfl, fun _ => SameZero.refl s.1⟩

theorem ZeroKept.trans {type : TypeDb} {a b c : World × List Text} (h : ZeroKept type a b)
    (h' : ZeroKept type b c) : ZeroKept type a c where
  outputs := h.outputs.trans h'.outputs
  zero heard := (h.zero (heard.of_prefix h'.outputs)).trans (h'.zero heard)

theorem wp_outputs {α : Type} (p : UserM α) (s : World × List Text) :
    p.wp (execPrinting E pid) (fun _ s' => s.2 <+: s'.2) s := by
  apply Prog.wp_of_every (φ := fun _ => True) (T := fun s s' : World × List Text => s.2 <+: s'.2)
    (fun _ => List.prefix_rfl) (fun _ _ _ => List.IsPrefix.trans) _
    (.of_forall (fun _ => trivial) p)
  intro c s r s' _ x
  rw [x.2]
  exact List.prefix_append _ _

/-- No run of the program touches user zero. -/
def KeepsZero (E : Env) (pid : Nat) {α : Type} (p : UserM α) : Prop :=
  p.Relates (execPrinting E pid) (ZeroKept E.type)

theorem KeepsZero.bind {α β : Type} {p : UserM α} {f : α → UserM β} (hp : KeepsZero E pid p)
    (hf : ∀ a, KeepsZero E pid (f a)) : KeepsZero E pid (p >>= f) :=
  Prog.Relates.bind (T := ZeroKept E.type) (fun _ _ _ => ZeroKept.trans) hp hf

theorem keepsZero_of_every {α : Type} {p : UserM α} (h : p.Every Cmd.Spares) :
    KeepsZero E pid p := by
  intro s
  apply Prog.wp_of_every ZeroKept.refl (fun _ _ _ => ZeroKept.trans) _ h
  intro c s r s' spares x
  refine ⟨?_, fun _ => exec_spares spares x.1⟩
  rw [x.2]
  exact List.prefix_append _ _

/-! ## Ids -/

section
variable {mac : UInt64}

theorem printed_runAddUser (n : Nat) (s : World × List Text) :
    (runAddUser mac n).wp (execPrinting E pid) (fun x s' => ∀ out, x = .ok out →
      out = [] ∧ s'.2 = s.2 ++ List.replicate n [] ∨ out ≠ [] ∧ out ∈ s'.2) s := by
  induction n generalizing s with
  | zero =>
    rintro out ⟨⟩
    exact Or.inl ⟨rfl, (List.append_nil _).symm⟩
  | succ n ih =>
    intro s_id s' x
    have printed : s'.2 = s.2 ++ [s_id] := x.2
    simp only [Prog.bind]
    split
    · rename_i some_
      rintro out ⟨⟩
      refine Or.inr ⟨some_, ?_⟩
      rw [printed]
      exact List.mem_append_right _ List.mem_cons_self
    · rename_i none
      obtain rfl := not_not.mp none
      apply Prog.wp_mono _ (ih s')
      intro y s'' after out hout
      rcases after out hout with ⟨rfl, e⟩ | other
      · refine Or.inl ⟨rfl, ?_⟩
        rw [e, printed, List.append_assoc]
        rfl
      · exact Or.inr other

/-- Once PG is heard the id is not zero. -/
def NotZero (x : Except Exn Int32) (s : World × List Text) : Prop :=
  ∀ id, x = .ok id → Heard s.2 → id ≠ 0

theorem notZero_bind {α : Type} {p : UserM α} {f : α → UserM Int32} {s : World × List Text}
    (h : ∀ a s', (f a).wp (execPrinting E pid) NotZero s') :
    (p >>= f).wp (execPrinting E pid) NotZero s := by
  apply Prog.wp_seq _ (wp_outputs p s)
  · exact fun a s' _ => h a s'
  · rintro e s' - id ⟨⟩

/-- The outputs that come after the id do not change it. -/
theorem notZero_keep {α : Type} {p : UserM α} {id : Int32} {s : World × List Text}
    (h : NotZero (.ok id) s) : (p >>= fun _ => pure id).wp (execPrinting E pid) NotZero s := by
  apply Prog.wp_seq _ (wp_outputs p s)
  · rintro a s' grown _ ⟨⟩ heard
    exact h id rfl (heard.of_prefix grown)
  · rintro e s' - _ ⟨⟩

theorem notZero_userIdFromPg (s : World × List Text) :
    (userIdFromPg mac).wp (execPrinting E pid) NotZero s := by
  apply Prog.wp_seq _ (printed_runAddUser 10 s)
  · intro s_id s' printed
    have read : (if s_id ≠ [] then liftExcept (stoi s_id) else pure 0 : UserM Int32).wp
        (execPrinting E pid) (fun x s'' => s'' = s' ∧ NotZero x s') s' := by
      rcases printed s_id rfl with ⟨rfl, silent⟩ | ⟨some_, out⟩
      · refine ⟨rfl, fun id _ heard => absurd ?_ heard.attempts⟩
        rw [silent]
        exact (List.suffix_append _ _).isInfix
      · rw [if_pos some_]
        cases number : stoi s_id with
        | error e => exact ⟨rfl, by rintro id ⟨⟩⟩
        | ok id =>
          refine ⟨rfl, ?_⟩
          rintro _ ⟨⟩ heard rfl
          exact heard.number s_id out number
    apply Prog.wp_seq _ read
    · rintro user_id _ ⟨rfl, ne⟩
      exact notZero_keep ne
    · rintro e _ ⟨rfl, -⟩ id ⟨⟩
  · rintro e s' - id ⟨⟩

theorem notZero_userGetId (s : World × List Text) :
    (userGetId mac).wp (execPrinting E pid) NotZero s := by
  intro _ s1 _
  apply notZero_bind (p := userMapInit)
  intro _ s2 cached s3 _
  have body : (if cached = 0 then userIdFromPg mac else pure cached : UserM Int32).wp
      (execPrinting E pid) NotZero s3 := by
    split
    · exact notZero_userIdFromPg s3
    · rename_i ne
      rintro id ⟨⟩ -
      exact ne
  apply Prog.wp_seq _ body
  · intro id s4 ne
    exact notZero_keep (p := Prog.call .unlock) ne
  · rintro e s4 - id ⟨⟩

end

/-! ## The entry points -/

/-- A record of no user. -/
abbrev Harmless (k : Key) : Prop := ZeroRecord k = false ∧ ArriveRecord k = false

theorem spares_of_within {c : Cmd} (h : Within Harmless c) : c.Spares := by
  refine ⟨fun k touches => (h.records k touches).1, ?_⟩
  rintro o rfl arrive
  rw [(h.records o.key rfl).2] at arrive
  cases arrive

theorem keepsZero_within {α : Type} {p : UserM α} (h : p.Every (Within Harmless)) :
    KeepsZero E pid p :=
  keepsZero_of_every (h.mono fun _ => spares_of_within)

/-- An operation on no record. -/
theorem keepsZero_op {α : Type} {c : Cmd} {k : c.Reply → UserM α} (none : ∀ k, ¬c.Touches k)
    (hk : ∀ r, KeepsZero E pid (k r)) : KeepsZero E pid (.op c k) := by
  have spares : c.Spares := ⟨fun k touches => absurd touches (none k), by
    rintro o rfl
    exact absurd rfl (none o.key)⟩
  exact KeepsZero.bind (keepsZero_of_every (p := Prog.call c) ⟨spares, fun _ => trivial⟩) hk

theorem keepsZero_whenM {c : Prop} [Decidable c] {p : UserM Unit} (h : KeepsZero E pid p) :
    KeepsZero E pid (whenM c p) := by
  unfold whenM
  split
  · exact h
  · exact fun s => .refl s

section
variable {cfg : Config} {mac : UInt64} {user_id mall_id shop_id : Int32} {t_pre t : Int64}

/-- What follows a lookup has to keep to users other than zero. -/
theorem keepsZero_userGetId {α : Type} {f : Int32 → UserM α}
    (h : ∀ user_id, user_id ≠ 0 → KeepsZero E pid (f user_id)) :
    KeepsZero E pid (userGetId mac >>= f) := by
  intro s
  have own : KeepsZero E pid (userGetId mac) :=
    keepsZero_within (every_userGetId ⟨rfl, rfl⟩ fun _ => ⟨rfl, rfl⟩)
  apply Prog.wp_seq _ (Prog.wp_and _ (own s) (notZero_userGetId s))
  · rintro user_id s' ⟨kept, ne⟩
    by_cases zero : user_id = 0
    · apply Prog.wp_mono _ (wp_outputs (f user_id) s')
      intro _ s'' grown
      exact ⟨kept.outputs.trans grown, fun heard => absurd zero (ne _ rfl (heard.of_prefix grown))⟩
    · exact Prog.wp_mono _ (h user_id zero s') fun _ _ => kept.trans
  · exact fun _ _ both => both.1

theorem toInt_ne_zero (h : user_id ≠ 0) : user_id.toInt ≠ 0 := by
  intro e
  exact h (Int32.toInt_inj.mp e)

/-- A user other than zero arrives. -/
theorem spares_zadd {k : Key} {score : Int64} (h : user_id ≠ 0) (arrive : ArriveRecord k = true) :
    (Cmd.store (.zadd k score (decimal user_id.toInt))).Spares where
  records k' touches := by
    obtain rfl : k = k' := touches
    cases k <;> first | rfl | cases arrive
  members o e _ := by
    obtain rfl := Cmd.store.inj e
    exact ⟨k, score, user_id.toInt, rfl, toInt_ne_zero h⟩

theorem keepsZero_zadd {k : Key} (h : user_id ≠ 0) (arrive : ArriveRecord k = true) :
    KeepsZero E pid (zadd k t (decimal user_id.toInt)) :=
  keepsZero_of_every ⟨spares_zadd h arrive, fun _ => trivial⟩

theorem keepsZero_userDurationAdd (h : user_id ≠ 0) :
    KeepsZero E pid (userDurationAdd cfg user_id mall_id t_pre t) := by
  apply keepsZero_within
  exact (every_incr ⟨decide_eq_false (toInt_ne_zero h), rfl⟩).bind fun _ => trivial

theorem keepsZero_vipArriveTimeRecord (h : user_id ≠ 0) :
    KeepsZero E pid (vipArriveTimeRecord cfg user_id mall_id t_pre t) := by
  have vip : KeepsZero E pid
      (if cfg.check_vip = 0 then pure true else isMallVip user_id mall_id) := by
    apply keepsZero_within
    split
    · trivial
    · exact (every_get ⟨rfl, rfl⟩).bind fun _ => trivial
  exact keepsZero_whenM (vip.bind fun _ => keepsZero_whenM (keepsZero_zadd h rfl))

theorem keepsZero_creditUser : KeepsZero E pid (creditUser cfg mac mall_id t_pre t) := by
  apply keepsZero_userGetId
  intro user_id h
  apply (keepsZero_userDurationAdd h).bind
  intro _
  apply (keepsZero_vipArriveTimeRecord h).bind
  intro _
  exact keepsZero_within ((every_sadd ⟨rfl, rfl⟩).bind fun _ => trivial)

theorem keepsZero_userAdd {x y : Rat} {z : Int32} :
    KeepsZero E pid (userAdd cfg mac x y z mall_id) := by
  apply (keepsZero_within every_userMapInit).bind
  intro _
  apply keepsZero_op (c := .time) fun _ => not_false
  intro t_now
  have prop {τ : Ty} {q : LocationProp} {v : τ.Val} :
      KeepsZero E pid (tairSetUserProp τ mall_id mac q v) :=
    keepsZero_within (every_set ⟨rfl, rfl⟩)
  apply KeepsZero.bind prop
  intro _
  apply KeepsZero.bind prop
  intro _
  apply KeepsZero.bind (keepsZero_whenM prop)
  intro _
  apply (keepsZero_within (every_get ⟨rfl, rfl⟩)).bind
  intro t_pre_time
  apply KeepsZero.bind prop
  intro _
  apply (keepsZero_within (every_zadd ⟨rfl, rfl⟩)).bind
  intro _
  have logged : (userLocationLogAdd cfg mac x y z mall_id t_now).Every (Within Harmless) :=
    every_userLocationLogAdd (fun _ => ⟨rfl, rfl⟩) ⟨rfl, rfl⟩ (fun _ => ⟨rfl, rfl⟩)
      (fun _ => ⟨rfl, rfl⟩) fun _ _ _ => ⟨rfl, rfl⟩
  exact (keepsZero_within logged).bind fun _ => keepsZero_creditUser

theorem keepsZero_apmacGetShopid : KeepsZero E pid (apmacGetShopid mac) :=
  (keepsZero_within every_userMapInit).bind fun _ =>
    keepsZero_op (c := .apmacGetShopid mac) (fun _ => not_false) fun _ s => .refl s

theorem keepsZero_apmacSightings (macs : List UInt64) :
    KeepsZero E pid (apmacSightings cfg macs) := by
  induction macs with
  | nil => exact fun s => .refl s
  | cons mac macs ih =>
    have sighting : KeepsZero E pid (apmacSighting cfg mac) := by
      apply keepsZero_op (c := .time) fun _ => not_false
      intro now
      apply (keepsZero_within (every_set ⟨rfl, rfl⟩)).bind
      intro _
      apply (keepsZero_within (every_zadd ⟨rfl, rfl⟩)).bind
      intro _
      apply keepsZero_userGetId
      intro user_id h
      apply (keepsZero_within (every_get ⟨rfl, rfl⟩)).bind
      intro prev_t
      exact keepsZero_vipArriveTimeRecord h
    exact sighting.bind fun _ => ih

theorem keepsZero_recordInShop {is_vip : Bool} (h : user_id ≠ 0) :
    KeepsZero E pid (recordInShop cfg shop_id user_id mac t is_vip) := by
  have last : (getUserLocationTime 2 shop_id mac).Every (Within Harmless) :=
    every_userMapInit.bind fun _ => every_get ⟨rfl, rfl⟩
  have times : (updateUserLocationTime cfg 2 shop_id mac t).Every (Within Harmless) :=
    every_userMapInit.bind fun _ => (every_set ⟨rfl, rfl⟩).bind fun _ => every_zadd ⟨rfl, rfl⟩
  have ofShop (date : Stamp) (interval : Int32) :
      (shopAllUsersDurationAdd 2 shop_id date interval).Every (Within Harmless) :=
    (every_incr ⟨rfl, rfl⟩).bind fun _ => trivial
  have ofMall (date : Stamp) (interval : Int32) :
      (mallAllUsersDurationAdd 2 date interval).Every (Within Harmless) :=
    (every_incr ⟨rfl, rfl⟩).bind fun _ => trivial
  have durations (date : Stamp) (interval : Int32) :
      (shopUserDurationAdd cfg 2 shop_id user_id date interval).Every (Within Harmless) :=
    (every_incr ⟨decide_eq_false (toInt_ne_zero h), rfl⟩).bind fun _ =>
      (ofShop _ _).bind fun _ => ofMall _ _
  have arrives (last_time : Int64) :
      KeepsZero E pid (updateUserArriveTime cfg 2 shop_id user_id last_time t is_vip) :=
    (keepsZero_within every_userMapInit).bind fun _ => keepsZero_whenM (keepsZero_zadd h rfl)
  have place : (updateShopidOfUserLocation cfg user_id shop_id t).Every (Within Harmless) :=
    every_set ⟨decide_eq_false (toInt_ne_zero h), rfl⟩
  exact (keepsZero_within last).bind fun last_time => (keepsZero_within times).bind fun _ =>
    (keepsZero_within (durations _ _)).bind fun _ => (arrives last_time).bind fun _ =>
      keepsZero_within place

theorem keepsZero_apmacCloserSightings (entries : List (Text × UInt64)) :
    KeepsZero E pid (apmacCloserSightings cfg shop_id t entries) := by
  induction entries with
  | nil => exact fun s => .refl s
  | cons entry entries ih =>
    have vip : KeepsZero E pid (macIsVip entry.1 shop_id) :=
      (keepsZero_within every_userMapInit).bind fun _ =>
        keepsZero_op (c := .macIsVip (entry.1.take 17) shop_id) (fun _ => not_false)
          fun _ s => .refl s
    have sighting : KeepsZero E pid (apmacCloserSighting cfg shop_id t entry) :=
      vip.bind fun is_vip => keepsZero_userGetId fun user_id h =>
        keepsZero_whenM (keepsZero_recordInShop h)
    exact sighting.bind fun _ => ih

theorem keepsZero_userTagUpdate {doubles : Doubles} {save : Bool} {user_tag : Text}
    {user_value : Rat} : KeepsZero E pid (userTagUpdate doubles save mac user_tag user_value) := by
  apply (keepsZero_within every_userMapInit).bind
  intro _
  split
  · apply keepsZero_userGetId
    intro user_id h
    have saved : (hset (.userLabelSet user_id.toInt) user_tag (doubles.print user_value)).Every
        (Within Harmless) :=
      ⟨within_store ⟨decide_eq_false (toInt_ne_zero h), rfl⟩, fun _ => trivial⟩
    exact (keepsZero_within saved).bind fun _ s => .refl s
  · exact fun s => .refl s

end

theorem keepsZero_entryCall {cfg : Config} {doubles : Doubles} {save : Bool} (r : EntryCall) :
    KeepsZero E pid (r.start cfg doubles save) := by
  cases r with
  | userAdd mac x y z mall_id => exact keepsZero_userAdd.bind fun _ s => .refl s
  | apmacMsg apUninit uninit msg =>
    exact keepsZero_apmacGetShopid.bind fun _ => keepsZero_apmacSightings _
  | apmacCloserMsg apUninit uninit msg =>
    apply keepsZero_apmacGetShopid.bind
    intro shop_id
    apply keepsZero_op (c := .time) fun _ => not_false
    exact fun now => keepsZero_apmacCloserSightings _
  | userTagUpdate mac user_tag user_value => exact keepsZero_userTagUpdate.bind fun _ s => .refl s

/-- If every lookup is answered, with another number than zero, then no calls create or change
a record of user zero. -/
theorem user_zero_untouched {E : Env} {cfg : Config} {doubles : Doubles}
    {user_tag_save_on_tair : Bool} {w v : World} {outputs : List Text}
    (run : EntryCalls cfg doubles user_tag_save_on_tair E (w, []) (v, outputs))
    (heard : Heard outputs) : SameZero E.type w v := by
  have kept : ∀ {s s'}, EntryCalls cfg doubles user_tag_save_on_tair E s s' →
      ZeroKept E.type s s' := by
    intro s s' run
    induction run with
    | start => exact .refl s
    | call before runs ih => exact ih.trans (runs.post _ (keepsZero_entryCall _ _))
  exact (kept run).zero heard

/-! ## A first sighting -/

/-- The attempts to add a user print `outs`, one after the other, and then nothing. -/
def answerPrinting (outs : List Text) (c : Cmd) (s : World × List Text) :
    Option (c.Reply × (World × List Text)) :=
  (answer (plainEnv .redis) (fun _ _ => some (outs[s.2.length]?.getD []))
      (fun _ _ => []) 0 c s.1).map fun r => (r.1, (r.2, s.2 ++ c.printed r.1))

theorem execPrinting_answer {outs : List Text} (c : Cmd) (s : World × List Text)
    (r : c.Reply × (World × List Text)) (h : answerPrinting outs c s = some r) :
    execPrinting (plainEnv .redis) 0 c s r.1 r.2 := by
  obtain ⟨a, ha, rfl⟩ := Option.map_eq_some_iff.mp h
  exact ⟨exec_answer rfl (fun _ _ _ _ => trivial) (fun _ _ => trivial) c s.1 a ha, rfl⟩

abbrev firstWorld : World := World.fresh (fun _ => none) [65]

/-- `user_add` for a new device while PG prints `outs`. -/
def firstSighting (outs : List Text) : Option (Except Exn Unit × (World × List Text)) :=
  ((EntryCall.userAdd 5 1 2 3 2).start firstDay Machine.plain.doubles true).eval (answerPrinting outs)
    (firstWorld, [])

theorem entryCalls_of_firstSighting {outs : List Text} {r : Except Exn Unit × (World × List Text)}
    (h : firstSighting outs = some r) :
    EntryCalls firstDay Machine.plain.doubles true (plainEnv .redis) (firstWorld, []) r.2 :=
  EntryCalls.start.call (Prog.runs_eval _ execPrinting_answer h)

/-- PG prints nothing, twice, and then the id 7. -/
theorem user_zero_untouched_seven : ∃ v,
    EntryCalls firstDay Machine.plain.doubles true (plainEnv .redis) (firstWorld, [])
      (v, [[], [], "7".toList]) ∧ SameZero .redis firstWorld v := by
  have printed : (firstSighting [[], [], "7".toList]).map (·.2.2) = some [[], [], "7".toList] := by
    decide +kernel
  obtain ⟨⟨x, v, outputs⟩, runs, rfl⟩ := Option.map_eq_some_iff.mp printed
  have read : ∀ t ∈ [[], [], "7".toList], stoi t ≠ .ok 0 := by decide +kernel
  have heard : Heard [[], [], "7".toList] := ⟨by decide, read⟩
  have run := entryCalls_of_firstSighting runs
  exact ⟨v, run, user_zero_untouched run heard⟩

/-- PG prints nothing, ten times, and the time of the device is counted for user zero. -/
theorem user_zero_credited : ∃ v,
    EntryCalls firstDay Machine.plain.doubles true (plainEnv .redis) (firstWorld, [])
      (v, List.replicate 10 []) ∧ ¬SameZero .redis firstWorld v := by
  have counted : (firstSighting []).map (fun r =>
      (r.2.2, (r.2.1.db (Key.userDuration (dateOf firstDay 65) 2 0).text).isSome)) =
        some (List.replicate 10 [], true) := by decide +kernel
  obtain ⟨⟨x, v, outputs⟩, runs, e⟩ := Option.map_eq_some_iff.mp counted
  obtain ⟨rfl, some_⟩ := Prod.mk.inj e
  refine ⟨v, entryCalls_of_firstSighting runs, fun same => ?_⟩
  rw [same.records _ rfl] at some_
  cases some_

end UserMap

end SimpleDsp
