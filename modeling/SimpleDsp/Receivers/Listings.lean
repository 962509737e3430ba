import SimpleDsp.Receivers.Records

/-!
# The user listings

`user_list_all` and `user_list` read the sorted set of the date and, the first of
them, the properties of the users in it. Neither changes the store.

* `mem_rangeByScore`, `pairwise_rangeByScore`: what the server lists;
* `HeardRecords`: sightings over connections, which may get into error;
* `Listed`: the sorted sets after a run;
* `listings_complete`: both listings on Redis, from one list of MACs.
-/

namespace SimpleDsp

open DecimalText Programs

namespace UserMap

/-! ## The listings -/

/-- `tair_get_user_prop` with the MAC as a text. -/
def tairGetUserPropOf (type : TypeDb) (m : Machine) (τ : Ty) (mall_id : Int32) (mac : Text)
    (prop : LocationProp) (default_v : τ.Val) (db : Db) : τ.Val :=
  CBaseMdb.get type m τ (joined ':' ["location".toList, decimal mall_id.toInt, mac, prop.text])
    default_v db

structure ListedUser where
  id : Text
  x : Rat
  y : Rat
  z : Int32

/-- The object `user_list_all` fills: users by their number, and `size`. -/
structure UserListAll where
  users : List (Text × ListedUser)
  size : Int32

/-- An element of the array `users`. -/
inductive UserItem
  | number (mac : UInt64)
  | text (t : Text)
  deriving DecidableEq

structure UserList where
  users : List UserItem
  size : UInt32
  deriving DecidableEq

/-- `sscanf(s, "%llu", &tmp)` -/
def sscanfLlu (tmp : UInt64) (s : Text) : UInt64 :=
  ((scanSigned s).map fun p => clampUInt64 p.1).getD tmp

section
variable (type : TypeDb) (m : Machine) (cfg : Config) (db : Db)

/-- The object `user` of the loop. -/
def listedUser (mall_id : Int32) (it : Text) : ListedUser where
  id := cString it
  x := tairGetUserPropOf type m .double mall_id (cString it) .x (0 : Rat) db
  y := tairGetUserPropOf type m .double mall_id (cString it) .y (0 : Rat) db
  z := tairGetUserPropOf type m .int mall_id (cString it) .z (0 : Int32) db

/-- The body of the loop. -/
def listUser (mall_id : Int32) (list : UserListAll) (it : Text) : UserListAll :=
  let number := list.size + 1
  ⟨list.users ++ [(decimal number.toInt, listedUser type m db mall_id it)], number⟩

/-- When the clock reads `t_now`. -/
def userListAll (t_now : Int64) (start end_ : Rat) (mall_id : Int32) : UserListAll :=
  let s_date := getDateStr cfg.localtime t_now.toInt
  let values := CBaseMdb.zrangebyscore type m .string
    (Key.locationUpdateTime s_date mall_id.toInt).text start end_ db
  values.foldl (listUser type m db mall_id) ⟨[], 0⟩

/-- The array from the index `i` on. -/
def userArray (i : Int32) : List Text → List UserItem
  | [] => []
  | id :: users =>
    if i < 50 then .number (sscanfLlu (m.uninit .ull) (cString id)) :: userArray (i + 1) users
    else [.text "and more..".toList]

def userList (t_now : Int64) (start end_ : Rat) (mall_id shop_id : Int32) : UserList :=
  let s_date := getDateStr cfg.localtime t_now.toInt
  let key : Key :=
    if 0 < shop_id then .locationUpdateTimeShop s_date mall_id.toInt shop_id.toInt
    else .locationUpdateTime s_date mall_id.toInt
  let users := CBaseMdb.zrangebyscore type m .string key.text start end_ db
  ⟨userArray m 0 users, UInt32.ofNat users.length⟩

end

/-- The store as the process reads it: over a connection in error every reply is null, as if
there were nothing. -/
def Linked.reads (v : Linked) (pid : Nat) : Db := if v.err pid then Db.empty else v.world.db

theorem Linked.reads_sound {v : Linked} {pid : Nat} (sound : v.err pid = false) :
    v.reads pid = v.world.db := by
  simp [Linked.reads, sound]

theorem Linked.reads_dead {v : Linked} {pid : Nat} (dead : v.err pid = true) :
    v.reads pid = Db.empty := by
  simp [Linked.reads, dead]

/-! ## What the server lists -/

section
variable {z : AList fun _ : Text => Rat} {lo hi : Rat}

theorem mem_rangeByScore {x : Text} :
    x ∈ rangeByScore z lo hi ↔ ∃ s ∈ z.lookup x, lo ≤ s ∧ s ≤ hi := by
  simp only [rangeByScore, List.mem_map, List.mem_filter, decide_eq_true_eq,
    (perm_rangeEntries z).mem_iff]
  constructor
  · rintro ⟨⟨x, s⟩, ⟨entry, inside⟩, rfl⟩
    exact ⟨s, AList.mem_lookup_iff.mpr entry, inside⟩
  · rintro ⟨s, score, inside⟩
    exact ⟨⟨x, s⟩, ⟨AList.mem_lookup_iff.mp score, inside⟩, rfl⟩

theorem nodup_rangeByScore (z : AList fun _ : Text => Rat) (lo hi : Rat) :
    (rangeByScore z lo hi).Nodup := by
  have keys : ((rangeEntries z).map Sigma.fst).Nodup :=
    ((perm_rangeEntries z).map Sigma.fst).nodup_iff.mpr z.nodupKeys
  exact keys.sublist (List.filter_sublist.map Sigma.fst)

/-- Lower scores come first, and equal scores in the order of the members. -/
theorem ordered_rangeByScore (z : AList fun _ : Text => Rat) (lo hi : Rat) :
    (rangeByScore z lo hi).Pairwise fun x y =>
      ∀ s ∈ z.lookup x, ∀ t ∈ z.lookup y, s < t ∨ s = t ∧ x ≤ y := by
  let order := fun a b : Sigma fun _ : Text => Rat => a.2 < b.2 ∨ a.2 = b.2 ∧ a.1 ≤ b.1
  have total : Std.Total order := by
    constructor
    intro a b
    rcases lt_trichotomy a.2 b.2 with lt | eq | gt
    · exact Or.inl (Or.inl lt)
    · exact (le_total a.1 b.1).imp (fun le => Or.inr ⟨eq, le⟩) fun le => Or.inr ⟨eq.symm, le⟩
    · exact Or.inr (Or.inl gt)
  have trans : IsTrans _ order := by
    constructor
    rintro a b c (ab | ⟨ab, ab'⟩) (bc | ⟨bc, bc'⟩)
    · exact Or.inl (lt_trans ab bc)
    · exact Or.inl (bc ▸ ab)
    · exact Or.inl (ab ▸ bc)
    · exact Or.inr ⟨ab.trans bc, le_trans ab' bc'⟩
  have sorted : (rangeEntries z).Pairwise order := List.pairwise_insertionSort order z.entries
  rw [rangeByScore, List.pairwise_map]
  apply (sorted.filter _).imp_of_mem
  intro a b ha hb le s hs t ht
  have score {e : Sigma fun _ : Text => Rat}
      (he : e ∈ (rangeEntries z).filter fun e => lo ≤ e.2 ∧ e.2 ≤ hi) : z.lookup e.1 = some e.2 :=
    AList.mem_lookup_iff.mpr ((perm_rangeEntries z).mem_iff.mp (List.mem_of_mem_filter he))
  obtain rfl := Option.some.inj ((score ha).symm.trans hs)
  obtain rfl := Option.some.inj ((score hb).symm.trans ht)
  exact le

theorem pairwise_rangeByScore (z : AList fun _ : Text => Rat) (lo hi : Rat) :
    (rangeByScore z lo hi).Pairwise fun x y => ∀ s ∈ z.lookup x, ∀ t ∈ z.lookup y, s ≤ t := by
  apply (ordered_rangeByScore z lo hi).imp
  intro x y order s hs t ht
  rcases order s hs t ht with lt | ⟨eq, -⟩
  · exact lt.le
  · exact eq.le

end

/-! ## Runs over connections -/

/-- Calls of `user_add` and messages of `parse_apmac_msg` that have returned, in any order,
and the sightings they have recorded, the latest first. A call may lose the connection of
its process, and whatever a process does then is not heard. -/
inductive HeardRecords (E : Env) (cfg : Config) (w0 : World) : List Record → Linked → Prop
  | start : HeardRecords E cfg w0 [] (.sound w0)
  | add {log : List Record} {v v' : Linked} {s : Sighting} {t : Int64} {a : Int32}
      (before : HeardRecords E cfg w0 log v) (sound : v.err s.pid = false)
      (runs : LinkedCall E cfg v s t (.ok a) v') : HeardRecords E cfg w0 (s.record t :: log) v'
  | apmac {log : List Record} {v v' : Linked} {pid : Nat} {apUninit : Mac}
      {uninit : Nat → Mac} {msg : Text} {ts : List Int64} (before : HeardRecords E cfg w0 log v)
      (sound : v.err pid = false) (readings : ts.length = (apmacMacs uninit msg).length)
      (runs : (parseApmacMsg cfg apUninit uninit msg).Runs (linked E pid) (v.at ts) (.ok ()) v') :
      HeardRecords E cfg w0 (messageRecords (apmacMacs uninit msg) ts ++ log) v'
  | unheard {log : List Record} {v v' : Linked} {pid : Nat} {ts : List Int64} {α : Type}
      {p : UserM α} {x : Except Exn α} (before : HeardRecords E cfg w0 log v) (dead : v.err pid = true)
      (runs : p.Runs (linked E pid) (v.at ts) x v') : HeardRecords E cfg w0 log v'

section
variable {E : Env} {cfg : Config} {w v : World} {log : List Record} {r : Record} {pid : Nat}

/-- What one sighting keeps, such a run keeps. -/
structure KeepsSights (E : Env) (cfg : Config) (P : List Record → World → Prop) : Prop where
  same : ∀ log w v, v.db = w.db → P log w → P log v
  step : ∀ log r w v, P log w → Does E Unsighted (sightOps cfg r) w v → P (r :: log) v

variable {P : List Record → World → Prop}

theorem wp_apmacSighting_sighted {mac : UInt64} {t : Int64} {ts : List Int64} (answered : ¬E.lossy)
    (clock : w.clock = t :: ts) : (apmacSighting cfg mac).wp (exec E pid) (fun r v => ∀ a, r = .ok a →
      v.clock = ts ∧ Does E Unsighted (sightOps cfg ⟨mac, 2, t, none⟩) w v) w := by
  intro now v0 read
  obtain ⟨rfl, rest⟩ := List.cons.inj (clock.symm.trans read.1)
  apply wp_timed (S := Unsighted) answered not_false not_false
    (Does.of_same (w := w) (by rw [read.2]) (by rw [read.2]))
  intro u clock1 timed
  have arrival : (do
      let user_id ← userGetId mac
      let prev_t ← tairGetUserTime 2 (BitVec.ofNat 48 mac.toNat) .time
      vipArriveTimeRecord cfg user_id 2 prev_t t : UserM Unit).Every (Within Unsighted) :=
    (every_userGetId trivial fun _ => trivial).bind fun _ => (every_get trivial).bind fun _ =>
      every_vipArriveTimeRecord trivial trivial
  apply Prog.wp_mono _ (Prog.wp_and _ (wp_frame arrival u) (wp_clock arrival u))
  rintro r v ⟨same, clock2⟩ a _
  exact ⟨by rw [clock2, clock1, rest], timed.quiet same⟩

theorem KeepsSights.apmacSightings (keeps : KeepsSights E cfg P) (answered : ¬E.lossy)
    {macs : List UInt64} {ts : List Int64} (h : P log w) (readings : ts.length = macs.length)
    (clock : w.clock = ts) : (apmacSightings cfg macs).wp (exec E pid) (fun x v => ∀ a, x = .ok a →
      P (messageRecords macs ts ++ log) v) w := by
  induction macs generalizing log w ts with
  | nil =>
    obtain rfl := List.length_eq_zero_iff.mp readings
    exact fun _ _ => h
  | cons mac macs ih =>
    cases ts with
    | nil => cases readings
    | cons t ts =>
      apply Prog.wp_seq _ (wp_apmacSighting_sighted answered clock)
      · intro _ v done
        obtain ⟨clock', does⟩ := done () rfl
        have next : P (⟨mac, 2, t, none⟩ :: log) v := keeps.step log ⟨mac, 2, t, none⟩ w v h does
        have rest := ih next (by simpa using readings) clock'
        simpa [messageRecords] using rest
      · exact fun e _ _ => not_ok_error e

theorem HeardRecords.keep (keeps : KeepsSights E cfg P) (answered : ¬E.lossy) {w0 : World} (start : P [] w0)
    {v : Linked} (run : HeardRecords E cfg w0 log v) : P log v.world := by
  induction run with
  | start => exact start
  | @add log v v' s t a _ sound runs ih =>
    have does := runs.post _ (wp_userAdd_sighted (t := t) answered sound rfl) a rfl
    exact keeps.step log (s.record t) _ _ (keeps.same log v.world (v.at [t]).world rfl ih) does
  | @apmac log v v' pid apUninit uninit msg ts _ sound readings runs ih =>
    have same : v'.err = v.err := runs.post _ (wp_taken taken_parseApmacMsg _)
    have whole := (Runs.unlinked runs (by rw [same, sound])).1
    apply whole.post (Q := fun x w' => ∀ a, x = .ok a →
      P (messageRecords (apmacMacs uninit msg) ts ++ log) w') _ _ () rfl
    intro ok u hinit
    obtain ⟨db, -, clock, -⟩ := exec_init hinit
    cases ok with
    | false => exact not_ok_error _
    | true =>
      intro shop u' hshop
      obtain rfl : u' = u := hshop
      exact keeps.apmacSightings answered (keeps.same log v.world _ db ih) readings clock
  | @unheard log v v' pid ts α p x _ dead runs ih =>
    exact keeps.same log v.world v'.world (Runs.unheard (v := v.at ts) dead runs).2 ih

/-! ## The sorted sets after a run -/

abbrev listKey (date : Stamp) (mall_id : Int32) : Key := .locationUpdateTime date mall_id.toInt

/-- The time of the last sighting of the date, on either path. -/
def lastOn (cfg : Config) (date : Stamp) (mall_id : Int32) (mac : UInt64) (log : List Record) :
    Option Int :=
  log.findSome? fun r =>
    if (dateOf cfg r.time.toInt = date ∧ r.mall_id = mall_id) ∧ r.mac = mac then
      some r.time.toInt
    else none

/-- A MAC as the backend keeps it in a set. -/
abbrev storedMac (E : Env) (mac : UInt64) : Text := CBaseMdb.storedWord E.type (Key.macText mac)

theorem storedMac_inj {mac mac' : UInt64} : storedMac E mac = storedMac E mac' ↔ mac = mac' := by
  rw [(CBaseMdb.storedWord_injective E.type).eq_iff, Key.macText_inj]

theorem after_sightOps_list {date : Stamp} {mall_id : Int32} {db : Db} :
    after E (sightOps cfg r) db (listKey date mall_id).text =
      if dateOf cfg r.time.toInt = date ∧ r.mall_id = mall_id then
        CBaseMdb.addScore (storedMac E r.mac) r.time.toInt (db (listKey date mall_id).text)
      else db (listKey date mall_id).text := by
  split
  · rename_i here
    obtain ⟨rfl, rfl⟩ := here
    obtain ⟨mac, mall_id, t, place⟩ := r
    have added (os : List StoreOp)
        (before : ∀ o ∈ os, o.key ≠ listKey (dateOf cfg t.toInt) mall_id) :
        after E (os ++ [.zadd (listKey (dateOf cfg t.toInt) mall_id) t (Key.macText mac)]) db
          (listKey (dateOf cfg t.toInt) mall_id).text = CBaseMdb.addScore (storedMac E mac) t.toInt
            (db (listKey (dateOf cfg t.toInt) mall_id).text) :=
      (after_at os (.zadd (listKey (dateOf cfg t.toInt) mall_id) t (Key.macText mac)) [] before
        (by simp) db).trans (CBaseMdb.zadd_word (isWord_digits _) _ _)
    cases place with
    | none => exact added [_] (by simp [StoreOp.key])
    | some p =>
      have parts : sightOps cfg ⟨mac, mall_id, t, some p⟩ =
          (placeOps mac p.x p.y p.z mall_id ++ [.set .time (.location mall_id.toInt mac .time) t]) ++
            [.zadd (listKey (dateOf cfg t.toInt) mall_id) t (Key.macText mac)] := by
        simp [sightOps, timeOps]
      rw [parts]
      apply added
      intro o ho e
      cases List.mem_append.mp ho with
      | inl ho =>
        obtain ⟨prop, -, key⟩ := key_placeOps ho
        rw [key] at e
        cases e
      | inr ho =>
        rw [List.mem_singleton.mp ho] at e
        cases e
  · rename_i elsewhere
    apply after_frame
    intro o ho e
    rcases key_sightOps ho with ⟨prop, key⟩ | key
    · rw [key] at e
      cases e
    · rw [key] at e
      obtain ⟨date', mall⟩ := Key.locationUpdateTime.inj e
      exact elsewhere ⟨date', Int32.toInt_inj.mp mall⟩

/-- The scores are the times of the last sightings, and nothing else is a member. -/
def Listed (E : Env) (cfg : Config) (log : List Record) (w : World) : Prop :=
  ∀ (date : Stamp) (mall_id : Int32), ∃ z, zsetAt (w.db (listKey date mall_id).text) = some z ∧
    (∀ mac, z.lookup (storedMac E mac) = (lastOn cfg date mall_id mac log).map Int.cast) ∧
    ∀ x ∈ z, ∃ mac, storedMac E mac = x

theorem keepsSights_listed : KeepsSights E cfg (Listed E cfg) where
  same log w v db h := by
    intro date mall_id
    rw [db]
    exact h date mall_id
  step log r w v h does := by
    intro date mall_id
    obtain ⟨z, hz, scores, members⟩ := h date mall_id
    rw [does.db (listKey date mall_id) not_false, after_sightOps_list]
    by_cases here : dateOf cfg r.time.toInt = date ∧ r.mall_id = mall_id
    · rw [if_pos here]
      refine ⟨z.insert (storedMac E r.mac) r.time.toInt, CBaseMdb.zsetAt_addScore hz, ?_, ?_⟩
      · intro mac
        rw [lastOn, List.findSome?_cons]
        by_cases mine : r.mac = mac
        · subst mine
          rw [if_pos ⟨here, rfl⟩, AList.lookup_insert]
          rfl
        · rw [if_neg fun e => mine e.2, AList.lookup_insert_ne, scores mac]
          · rfl
          · rw [Ne, storedMac_inj]
            exact Ne.symm mine
      · intro x hx
        rcases (AList.mem_insert z).mp hx with rfl | hx
        · exact ⟨r.mac, rfl⟩
        · exact members x hx
    · rw [if_neg here]
      refine ⟨z, hz, fun mac => ?_, members⟩
      rw [lastOn, List.findSome?_cons, if_neg fun e => here e.1, scores mac]
      rfl

theorem keepsSights_stored : KeepsSights E cfg (Stored E) where
  same _ _ _ db h := h.of_db db
  step _ _ _ _ h does := h.sighted does

end

/-! ## What the listings make of it -/

/-- The users by their numbers, which count from one. -/
def numbered (users : List ListedUser) : List (Text × ListedUser) :=
  users.zipIdx.map fun p => (decimal (Int32.ofNat (p.2 + 1)).toInt, p.1)

theorem foldl_listUser (type : TypeDb) (m : Machine) (db : Db) (mall_id : Int32) (ids : List Text)
    (users : List (Text × ListedUser)) (k : Nat) :
    ids.foldl (listUser type m db mall_id) ⟨users, Int32.ofNat k⟩ =
      ⟨users ++ ((ids.map (listedUser type m db mall_id)).zipIdx k).map fun p =>
        (decimal (Int32.ofNat (p.2 + 1)).toInt, p.1), Int32.ofNat (k + ids.length)⟩ := by
  induction ids generalizing users k with
  | nil => simp
  | cons id ids ih =>
    have next : Int32.ofNat k + 1 = Int32.ofNat (k + 1) := (Int32.ofNat_add k 1).symm
    rw [List.foldl_cons, listUser]
    simp only [next]
    rw [ih]
    simp [List.zipIdx_cons, Nat.add_assoc, Nat.add_comm 1]

theorem userArray_eq (m : Machine) {k : Nat} (le : k ≤ 50) (ids : List Text) :
    userArray m (Int32.ofNat k) ids =
      ((ids.take (50 - k)).map fun id => .number (sscanfLlu (m.uninit .ull) (cString id))) ++
        if 50 - k < ids.length then [.text "and more..".toList] else [] := by
  induction ids generalizing k with
  | nil => simp [userArray]
  | cons id ids ih =>
    have lt : Int32.ofNat k < 50 ↔ k < 50 := by
      have fifty : (50 : Int32).toInt = 50 := rfl
      rw [Int32.lt_iff_toInt_lt, Int32.toInt_ofNat_of_lt (by omega), fifty]
      omega
    have next : Int32.ofNat k + 1 = Int32.ofNat (k + 1) := (Int32.ofNat_add k 1).symm
    unfold userArray
    by_cases room : k < 50
    · rw [if_pos (lt.mpr room), next, ih (by omega)]
      obtain ⟨n, hn⟩ : ∃ n, 50 - k = n + 1 := ⟨49 - k, by omega⟩
      have rest : 50 - (k + 1) = n := by omega
      simp only [hn, rest, List.take_succ_cons, List.map_cons, List.cons_append, List.length_cons,
        Nat.add_lt_add_iff_right]
    · obtain rfl : k = 50 := by omega
      rw [if_neg (mt lt.mp room), Nat.sub_self, List.take_zero, List.map_nil, List.nil_append,
        List.length_cons, if_pos (Nat.succ_pos _)]

/-! ## Both listings -/

/-- The place that was given last, or a part of it. -/
def lastPlace {α : Type} (f : Place → Option α) (mall_id : Int32) (mac : UInt64)
    (log : List Record) : Option α :=
  log.findSome? fun r => if r.mall_id = mall_id ∧ r.mac = mac then r.place.bind f else none

/-- The level of a place, unless it is not known. -/
def Place.level (p : Place) : Option Int32 := if p.z ≠ INT_MIN then some p.z else none

section
variable {E : Env} {cfg : Config} {w : World} {log : List Record} {mall_id : Int32} {mac : UInt64}

theorem lastStored_eq_map {α : Type} {f : Place → Option α} {g : α → Val} {prop : LocationProp}
    (h : ∀ r : Record, r.stored E prop = (r.place.bind f).map g) :
    lastStored E mall_id mac prop log = (lastPlace f mall_id mac log).map g := by
  rw [lastStored, lastPlace, List.map_findSome?]
  congr 1
  funext r
  simp only [Function.comp_apply]
  split
  · exact h r
  · rfl

/-- What a stream reads of the double it has printed. -/
def reread (m : Machine) (q : Rat) : Rat :=
  Ty.extract m.doubles m.uninit .double (m.doubles.print q)

/-- What is read of a double that was stored. -/
def doubleBack (type : TypeDb) (m : Machine) (q : Rat) : Rat :=
  match type with
  | .redis => reread m q
  | .tair => m.doubles.ofBits (m.doubles.bits q)

theorem get_double {type : TypeDb} {m : Machine} {k : Key} {q d : Rat} {db : Db}
    (h : db k.text = some (CBaseMdb.encode type m .double q)) :
    CBaseMdb.get type m .double k.text d db = doubleBack type m q := by
  cases type with
  | redis =>
    have plain : cString (m.doubles.print q) = m.doubles.print q := (m.doubles.print_word q).cString
    simp only [CBaseMdb.encode, Ty.print] at h
    simp [CBaseMdb.get, RedisDb.get, serve, k.isWord_text.cString, h, plain, doubleBack, reread]
  | tair =>
    simp only [CBaseMdb.encode, Ty.bytes] at h
    simp [CBaseMdb.get, TairDb.get, h, Ty.getValue, ofRaw_rawBytes, doubleBack]

/-- The user as stored last; zero stands for what was never stored. -/
def userStored (m : Machine) (mall_id : Int32) (log : List Record) (mac : UInt64) : ListedUser where
  id := Key.macText mac
  x := (lastPlace (fun p => some p.x) mall_id mac log).elim 0 (reread m)
  y := (lastPlace (fun p => some p.y) mall_id mac log).elim 0 (reread m)
  z := (lastPlace Place.level mall_id mac log).getD 0

theorem Record.stored_x (r : Record) :
    r.stored E .x = (r.place.bind fun p => some p.x).map (CBaseMdb.encode E.type E.m .double) := by
  cases h : r.place <;> simp [Record.stored, h]

theorem Record.stored_y (r : Record) :
    r.stored E .y = (r.place.bind fun p => some p.y).map (CBaseMdb.encode E.type E.m .double) := by
  cases h : r.place <;> simp [Record.stored, h]

theorem Record.stored_z (r : Record) :
    r.stored E .z = (r.place.bind Place.level).map (CBaseMdb.encode E.type E.m .int) := by
  cases h : r.place with
  | none => simp [Record.stored, h]
  | some p =>
    simp only [Record.stored, h, Option.bind_some, Place.level]
    split <;> rfl

theorem getDouble_stored {f : Place → Option Rat} {prop : LocationProp} {db : Db}
    (stored : db (Key.location mall_id.toInt mac prop).text = lastStored E mall_id mac prop log)
    (h : ∀ r : Record, r.stored E prop = (r.place.bind f).map (CBaseMdb.encode E.type E.m .double)) :
    CBaseMdb.get E.type E.m .double (Key.location mall_id.toInt mac prop).text (0 : Rat) db =
      (lastPlace f mall_id mac log).elim 0 (doubleBack E.type E.m) := by
  rw [lastStored_eq_map h] at stored
  cases last : lastPlace f mall_id mac log with
  | none =>
    rw [last] at stored
    exact CBaseMdb.get_none stored
  | some q =>
    rw [last] at stored
    exact get_double stored

theorem getInt_stored {db : Db}
    (stored : db (Key.location mall_id.toInt mac .z).text = lastStored E mall_id mac .z log) :
    CBaseMdb.get E.type E.m .int (Key.location mall_id.toInt mac .z).text (0 : Int32) db =
      (lastPlace Place.level mall_id mac log).getD 0 := by
  rw [lastStored_eq_map Record.stored_z] at stored
  cases last : lastPlace Place.level mall_id mac log with
  | none =>
    rw [last] at stored
    exact CBaseMdb.get_none stored
  | some z =>
    rw [last] at stored
    exact CBaseMdb.get_encode rfl stored

theorem listedUser_stored (redis : E.type = .redis) (stored : Stored E log w) :
    listedUser E.type E.m w.db mall_id (Key.macText mac) = userStored E.m mall_id log mac := by
  have back : doubleBack E.type E.m = reread E.m := by
    rw [redis]
    rfl
  have x := getDouble_stored (stored mall_id mac .x) Record.stored_x
  have y := getDouble_stored (stored mall_id mac .y) Record.stored_y
  rw [back] at x y
  simp only [listedUser, userStored, (Key.isWord_macText mac).cString, ListedUser.mk.injEq, true_and]
  exact ⟨x, y, getInt_stored (stored mall_id mac .z)⟩

/-- The server's list as a list of MACs. -/
theorem exists_macs (listed : Listed E cfg log w) (date : Stamp) (mall_id : Int32) (lo hi : Int) :
    ∃ (z : AList fun _ : Text => Rat) (ms : List UInt64),
      zsetAt (w.db (listKey date mall_id).text) = some z ∧
      rangeByScore z lo hi = ms.map (storedMac E) ∧ ms.Nodup ∧
      (∀ mac, mac ∈ ms ↔ ∃ last ∈ lastOn cfg date mall_id mac log, lo ≤ last ∧ last ≤ hi) ∧
      ms.Pairwise fun a b => ∀ s ∈ lastOn cfg date mall_id a log,
        ∀ t ∈ lastOn cfg date mall_id b log, s ≤ t := by
  obtain ⟨z, hz, scores, members⟩ := listed date mall_id
  have macs : rangeByScore z lo hi ∈ Set.range (List.map (storedMac E)) := by
    rw [Set.range_list_map]
    intro x hx
    obtain ⟨s, score, -⟩ := mem_rangeByScore.mp hx
    exact members x (AList.lookup_isSome.mp (Option.isSome_iff_exists.mpr ⟨s, score⟩))
  obtain ⟨ms, hms⟩ := macs
  have injective : Function.Injective (storedMac E) := fun _ _ => storedMac_inj.mp
  refine ⟨z, ms, hz, hms.symm, ?_, fun mac => ?_, ?_⟩
  · have nodup := nodup_rangeByScore z (lo : Rat) hi
    rw [← hms] at nodup
    exact nodup.of_map
  · have listed : mac ∈ ms ↔ storedMac E mac ∈ rangeByScore z lo hi := by
      rw [← hms, List.mem_map_of_injective injective]
    rw [listed, mem_rangeByScore, scores mac]
    simp only [Option.mem_def, Option.map_eq_some_iff]
    constructor
    · rintro ⟨_, ⟨last, h, rfl⟩, ge, le⟩
      exact ⟨last, h, Int.cast_le.mp ge, Int.cast_le.mp le⟩
    · rintro ⟨last, h, ge, le⟩
      exact ⟨last, ⟨last, h, rfl⟩, Int.cast_le.mpr ge, Int.cast_le.mpr le⟩
  · have sorted := pairwise_rangeByScore z (lo : Rat) hi
    rw [← hms, List.pairwise_map] at sorted
    apply sorted.imp
    intro a b le s hs t ht
    apply Int.cast_le.mp (le s _ t _)
    · rw [scores a, hs]
      rfl
    · rw [scores b, ht]
      rfl

/-- A MAC that the server lists is read as it was written. -/
theorem extract_macText {d : Doubles} {uninit : (τ : Ty) → τ.Val} (mac : UInt64) :
    Ty.extract d uninit .string (cString (Key.macText mac)) = Key.macText mac := by
  rw [(Key.isWord_macText mac).cString, extract_eq_word]
  exact word_of_no_space fun c hc => isSpace_of_isDigit (isDigit_of_mem_digits hc)

theorem sscanfLlu_macText (tmp mac : UInt64) : sscanfLlu tmp (cString (Key.macText mac)) = mac := by
  have read := scanSigned_digits mac.toNat endsNumber_nil
  rw [List.append_nil] at read
  rw [(Key.isWord_macText mac).cString, sscanfLlu, Key.macText, read]
  exact clampUInt64_toNat mac

/-- What both listings get from the server. -/
theorem zrangebyscore_macs {date : Stamp} {m : Machine} {db : Db} {z : AList fun _ : Text => Rat}
    {ms : List UInt64} {lo hi : Int} (hlo : InLong lo) (hhi : InLong hi)
    (hz : zsetAt (db (listKey date mall_id).text) = some z)
    (macs : rangeByScore z lo hi = ms.map Key.macText) :
    CBaseMdb.zrangebyscore .redis m .string (listKey date mall_id).text lo hi db =
      ms.map Key.macText := by
  simp only [CBaseMdb.zrangebyscore, RedisDb.zrangebyscore, (Key.isWord_text _).cString, serve, hz,
    strictInt_decimal, RedisDb.members, m.longLong_intCast hlo, m.longLong_intCast hhi, macs,
    Option.getD_some, List.map_map]
  exact List.map_congr_left fun mac _ => extract_macText mac

/-- No user has been seen yet. -/
structure BeforeListings (w : World) : Prop where
  location : ∀ (mall_id : Int32) mac prop, w.db (Key.location mall_id.toInt mac prop).text = none
  list : ∀ date mall_id, w.db (listKey date mall_id).text = none

/-- Over a sound connection both listings report the MACs last heard of on the date within
the bounds, each once and in the order of these sightings; the short one stops at fifty. -/
theorem listings_complete (redis : E.type = .redis) (answered : ¬E.lossy) {w0 : World}
    (before : BeforeListings w0) {v : Linked} (run : HeardRecords E cfg w0 log v) {pid : Nat}
    (sound : v.err pid = false) (t_now : Int64) {start end_ : Int} (hstart : InLong start)
    (hend : InLong end_) (mall_id : Int32) :
    ∃ ms : List UInt64, ms.Nodup ∧
      (∀ mac, mac ∈ ms ↔ ∃ last ∈ lastOn cfg (dateOf cfg t_now.toInt) mall_id mac log,
        start ≤ last ∧ last ≤ end_) ∧
      (ms.Pairwise fun a b => ∀ s ∈ lastOn cfg (dateOf cfg t_now.toInt) mall_id a log,
        ∀ t ∈ lastOn cfg (dateOf cfg t_now.toInt) mall_id b log, s ≤ t) ∧
      userListAll E.type E.m cfg (v.reads pid) t_now start end_ mall_id =
        ⟨numbered (ms.map (userStored E.m mall_id log)), Int32.ofNat ms.length⟩ ∧
      userList E.type E.m cfg (v.reads pid) t_now start end_ mall_id 0 =
        ⟨(ms.take 50).map .number ++ if 50 < ms.length then [.text "and more..".toList] else [],
          UInt32.ofNat ms.length⟩ := by
  have stored : Stored E log v.world := run.keep keepsSights_stored answered before.location
  have listed : Listed E cfg log v.world := run.keep keepsSights_listed answered
    fun date mall_id => ⟨∅, by rw [before.list]; rfl, fun _ => rfl, by simp⟩
  obtain ⟨z, ms, hz, macs, nodup, complete, sorted⟩ :=
    exists_macs listed (dateOf cfg t_now.toInt) mall_id start end_
  have plain : storedMac E = Key.macText := by
    funext mac
    simp only [storedMac, CBaseMdb.storedWord, redis]
  rw [plain] at macs
  have values : CBaseMdb.zrangebyscore E.type E.m .string
      (Key.locationUpdateTime (getDateStr cfg.localtime t_now.toInt) mall_id.toInt).text start end_
      v.world.db = ms.map Key.macText := by
    rw [redis]
    exact zrangebyscore_macs hstart hend hz macs
  rw [Linked.reads_sound sound]
  refine ⟨ms, nodup, complete, sorted, ?_, ?_⟩
  · have users : (ms.map Key.macText).map (listedUser E.type E.m v.world.db mall_id) =
        ms.map (userStored E.m mall_id log) := by
      rw [List.map_map]
      exact List.map_congr_left fun mac _ => listedUser_stored redis stored
    have whole := foldl_listUser E.type E.m v.world.db mall_id (ms.map Key.macText) [] 0
    rw [users, List.length_map, Nat.zero_add, List.nil_append] at whole
    simp only [userListAll, values]
    exact whole
  · have numbers : (fun id => UserItem.number (sscanfLlu (E.m.uninit .ull) (cString id))) ∘
        Key.macText = UserItem.number := by
      funext mac
      exact congrArg UserItem.number (sscanfLlu_macText _ mac)
    have array := userArray_eq E.m (Nat.zero_le 50) (ms.map Key.macText)
    rw [List.length_map, Nat.sub_zero, ← List.map_take, List.map_map, numbers] at array
    have mall : ¬(0 : Int32) < 0 := by decide
    simp only [userList, if_neg mall, values, List.length_map]
    exact congrArg (fun users => UserList.mk users (UInt32.ofNat ms.length)) array

end

/-! ## Runs to compute with -/

def nobody : World := World.fresh (fun _ => none) []

theorem beforeListings_nobody : BeforeListings nobody := ⟨fun _ _ _ => rfl, fun _ _ => rfl⟩

/-- The MAC 5 is seen, then 6, and 5 again. -/
def threeSightings : List Record :=
  [(sightingOf 5).record 500, (sightingOf 6).record 400, (sightingOf 5).record 300]

/-- The user seen twice is listed once, after the other. -/
theorem listings_complete_two : ∃ v : Linked, HeardRecords (plainEnv .redis) firstDay nobody threeSightings v ∧
    userList .redis Machine.plain firstDay (v.reads 0) 1000 350 86399 2 0 =
      ⟨[.number 6, .number 5], 2⟩ := by
  have runs : ((callLinked (plainEnv .redis) (.sound nobody) (sightingOf 5) 300).bind fun r =>
      (callLinked (plainEnv .redis) r.2 (sightingOf 6) 400).bind fun s =>
        (callLinked (plainEnv .redis) s.2 (sightingOf 5) 500).map fun u =>
          ([r.1, s.1, u.1], r.2.err 0, s.2.err 0, u.2.err 0)) =
      some ([.ok 0, .ok 0, .ok 0], false, false, false) := by decide +kernel
  obtain ⟨⟨x, v1⟩, first, rest⟩ := Option.bind_eq_some_iff.mp runs
  obtain ⟨⟨y, v2⟩, second, rest⟩ := Option.bind_eq_some_iff.mp rest
  obtain ⟨⟨z, v3⟩, third, ends⟩ := Option.map_eq_some_iff.mp rest
  simp only [Prod.mk.injEq, List.cons.injEq, and_true] at ends
  obtain ⟨⟨rfl, rfl, rfl⟩, sound1, sound2, sound3⟩ := ends
  have run := ((HeardRecords.start.add (s := sightingOf 5) rfl (linkedCall_of_callLinked rfl rfl first)).add
    (s := sightingOf 6) sound1 (linkedCall_of_callLinked rfl rfl second)).add (s := sightingOf 5)
      sound2 (linkedCall_of_callLinked rfl rfl third)
  have lower : InLong 350 := by decide
  have upper : InLong 86399 := by decide
  obtain ⟨ms, nodup, complete, sorted, -, short⟩ := listings_complete (E := plainEnv .redis) rfl
    not_false beforeListings_nobody run sound3 1000 lower upper 2
  have five : lastOn firstDay (dateOf firstDay 1000) 2 5 threeSightings = some 500 := by
    decide +kernel
  have six : lastOn firstDay (dateOf firstDay 1000) 2 6 threeSightings = some 400 := by
    decide +kernel
  have only (mac : UInt64) : mac ∈ ms ↔ mac ∈ [(6 : UInt64), 5] := by
    rw [complete mac]
    by_cases isFive : mac = 5
    · subst isFive
      change (∃ last ∈ lastOn firstDay (dateOf firstDay 1000) 2 5 threeSightings, _) ↔ _
      rw [five]
      simp
    · by_cases isSix : mac = 6
      · subst isSix
        change (∃ last ∈ lastOn firstDay (dateOf firstDay 1000) 2 6 threeSightings, _) ↔ _
        rw [six]
        simp
      · simp [lastOn, Sighting.record, sightingOf, isFive, isSix, Ne.symm isFive, Ne.symm isSix]
  have both : ms.Perm [6, 5] := (List.perm_ext_iff_of_nodup nodup (by decide)).mpr only
  obtain ⟨a, b, rfl⟩ := List.length_eq_two.mp both.length_eq
  have order : a = 6 ∧ b = 5 := by
    have ha : a = 6 ∨ a = 5 := by simpa using (only a).mp (by simp)
    have hb : b = 6 ∨ b = 5 := by simpa using (only b).mp (by simp)
    have ne : a ≠ b := by simpa using nodup
    have le := (List.pairwise_cons.mp sorted).1 b (by simp)
    rcases ha with rfl | rfl <;> rcases hb with rfl | rfl
    · exact absurd rfl ne
    · exact ⟨rfl, rfl⟩
    · exact absurd (le 500 five 400 six) (by decide)
    · exact absurd rfl ne
  obtain ⟨rfl, rfl⟩ := order
  exact ⟨v3, run, short⟩

/-- The reading 21285 puts the connection of process 0 in error. The call for MAC 6 that it
makes next returns like any other, but 6 is on no list. -/
theorem listings_miss_unheard : ∃ v v' : Linked,
    LinkedCall (plainEnv .redis) firstDay (.sound nobody) (sightingOf 5) 21285 (.ok 0) v ∧
    LinkedCall (plainEnv .redis) firstDay v (sightingOf 6) 21300 (.ok 0) v' ∧ v'.err 1 = false ∧
    (userListAll .redis Machine.plain firstDay (v'.reads 1) 21400 0 86399 2).size = 1 ∧
    userList .redis Machine.plain firstDay (v'.reads 1) 21400 0 86399 2 0 = ⟨[.number 5], 1⟩ := by
  have runs : ((callLinked (plainEnv .redis) (.sound nobody) (sightingOf 5) 21285).bind fun r =>
      (callLinked (plainEnv .redis) r.2 (sightingOf 6) 21300).map fun s => ([r.1, s.1], s.2.err 1,
        (userListAll .redis Machine.plain firstDay (s.2.reads 1) 21400 0 86399 2).size,
        userList .redis Machine.plain firstDay (s.2.reads 1) 21400 0 86399 2 0)) =
      some ([.ok 0, .ok 0], false, 1, ⟨[.number 5], 1⟩) := by decide +kernel
  obtain ⟨⟨x, v1⟩, first, rest⟩ := Option.bind_eq_some_iff.mp runs
  obtain ⟨⟨y, v2⟩, second, ends⟩ := Option.map_eq_some_iff.mp rest
  simp only [Prod.mk.injEq, List.cons.injEq, and_true] at ends
  obtain ⟨⟨rfl, rfl⟩, sound, size, short⟩ := ends
  exact ⟨v1, v2, linkedCall_of_callLinked rfl rfl first, linkedCall_of_callLinked rfl rfl second,
    sound, size, short⟩

/-- The bound 10¹⁹ becomes the least `long long`, and nobody is listed. -/
theorem listings_lose_bound : ∃ v : Linked,
    LinkedCall (plainEnv .redis) firstDay (.sound nobody) (sightingOf 5) 300 (.ok 0) v ∧
    userList .redis Machine.plain firstDay (v.reads 0) 400 0 (10 ^ 19) 2 0 = ⟨[], 0⟩ := by
  have runs : ((callLinked (plainEnv .redis) (.sound nobody) (sightingOf 5) 300).map fun r => (r.1,
        userList .redis Machine.plain firstDay (r.2.reads 0) 400 0 (10 ^ 19) 2 0)) =
      some (.ok 0, ⟨[], 0⟩) := by decide +kernel
  obtain ⟨⟨x, v⟩, first, ends⟩ := Option.map_eq_some_iff.mp runs
  simp only [Prod.mk.injEq] at ends
  obtain ⟨rfl, short⟩ := ends
  exact ⟨v, linkedCall_of_callLinked rfl rfl first, short⟩

end UserMap

end SimpleDsp
