import SimpleDsp.Receivers.Records
import SimpleDsp.Receivers.ShopDurations

/-!
# Stay times are bounded by the time elapsed

The time a user has stayed in a mall on a date grows by what lies between two
sightings, at most `max_duration_gap`.

* `allowed`: what the calls of `user_add` on a date allow for;
* `StayInv`: the counters keep to it;
* `stay_within_elapsed_time`: over any run, with a clock that does not go back.
-/

namespace SimpleDsp

open DecimalText Programs

namespace UserMap

section
variable {E : Env} {cfg : Config} {w v : World} {log log' : List Record} {r : Record}

/-- The clock does not go back, and its readings fit an `int`. -/
structure Clocked (log : List Record) : Prop where
  rising : log.Pairwise fun r earlier => earlier.time.toInt ≤ r.time.toInt
  range : ∀ r ∈ log, 0 ≤ r.time.toInt ∧ r.time.toInt < 2 ^ 31

theorem Clocked.tail (h : Clocked (r :: log)) : Clocked log where
  rising := (List.pairwise_cons.mp h.rising).2
  range r' hr' := h.range r' (List.mem_cons_of_mem _ hr')

theorem Clocked.later (h : Clocked (r :: log)) {r' : Record} (hr' : r' ∈ log) :
    r'.time.toInt ≤ r.time.toInt :=
  (List.pairwise_cons.mp h.rising).1 r' hr'

/-! ## The time before a sighting -/

def Record.Of (mall_id : Int32) (mac : UInt64) (r : Record) : Prop :=
  r.mall_id = mall_id ∧ r.mac = mac

theorem lastStored_time (E : Env) (mall_id : Int32) (mac : UInt64) (clocked : Clocked log) :
    lastStored E mall_id mac .time log = none ∧ (∀ r ∈ log, ¬r.Of mall_id mac) ∨
      ∃ last ∈ log, lastStored E mall_id mac .time log =
          some (CBaseMdb.encode E.type E.m .time last.time) ∧
        ∀ r ∈ log, r.Of mall_id mac → r.time.toInt ≤ last.time.toInt := by
  induction log with
  | nil => exact Or.inl ⟨rfl, by simp⟩
  | cons r log ih =>
    rw [lastStored, List.findSome?_cons]
    by_cases mine : r.mall_id = mall_id ∧ r.mac = mac
    · rw [if_pos mine]
      refine Or.inr ⟨r, List.mem_cons_self .., rfl, ?_⟩
      intro r' hr' _
      rcases List.mem_cons.mp hr' with rfl | hr'
      · exact le_refl _
      · exact clocked.later hr'
    · rw [if_neg mine]
      rcases ih clocked.tail with ⟨none, never⟩ | ⟨last, hlast, stored, latest⟩
      · refine Or.inl ⟨none, ?_⟩
        intro r' hr'
        rcases List.mem_cons.mp hr' with rfl | hr'
        · exact mine
        · exact never r' hr'
      · refine Or.inr ⟨last, List.mem_cons_of_mem _ hlast, stored, ?_⟩
        intro r' hr' mine'
        rcases List.mem_cons.mp hr' with rfl | hr'
        · exact absurd mine' mine
        · exact latest r' hr' mine'

/-- The stored time lies between the sightings before and the one to come. -/
theorem timeBefore_bounds (stored : Stored E log w) (clocked : Clocked (r :: log)) :
    (0 ≤ (timeBefore E r w.db).toInt ∧ (timeBefore E r w.db).toInt ≤ r.time.toInt) ∧
      ∀ r' ∈ log, r'.Of r.mall_id r.mac → r'.time.toInt ≤ (timeBefore E r w.db).toInt := by
  have here := stored r.mall_id r.mac .time
  rcases lastStored_time E r.mall_id r.mac clocked.tail with
    ⟨none, never⟩ | ⟨last, hlast, some, latest⟩
  · rw [none] at here
    have zero : timeBefore E r w.db = (0 : Int64) := CBaseMdb.get_none here
    rw [zero]
    exact ⟨⟨le_refl _, (clocked.range r (List.mem_cons_self ..)).1⟩,
      fun r' hr' mine => absurd mine (never r' hr')⟩
  · rw [some] at here
    have same : timeBefore E r w.db = last.time := CBaseMdb.get_encode rfl here
    rw [same]
    exact ⟨⟨(clocked.tail.range last hlast).1, clocked.later hlast⟩, latest⟩

theorem durationDelta_bounds {prev t : Int64} (gap : 0 ≤ cfg.max_duration_gap)
    (rising : prev.toInt ≤ t.toInt) (fits : t.toInt - prev.toInt < 2 ^ 31) :
    0 ≤ (durationDelta cfg prev t).toInt ∧
      (durationDelta cfg prev t).toInt ≤ cfg.max_duration_gap.toInt ∧
      (durationDelta cfg prev t).toInt ≤ t.toInt - prev.toInt := by
  have value : (Int32.ofInt (t.toInt - prev.toInt)).toInt = t.toInt - prev.toInt :=
    Int32.toInt_ofInt_of_le (by omega) fits
  have gap' : 0 ≤ cfg.max_duration_gap.toInt := Int32.le_iff_toInt_le.mp gap
  simp only [durationDelta]
  split
  · rename_i long
    rw [Int32.lt_iff_toInt_lt, value] at long
    omega
  · rename_i short
    rw [Int32.lt_iff_toInt_lt, value] at short
    omega

/-! ## What a sighting adds -/

/-- An increment counts, unless the counter has no room or is none. -/
theorem stay_run_incr (k : Key) (n : Int32) (db : Db) :
    stay ((StoreOp.incr k n).run E.type E.m db).2 k = stay db k ∨
      stay ((StoreOp.incr k n).run E.type E.m db).2 k = stay db k + n.toInt := by
  have counted {c : Int} (h : counterAt (db k.text) = some c) :
      stay (db.put k.text (.str (decimal (c + n.toInt)))) k = stay db k + n.toInt := by
    rw [stay, stay, Db.put_self, CBaseMdb.counterAt_decimal, h]
    rfl
  simp only [StoreOp.run, CBaseMdb.incr]
  cases E.type with
  | redis =>
    simp only [RedisDb.incr, k.isWord_text.cString]
    cases h : counterAt (db k.text) with
    | none => exact Or.inl (by simp only [serve, h])
    | some c =>
      by_cases fits : InLong c ∧ InLong (c + n.toInt)
      · rw [serve_incrby h (strictInt_decimal _) fits]
        exact Or.inr (counted h)
      · rw [serve_incrby_overflow h (strictInt_decimal _) fits]
        exact Or.inl rfl
  | tair =>
    simp only [TairDb.incr]
    cases h : counterAt (db k.text) with
    | none => exact Or.inl rfl
    | some c =>
      simp only
      split
      · exact Or.inr (counted h)
      · exact Or.inl rfl

abbrev durationKey (date : Stamp) (mall_id i : Int32) : Key :=
  .userDuration date mall_id.toInt i.toInt

/-- Only `user_add` counts, and for its own user, mall and date. -/
theorem stay_leaves {i : Int32} (leaves : Leaves E cfg r i w v) (date : Stamp) (mall_id j : Int32) :
    stay v.db (durationKey date mall_id j) = stay w.db (durationKey date mall_id j) ∨
      (r.place.isSome = true ∧ dateOf cfg r.time.toInt = date ∧ r.mall_id = mall_id ∧ i = j) ∧
        stay v.db (durationKey date mall_id j) = stay w.db (durationKey date mall_id j) +
          (durationDelta cfg (timeBefore E r w.db) r.time).toInt := by
  have behind := leaves.db (durationKey date mall_id j) (by simp [Aside]) (by simp [IsIdKey])
  by_cases counts : r.place.isSome = true ∧ dateOf cfg r.time.toInt = date ∧ r.mall_id = mall_id ∧ i = j
  · obtain ⟨given, rfl, rfl, rfl⟩ := counts
    obtain ⟨p, place⟩ := Option.isSome_iff_exists.mp given
    have ops : recordOps cfg r i (timeBefore E r w.db) =
        addOps cfg r.mac p.x p.y p.z r.mall_id i (timeBefore E r w.db) r.time := by
      rw [recordOps, place]
    have before : ∀ o ∈ placeOps r.mac p.x p.y p.z r.mall_id ++ timeOps cfg r.mac r.mall_id r.time,
        o.key ≠ durationKey (dateOf cfg r.time.toInt) r.mall_id i := by
      intro o ho e
      cases List.mem_append.mp ho with
      | inl ho =>
        obtain ⟨prop, -, key⟩ := key_placeOps ho
        rw [key] at e
        cases e
      | inr ho =>
        simp only [timeOps, List.mem_cons, List.not_mem_nil, or_false] at ho
        obtain rfl | rfl := ho <;> cases e
    have only := after_at (E := E) _ (.incr (durationKey (dateOf cfg r.time.toInt) r.mall_id i)
      (durationDelta cfg (timeBefore E r w.db) r.time)) [] before (by simp) w.db
    rw [ops] at behind
    have value : stay v.db (durationKey (dateOf cfg r.time.toInt) r.mall_id i) =
        stay ((StoreOp.incr (durationKey (dateOf cfg r.time.toInt) r.mall_id i)
          (durationDelta cfg (timeBefore E r w.db) r.time)).run E.type E.m w.db).2
          (durationKey (dateOf cfg r.time.toInt) r.mall_id i) := by
      rw [stay, stay, behind]
      exact congrArg (fun x => (counterAt x).getD 0) only
    rw [value]
    exact (stay_run_incr _ _ w.db).imp_right fun counted => ⟨⟨given, rfl, rfl, rfl⟩, counted⟩
  · left
    rw [stay, stay, behind, after_frame]
    intro o ho e
    rcases key_recordOps ho with ⟨prop, key⟩ | key | ⟨given, key⟩
    · rw [key] at e
      cases e
    · rw [key] at e
      cases e
    · rw [key] at e
      obtain ⟨date', mall, user⟩ := Key.userDuration.inj e
      exact counts ⟨given, date', Int32.toInt_inj.mp mall, Int32.toInt_inj.mp user⟩

/-! ## What a date allows for -/

/-- A call of `user_add` for the user, in the mall and on the date. -/
def Record.AddOn (cfg : Config) (date : Stamp) (mall_id : Int32) (mac : UInt64) (r : Record) :
    Prop :=
  (r.place.isSome = true ∧ dateOf cfg r.time.toInt = date ∧ r.mall_id = mall_id) ∧ r.mac = mac

instance (cfg : Config) (date : Stamp) (mall_id : Int32) (mac : UInt64) :
    DecidablePred (Record.AddOn cfg date mall_id mac) :=
  fun _ => inferInstanceAs (Decidable ((_ ∧ _ ∧ _) ∧ _))

/-- The times of these calls, the latest first. -/
def addTimes (cfg : Config) (date : Stamp) (mall_id : Int32) (mac : UInt64) (log : List Record) :
    List Int :=
  (log.filter fun r => decide (r.AddOn cfg date mall_id mac)).map fun r => r.time.toInt

/-- From the first call to the last, and one gap. -/
def allowed (gap : Int) : List Int → Int
  | [] => 0
  | last :: earlier => last - earlier.getLastD last + gap

theorem allowed_nonneg {gap : Int} (nonneg : 0 ≤ gap) {ts : List Int}
    (falling : ts.Pairwise fun t earlier => earlier ≤ t) : 0 ≤ allowed gap ts := by
  cases ts with
  | nil => exact le_refl _
  | cons last earlier =>
    have first : earlier.getLastD last ≤ last := by
      cases earlier with
      | nil => exact le_refl _
      | cons t ts =>
        rw [List.getLastD_cons]
        exact (List.pairwise_cons.mp falling).1 _ (List.getLastD_mem_cons ..)
    simp only [allowed]
    omega

/-- Another call allows for the time since the last one; the first for one gap. -/
theorem le_allowed_cons {gap stay delta t : Int} {ts : List Int} (bound : stay ≤ allowed gap ts)
    (one : delta ≤ gap) (since : ∀ last ∈ ts.head?, delta ≤ t - last) :
    stay + delta ≤ allowed gap (t :: ts) := by
  cases ts with
  | nil =>
    simp only [allowed, List.getLastD_nil] at bound ⊢
    omega
  | cons last earlier =>
    have step := since last rfl
    simp only [allowed, List.getLastD_cons] at bound ⊢
    omega

theorem falling_addTimes (clocked : Clocked log) (date : Stamp) (mall_id : Int32) (mac : UInt64) :
    (addTimes cfg date mall_id mac log).Pairwise fun t earlier => earlier ≤ t := by
  rw [addTimes, List.pairwise_map]
  exact clocked.rising.filter _

/-- What the counters keep to: those of users without an id stand at zero. -/
structure StayInv (E : Env) (cfg : Config) (log : List Record) (w : World) : Prop where
  stored : Stored E log w
  strangers : ∀ date mall_id (i : Int32), (∀ mac, w.users mac ≠ some i.toInt) →
    stay w.db (durationKey date mall_id i) ≤ 0
  bound : ∀ date mall_id mac (i : Int32), w.users mac = some i.toInt →
    stay w.db (durationKey date mall_id i) ≤
      allowed cfg.max_duration_gap.toInt (addTimes cfg date mall_id mac log)

/-- Before a sighting, with the ids that PG has given by its end. -/
theorem StayInv.before (inv : StayInv E cfg log w) (gap : 0 ≤ cfg.max_duration_gap)
    (clocked : Clocked log) (grows : w.users.Grows v.users) (valid : v.users.Valid)
    (date : Stamp) (mall_id : Int32) {mac : UInt64} {i : Int32} (row : v.users mac = some i.toInt) :
    stay w.db (durationKey date mall_id i) ≤
      allowed cfg.max_duration_gap.toInt (addTimes cfg date mall_id mac log) := by
  by_cases known : w.users mac = some i.toInt
  · exact inv.bound date mall_id mac i known
  · refine le_trans (inv.strangers date mall_id i ?_)
      (allowed_nonneg (Int32.le_iff_toInt_le.mp gap) (falling_addTimes clocked date mall_id mac))
    intro mac' row'
    obtain rfl := valid.distinct _ _ _ (grows _ _ row') row
    exact known row'

theorem mem_addTimes {date : Stamp} {mall_id : Int32} {mac : UInt64} {t : Int}
    (h : t ∈ addTimes cfg date mall_id mac log) :
    ∃ r ∈ log, r.AddOn cfg date mall_id mac ∧ r.time.toInt = t := by
  obtain ⟨r, hr, rfl⟩ := List.mem_map.mp h
  obtain ⟨mem, adds⟩ := List.mem_filter.mp hr
  exact ⟨r, mem, of_decide_eq_true adds, rfl⟩

theorem addTimes_cons (date : Stamp) (mall_id : Int32) (mac : UInt64) :
    addTimes cfg date mall_id mac (r :: log) =
      if r.AddOn cfg date mall_id mac then r.time.toInt :: addTimes cfg date mall_id mac log
      else addTimes cfg date mall_id mac log := by
  rw [addTimes, List.filter_cons]
  by_cases adds : r.AddOn cfg date mall_id mac <;> simp [adds, addTimes]

theorem StayInv.leaves {i : Int32} (inv : StayInv E cfg log w) (gap : 0 ≤ cfg.max_duration_gap)
    (clocked : Clocked (r :: log)) (leaves : Leaves E cfg r i w v) :
    StayInv E cfg (r :: log) v where
  stored := inv.stored.sighted leaves.sighted
  strangers date mall_id j none := by
    rcases stay_leaves leaves date mall_id j with same | ⟨⟨-, -, -, mine⟩, -⟩
    · rw [same]
      exact inv.strangers date mall_id j fun mac row => none mac (leaves.grows _ _ row)
    · subst mine
      exact absurd leaves.row (none r.mac)
  bound date mall_id mac j row := by
    have before := inv.before gap clocked.tail leaves.grows leaves.agrees.valid date mall_id row
    have gap' := Int32.le_iff_toInt_le.mp gap
    obtain ⟨⟨early, rising⟩, since⟩ := timeBefore_bounds inv.stored clocked
    have fits := (clocked.range r (List.mem_cons_self ..)).2
    have delta := durationDelta_bounds gap rising (by omega)
    -- An increment that fails counts as one by zero.
    have adds (n : Int) (hn : stay v.db (durationKey date mall_id j) =
        stay w.db (durationKey date mall_id j) + n) (le_gap : n ≤ cfg.max_duration_gap.toInt)
        (le_since : n ≤ r.time.toInt - (timeBefore E r w.db).toInt)
        (on : r.AddOn cfg date mall_id mac) : stay v.db (durationKey date mall_id j) ≤
          allowed cfg.max_duration_gap.toInt (addTimes cfg date mall_id mac (r :: log)) := by
      rw [addTimes_cons, if_pos on, hn]
      apply le_allowed_cons before le_gap
      intro last hlast
      obtain ⟨r', hr', on', rfl⟩ := mem_addTimes (List.mem_of_mem_head? hlast)
      have le := since r' hr' ⟨on'.1.2.2.trans on.1.2.2.symm, on'.2.trans on.2.symm⟩
      omega
    rcases stay_leaves leaves date mall_id j with same | ⟨⟨given, date', mall, mine⟩, counted⟩
    · by_cases on : r.AddOn cfg date mall_id mac
      · exact adds 0 (by omega) (by omega) (by omega) on
      · rw [addTimes_cons, if_neg on, same]
        exact before
    · subst mine
      have mac' := leaves.agrees.valid.distinct _ _ _ leaves.row row
      exact adds _ counted delta.2.1 delta.2.2 ⟨⟨given, date', mall⟩, mac'⟩

theorem stay_le_leaves {i : Int32} (stored : Stored E log w) (gap : 0 ≤ cfg.max_duration_gap)
    (clocked : Clocked (r :: log)) (leaves : Leaves E cfg r i w v) (date : Stamp)
    (mall_id j : Int32) :
    stay w.db (durationKey date mall_id j) ≤ stay v.db (durationKey date mall_id j) := by
  obtain ⟨⟨early, rising⟩, -⟩ := timeBefore_bounds stored clocked
  have fits := (clocked.range r (List.mem_cons_self ..)).2
  have delta := durationDelta_bounds gap rising (by omega)
  rcases stay_leaves leaves date mall_id j with same | ⟨-, counted⟩ <;> omega

/-! ## Runs -/

/-- The invariant after `log` and then more, and no counter has gone back since `log`. -/
theorem kept_stays (gap : 0 ≤ cfg.max_duration_gap) (log : List Record) (w : World) :
    Kept E cfg fun log' w' => Clocked (log' ++ log) → StayInv E cfg (log' ++ log) w' ∧
      ∀ date mall_id i,
        stay w.db (durationKey date mall_id i) ≤ stay w'.db (durationKey date mall_id i) where
  same log' v v' db users h clocked := by
    obtain ⟨inv, le⟩ := h clocked
    refine ⟨⟨inv.stored.of_db db, ?_, ?_⟩, ?_⟩
    · rw [db, users]
      exact inv.strangers
    · rw [db, users]
      exact inv.bound
    · rw [db]
      exact le
  step log' r i v v' h agrees leaves clocked := by
    obtain ⟨inv, le⟩ := h clocked.tail
    refine ⟨inv.leaves gap clocked leaves, fun date mall_id j => ?_⟩
    exact le_trans (le date mall_id j) (stay_le_leaves inv.stored gap clocked leaves date mall_id j)

/-- No user has been seen yet, and the ids that are cached agree with PG. -/
structure BeforeStays (E : Env) (w : World) : Prop where
  agrees : Agrees E w
  location : ∀ (mall_id : Int32) mac prop, w.db (Key.location mall_id.toInt mac prop).text = none
  duration : ∀ date mall_id i, w.db (durationKey date mall_id i).text = none

theorem StayInv.start {w0 : World} (before : BeforeStays E w0) : StayInv E cfg [] w0 where
  stored := before.location
  strangers date mall_id i _ := by
    rw [stay, before.duration]
    exact le_refl _
  bound date mall_id mac i _ := by
    rw [stay, before.duration]
    exact le_refl _

/-- A user's counter for a date never goes back, and it stays below the time from the
first call of `user_add` on the date to the last and one gap. -/
theorem stay_within_elapsed_time (pg : E.pg.KeepsUsers) (answers : E.pg.Answers)
    (answered : ¬E.lossy) (gap : 0 ≤ cfg.max_duration_gap) {w0 w' : World}
    (before : BeforeStays E w0) (run : Records E cfg w0 log w) (more : Records E cfg w log' w')
    (clocked : Clocked (log' ++ log)) (date : Stamp) (mall_id : Int32) (mac : UInt64) :
    (∀ i, stay w.db (durationKey date mall_id i) ≤ stay w'.db (durationKey date mall_id i)) ∧
      ∀ i : Int32, w.users mac = some i.toInt →
        ∀ first ∈ (addTimes cfg date mall_id mac log).getLast?,
        ∀ last ∈ (addTimes cfg date mall_id mac log).head?,
          stay w.db (durationKey date mall_id i) ≤
            last - first + cfg.max_duration_gap.toInt := by
  have clocked' : Clocked (log ++ []) := by
    rw [List.append_nil]
    exact ⟨(List.pairwise_append.mp clocked.rising).2.1,
      fun r hr => clocked.range r (List.mem_append_right _ hr)⟩
  obtain ⟨reached, agrees⟩ := run.keep (kept_stays gap [] w0) pg answers answered before.agrees
    fun _ => ⟨.start before, fun _ _ _ => le_refl _⟩
  have inv : StayInv E cfg log w := by simpa only [List.append_nil] using (reached clocked').1
  obtain ⟨onward, -⟩ := more.keep (kept_stays gap log w) pg answers answered agrees
    fun _ => ⟨inv, fun _ _ _ => le_refl _⟩
  refine ⟨(onward clocked).2 date mall_id, ?_⟩
  intro i row first hfirst last hlast
  have bound := inv.bound date mall_id mac i row
  cases times : addTimes cfg date mall_id mac log with
  | nil =>
    rw [times] at hlast
    cases hlast
  | cons t ts =>
    rw [times] at bound hfirst hlast
    obtain rfl : t = last := Option.some.inj hlast
    rw [List.getLast?_cons] at hfirst
    obtain rfl : ts.getLastD t = first := by simpa [List.getLastD_eq_getLast?] using hfirst
    exact bound

end

/-! ## A run to compute with -/

theorem beforeStays_fresh : BeforeStays fullEnv (World.fresh oneUser []) where
  agrees := Agrees.start (World.fresh_is_fresh _ _) oneUser_valid
  location _ _ _ := rfl
  duration _ _ _ := rfl

/-- Two calls and then a message. -/
theorem stay_within_elapsed_time_two_calls : ∃ w w' : World,
    stay w.db (durationKey (dateOf everyone 0) 2 7) ≤ stay w'.db (durationKey (dateOf everyone 0) 2 7) ∧
      stay w.db (durationKey (dateOf everyone 0) 2 7) ≤ 400 - 300 + 120 := by
  have runs : (addAt 300 (World.fresh oneUser [])).bind (fun r => (addAt 400 r.2).bind fun s =>
      (messageAt 1000 s.2).map fun u => (r.1, s.1, u.1, s.2.users 5)) =
      some (.ok 0, .ok 0, .ok (), some 7) := by decide +kernel
  obtain ⟨⟨x, w1⟩, first, rest⟩ := Option.bind_eq_some_iff.mp runs
  obtain ⟨⟨y, w2⟩, second, rest⟩ := Option.bind_eq_some_iff.mp rest
  obtain ⟨⟨z, w3⟩, third, ends⟩ := Option.map_eq_some_iff.mp rest
  simp only [Prod.mk.injEq] at ends
  obtain ⟨rfl, rfl, rfl, row⟩ := ends
  have run := (Records.start.addAt first).addAt second
  have more := Records.start.messageAt third
  have clocked : Clocked ([⟨5, 2, 1000, none⟩] ++
      [(sightingOf 5).record 400, (sightingOf 5).record 300]) := ⟨by decide, by decide⟩
  have gap : (0 : Int32) ≤ everyone.max_duration_gap := by decide
  obtain ⟨le, bound⟩ := stay_within_elapsed_time fullTable_keepsUsers fullTable_answers not_false gap
    beforeStays_fresh run more clocked (dateOf everyone 0) 2 5
  exact ⟨w2, w3, le 7, bound 7 row 300 (by decide +kernel) 400 (by decide +kernel)⟩

end UserMap

end SimpleDsp
