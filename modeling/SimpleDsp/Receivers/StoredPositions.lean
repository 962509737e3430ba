import SimpleDsp.Receivers.UserOp

/-!
# Positions read back

Redis keeps a coordinate as the text that a stream prints of it, with six
significant digits, and `user_query` makes a float of what it reads. Over a
connection in error nothing is kept and nothing is read.

* `placeIn_added`: what `user_add` leaves to be read;
* `keepsPlaces_samePlace`: what is done for other users leaves it alone;
* `position_read_back_iff`.
-/

namespace SimpleDsp

open DecimalText Programs RealText Rounding

namespace UserMap

open AdMap (GeoInfo)

section
variable {E : Env} {cfg : Config} {F : Floats} {mac : UInt64} {mall_id z : Int32} {x y : Int}
  {w v : World}

/-! ## Coordinates -/

/-- Text and back through a double and a float: a whole number comes back as it was printed. -/
theorem coordinate_read (d : E.m.doubles.IsBinary64) (f : F.IsBinary32) (small : |x| ≤ 2 ^ 24) :
    F.ofDouble (doubleBack .redis E.m x) = rounded 10 6 (x : Rat) := by
  obtain ⟨k, printed, few⟩ := rounded_whole small
  have text : scanReal (general 6 (x : Rat)) = some ((k : Rat), []) := by
    rw [← printed]
    exact scanReal_general_self 5 x
  have double : binary64.nearest k = k :=
    BinaryFormat.nearest_intCast (few.trans (by decide)) (by decide)
  have float : binary32.nearest k = k := BinaryFormat.nearest_intCast few (by decide)
  have bounded : |(k : Rat)| ≤ 2 ^ 24 := by exact_mod_cast few.le
  have read : doubleBack .redis E.m x = k := by
    have inside : |(k : Rat)| ≤ binary64.greatest := le_trans bounded (by decide +kernel)
    simp only [doubleBack, reread, d.print, Ty.extract, if_neg (skipSpace_ne_nil text), Ty.parse,
      d.read, BinaryFormat.read, text, double, if_pos inside]
  have inside : |binary32.nearest k| ≤ binary32.greatest := by
    rw [float]
    exact le_trans bounded (by decide +kernel)
  rw [read, f.ofDouble k inside, float, printed]

/-! ## What is left to be read -/

theorem placeIn_added (redis : E.type = .redis) (d : E.m.doubles.IsBinary64) (f : F.IsBinary32)
    (hx : |x| ≤ 2 ^ 24) (hy : |y| ≤ 2 ^ 24)
    (does : Does E BesidesPlace (placeOps mac x y z mall_id) w v) :
    placeIn E F mall_id mac v.db = ⟨rounded 10 6 (x : Rat), rounded 10 6 (y : Rat),
      if z ≠ INT_MIN then z else (placeIn E F mall_id mac w.db).z⟩ := by
  have left_ (prop : LocationProp) (ne : prop ≠ .time) :
      v.db (Key.location mall_id.toInt mac prop).text =
        ((⟨mac, mall_id, 0, some ⟨x, y, z⟩⟩ : Record).stored E prop).or
          (w.db (Key.location mall_id.toInt mac prop).text) := by
    rw [does.db (Key.location mall_id.toInt mac prop) ne]
    exact after_placeOps mac ⟨x, y, z⟩ mall_id ne 0 w.db
  have coordinate {prop : LocationProp} {n : Int} (small : |n| ≤ 2 ^ 24)
      (stored : v.db (Key.location mall_id.toInt mac prop).text =
        some (CBaseMdb.encode E.type E.m .double (n : Rat))) :
      F.ofDouble (CBaseMdb.get E.type E.m .double (Key.location mall_id.toInt mac prop).text
        (0 : Rat) v.db) = rounded 10 6 (n : Rat) := by
    rw [get_double stored, redis, coordinate_read d f small]
  have level : (placeIn E F mall_id mac v.db).z =
      if z ≠ INT_MIN then z else (placeIn E F mall_id mac w.db).z := by
    have stored := left_ .z (by decide)
    simp only [Record.stored, Option.bind_some] at stored
    split
    · rename_i known
      rw [if_pos known] at stored
      exact CBaseMdb.get_encode rfl stored
    · rename_i unknown
      rw [if_neg unknown] at stored
      exact CBaseMdb.get_congr stored
  rw [← level, placeIn, coordinate hx (left_ .x (by decide)),
    coordinate hy (left_ .y (by decide))]

/-- The place of the user in the mall is that in `w0`, unless a sighting is of the user there. -/
def SamePlace (w0 : World) (mall_id : Int32) (mac : UInt64) (log : List Record) (w : World) : Prop :=
  (∀ r ∈ log, ¬(r.mall_id = mall_id ∧ r.mac = mac)) → ∀ prop : LocationProp, prop ≠ .time →
    w.db (Key.location mall_id.toInt mac prop).text = w0.db (Key.location mall_id.toInt mac prop).text

theorem keepsPlaces_samePlace {w0 : World} : KeepsPlaces E (SamePlace w0 mall_id mac) where
  quiet log w v same h := by
    intro apart prop ne
    rw [same (Key.location mall_id.toInt mac prop) ne]
    exact h apart prop ne
  add log w v mac' mall_id' t p does h := by
    intro apart prop ne
    obtain ⟨other, apart⟩ := List.forall_mem_cons.mp apart
    rw [does.placeOps_frame ne other]
    exact h apart prop ne

theorem SamePlace.placeIn {w0 : World} {log : List Record} (same : SamePlace w0 mall_id mac log w)
    (apart : ∀ r ∈ log, ¬(r.mall_id = mall_id ∧ r.mac = mac)) :
    UserMap.placeIn E F mall_id mac w.db = UserMap.placeIn E F mall_id mac w0.db := by
  simp only [UserMap.placeIn, CBaseMdb.get_congr (same apart _ (by decide : LocationProp.x ≠ .time)),
    CBaseMdb.get_congr (same apart _ (by decide : LocationProp.y ≠ .time)),
    CBaseMdb.get_congr (same apart _ (by decide : LocationProp.z ≠ .time))]

end

/-- The level after a call of `user_add` with `z`, where it was `before`. -/
def levelAfter (z before : Int32) : Int32 := if z ≠ INT_MIN then z else before

/-- Whole coordinates up to 2^24 are read back, with the level that was given or the one read
before, if and only if they have at most six significant decimal digits; over a connection in
error only what is zero anyway is, and what was not heard only if it was there before. -/
theorem position_read_back_iff (E : Env) (cfg : Config) (F : Floats) (redis : E.type = .redis)
    (answered : ¬E.lossy) (d : E.m.doubles.IsBinary64) (f : F.IsBinary32) (pid pid' : Nat)
    (mac : UInt64) (mall_id z : Int32) (x y : Int) (hx : |x| ≤ 2 ^ 24) (hy : |y| ≤ 2 ^ 24)
    {v v1 v2 v3 : Linked} {t : Int64} {a : Int32} {others : List Record} {pos : AdMap.UserPosition}
    (added : LinkedCall E cfg v ⟨pid, mac, x, y, z, mall_id⟩ t (.ok a) v1)
    (between : Served E cfg F v1 others v2)
    (apart : ∀ r ∈ others, ¬(r.mall_id = mall_id ∧ r.mac = mac))
    (queried : (userQuery F mac mall_id).Runs (linked E pid') v2 (.ok pos) v3) :
    pos.position = ⟨x, y, levelAfter z (placeIn E F mall_id mac v.world.db).z⟩ ↔
      if v2.err pid' then
        x = 0 ∧ y = 0 ∧ levelAfter z (placeIn E F mall_id mac v.world.db).z = 0
      else if v.err pid then
        placeIn E F mall_id mac v.world.db =
          ⟨x, y, levelAfter z (placeIn E F mall_id mac v.world.db).z⟩
      else HasDigits 10 6 x ∧ HasDigits 10 6 y := by
  have same : SamePlace v1.world mall_id mac others v2.world := by
    have kept : SamePlace v1.world mall_id mac (others ++ []) v2.world :=
      between.kept keepsPlaces_samePlace answered fun _ _ _ => rfl
    rwa [List.append_nil] at kept
  obtain ⟨-, rfl⟩ := queried.post _ (wp_userQuery_linked answered _) pos rfl
  cases deaf : v2.err pid' with
  | true =>
    have nearest : binary32.nearest 0 = 0 := by
      exact_mod_cast BinaryFormat.nearest_intCast (f := binary32) (m := 0) (by decide) (by decide)
    have zero : F.ofDouble 0 = 0 := by
      rw [f.ofDouble 0 (by rw [nearest]; decide +kernel), nearest]
    rw [Linked.reads_dead deaf, placeIn_nowhere zero, if_pos rfl]
    simp [eq_comm]
  | false =>
    rw [Linked.reads_sound deaf, same.placeIn apart, if_neg Bool.false_ne_true]
    cases dead : v.err pid with
    | true => rw [(Runs.unheard (v := v.at [t]) dead added).2, if_pos rfl]; rfl
    | false =>
      rw [if_neg Bool.false_ne_true, placeIn_added redis d f hx hy (added.places answered dead)]
      simp only [levelAfter, GeoInfo.mk.injEq, and_true,
        rounded_eq_self_iff (b := 10) (n := 6) (by decide) (by decide)]

/-! ## Positions to compute with -/

/-- Redis, with the formats of the machine. -/
def ieeeEnv : Env := ⟨.redis, Machine.binary64, Pg.any, False, Untouched⟩

/-- Every user gets the id 7. -/
def answerIeee := linkedAnswer ieeeEnv (answer ieeeEnv (fun _ _ => some (decimal 7)) (fun _ _ => []) 0) 0

theorem linked_answerIeee (c : Cmd) (v : Linked) (r : c.Reply × Linked) (h : answerIeee c v = some r) :
    linked ieeeEnv 0 c v r.1 r.2 :=
  linked_answer (exec_answer rfl (fun _ _ _ _ => trivial) fun _ _ => trivial) c v r h

/-- MAC 5 is added at `x`, 2, 3, and asked for next. -/
theorem addAndAsk (x : Int) (t : Int64) (dead : Bool) (place : GeoInfo)
    (runs : ((userAdd firstDay 5 x 2 3 2).eval answerIeee ((Linked.sound nobody).at [t])).bind
      (fun r => ((userQuery .binary32 5 2).eval answerIeee r.2).map fun s => (r.1, r.2.err 0,
        s.1.toOption.map fun pos => (pos.position.x, pos.position.y, pos.position.z))) =
      some (.ok 0, dead, some (place.x, place.y, place.z))) :
    ∃ v1 v3 pos, LinkedCall ieeeEnv firstDay (.sound nobody) ⟨0, 5, x, (2 : Int), 3, 2⟩ t (.ok 0) v1 ∧
      v1.err 0 = dead ∧ (userQuery .binary32 5 2).Runs (linked ieeeEnv 0) v1 (.ok pos) v3 ∧
      pos.position = place := by
  obtain ⟨⟨a, v1⟩, first, rest⟩ := Option.bind_eq_some_iff.mp runs
  obtain ⟨⟨pos, v3⟩, second, ends⟩ := Option.map_eq_some_iff.mp rest
  simp only [Prod.mk.injEq] at ends
  obtain ⟨rfl, err, found⟩ := ends
  cases pos with
  | error e => cases found
  | ok pos =>
    obtain ⟨mac, x', y', z'⟩ := pos
    obtain ⟨px, py, pz⟩ := place
    cases found
    exact ⟨v1, v3, _, Prog.runs_eval _ linked_answerIeee first, err,
      Prog.runs_eval _ linked_answerIeee second, rfl⟩

theorem position_read_back_iff_three_digits : ∃ v1 v3 pos,
    LinkedCall ieeeEnv firstDay (.sound nobody) ⟨0, 5, (123 : Int), (2 : Int), 3, 2⟩ 300 (.ok 0) v1 ∧
      (userQuery .binary32 5 2).Runs (linked ieeeEnv 0) v1 (.ok pos) v3 ∧
      pos.position = ⟨(123 : Int), (2 : Int), 3⟩ := by
  obtain ⟨v1, v3, pos, added, sound, queried, -⟩ := addAndAsk 123 300 false ⟨123, 2, 3⟩
    (by decide +kernel)
  refine ⟨v1, v3, pos, added, queried, ?_⟩
  refine (position_read_back_iff ieeeEnv firstDay .binary32 rfl not_false Machine.isBinary64
    Floats.isBinary32 0 0 5 2 3 123 2 (by decide) (by decide) added .start (by simp) queried).mpr ?_
  rw [if_neg (by simp [sound]), if_neg (by simp [Linked.sound])]
  exact ⟨⟨123, 0, by decide, by simp⟩, ⟨2, 0, by decide, by simp⟩⟩

/-- Of seven digits six are kept. -/
theorem position_rounded : ∃ v1 v3 pos,
    LinkedCall ieeeEnv firstDay (.sound nobody) ⟨0, 5, (1234567 : Int), (2 : Int), 3, 2⟩ 300 (.ok 0)
        v1 ∧
      (userQuery .binary32 5 2).Runs (linked ieeeEnv 0) v1 (.ok pos) v3 ∧
      pos.position ≠ ⟨(1234567 : Int), (2 : Int), 3⟩ := by
  obtain ⟨v1, v3, pos, added, -, queried, place⟩ := addAndAsk 1234567 300 false ⟨1234570, 2, 3⟩
    (by decide +kernel)
  refine ⟨v1, v3, pos, added, queried, ?_⟩
  rw [place]
  intro same
  have equal : (1234570 : Rat) = (1234567 : Int) := congrArg GeoInfo.x same
  norm_num at equal

/-- After the reading 21285 the process that has added the place does not find it. -/
theorem position_unheard : ∃ v1 v3 pos,
    LinkedCall ieeeEnv firstDay (.sound nobody) ⟨0, 5, (123 : Int), (2 : Int), 3, 2⟩ 21285 (.ok 0) v1 ∧
      v1.err 0 = true ∧ (userQuery .binary32 5 2).Runs (linked ieeeEnv 0) v1 (.ok pos) v3 ∧
      pos.position = ⟨0, 0, 0⟩ :=
  addAndAsk 123 21285 true ⟨0, 0, 0⟩ (by decide +kernel)

end UserMap

end SimpleDsp
