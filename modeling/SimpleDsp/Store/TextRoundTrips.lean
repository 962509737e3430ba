import SimpleDsp.Store.Formats

/-!
# Texts written and read back

What `RedisDb` reads of a text it has written: a value, a field, a member of a
set or of a sorted set.

* `RoundTrips`: all four read back what was written;
* `round_trips_iff_survives`: which texts, fields and keys do on every machine.
-/

namespace SimpleDsp

open DecimalText

/-- The server carries out `HSET`. -/
def StoresField (m : Machine) (k f s : Text) (db : Db) : Prop :=
  ∃ n, (redisCommand m .hset (k ++ ' ' :: (f ++ ' ' :: s)) db).1 = some (.integer n)

structure RoundTrips (m : Machine) (k f s : Text) : Prop where
  set : ∀ db d, (RedisDb.set m .string k s db).1 = 1 →
    RedisDb.get m .string k d (RedisDb.set m .string k s db).2 = s
  hset : ∀ db, StoresField m k f s db →
    ∃ ps, RedisDb.hget m .string k (RedisDb.hset m .string k f s db).2 = some ps ∧
      ps.lookup f = some s ∧
      ∀ g, g ≠ f → ps.lookup g = ((RedisDb.hget m .string k db).getD []).lookup g
  sadd : ∀ db, db k = none →
    RedisDb.smembers m .string k (RedisDb.sadd m .string k s db).2 = some [s]
  zadd : ∀ db score, db k = none →
    RedisDb.zmembers m .string k (RedisDb.zadd m .string k score s db).2 = some [s]

/-- The field is one word, or words that leave a field without a value. -/
def FieldSurvives (f : Text) : Prop :=
  ' ' ∉ f ∧ '%' ∉ f ∨
    ∃ ws, formatArgs (fun _ => none) (f ++ [' ']) = some ws ∧ ws.length % 2 = 0

structure Survives (k f s : Text) : Prop where
  key : ' ' ∉ k ∧ '%' ∉ k
  value : (∀ c ∈ s, isSpace c = false) ∧ '%' ∉ s.dropLast
  field : FieldSurvives f

section
variable {m : Machine} {k f s : Text} {db : Db}

theorem isWord_of_plain {t : Text} (ne : t ≠ []) (zero : nul ∉ t) (plain : ' ' ∉ t ∧ '%' ∉ t) :
    IsWord t where
  ne_nil := ne
  plain _ hc := by
    refine ⟨?_, ?_, ?_⟩ <;> rintro rfl
    · exact plain.1 hc
    · exact plain.2 hc
    · exact zero hc

theorem isLast_of_survives (ne : s ≠ []) (zero : nul ∉ s) (space : ∀ c ∈ s, isSpace c = false)
    (percent : '%' ∉ s.dropLast) : IsLast s where
  ne_nil := ne
  plain _ hc := by
    refine ⟨?_, ?_⟩ <;> rintro rfl
    · exact absurd (space _ hc) (by decide)
    · exact zero hc
  percent := percent

theorem cString_of_no_nul {t : Text} (zero : nul ∉ t) : cString t = t :=
  cString_eq_self fun _ hc e => zero (e ▸ hc)

/-- A stream reads a text without white space whole. -/
theorem extract_string {d : Doubles} {uninit : (τ : Ty) → τ.Val} (ne : s ≠ [])
    (zero : nul ∉ s) (space : ∀ c ∈ s, isSpace c = false) :
    Ty.extract d uninit .string (cString s) = s := by
  rw [cString_of_no_nul zero, Ty.extract, skipSpace_of_no_space space, if_neg ne]
  exact word_of_no_space space

/-- What it reads of any other text is a part without white space. -/
theorem extract_string_eq {d : Doubles} {uninit : (τ : Ty) → τ.Val} {t : Text} (ne : s ≠ [])
    (h : Ty.extract d uninit .string t = s) : word t = s := by
  unfold Ty.extract at h
  split at h
  · exact absurd h.symm ne
  · exact h

/-! ## Texts that survive -/

theorem set_round_trips (key : IsWord k) (value : IsLast s) (space : ∀ c ∈ s, isSpace c = false)
    (d : Text) : RedisDb.get m .string k d (RedisDb.set m .string k s db).2 = s := by
  have args : formatArgs m.stray (k ++ ' ' :: s) = some [k, s] := by
    rw [formatArgs_cons key, value.args]
    rfl
  have zero : nul ∉ s := fun h => (value.plain _ h).2 rfl
  have after : (RedisDb.set m .string k s db).2 = db.put k (.str s) := by
    simp [RedisDb.set, redisCommand, Ty.print, args, serve_set]
  simp only [after, RedisDb.get, serve, key.cString, Db.put_self]
  exact extract_string value.ne_nil zero space

theorem sadd_round_trips (key : IsWord k) (value : IsLast s) (space : ∀ c ∈ s, isSpace c = false)
    (empty : db k = none) :
    RedisDb.smembers m .string k (RedisDb.sadd m .string k s db).2 = some [s] := by
  have args : formatArgs m.stray (k ++ ' ' :: s) = some [k, s] := by
    rw [formatArgs_cons key, value.args]
    rfl
  have zero : nul ∉ s := fun h => (value.plain _ h).2 rfl
  have one : m.listing k {s} = [s] := by
    apply List.perm_singleton.mp
    apply (List.perm_ext_iff_of_nodup (m.listing_nodup k {s}) (List.nodup_singleton s)).mpr
    intro a
    rw [m.mem_listing, Finset.mem_singleton, List.mem_singleton]
  simp [RedisDb.sadd, redisCommand, Ty.print, args, serve, setAt, empty, RedisDb.smembers,
    key.cString, RedisDb.members, one, extract_string value.ne_nil zero space]

theorem zadd_round_trips (key : IsWord k) (value : IsLast s) (space : ∀ c ∈ s, isSpace c = false)
    (empty : db k = none) (score : Rat) :
    RedisDb.zmembers m .string k (RedisDb.zadd m .string k score s db).2 = some [s] := by
  have args : formatArgs m.stray (k ++ ' ' :: (decimal (m.longLong score) ++ ' ' :: s)) =
      some [k, decimal (m.longLong score), s] := by
    rw [formatArgs_cons key, formatArgs_cons (isWord_decimal _), value.args]
    rfl
  have zero : nul ∉ s := fun h => (value.plain _ h).2 rfl
  have after : (RedisDb.zadd m .string k score s db).2 =
      db.put k (.zset (AList.singleton s (m.longLong score : Rat))) := by
    simp [RedisDb.zadd, redisCommand, Ty.print, args, serve, zsetAt, empty]
  have one : rangeOrder (AList.singleton s (m.longLong score : Rat)) = [s] := rfl
  simp [after, RedisDb.zmembers, serve, zsetAt, key.cString, RedisDb.members, one,
    extract_string value.ne_nil zero space]

/-! ## Hashes -/

theorem pairs_flatFields (τ : Ty) (h : AList fun _ : Text => Text) :
    RedisDb.pairs m τ (flatFields h) =
      h.entries.map fun e => (cString e.1, τ.extract m.doubles m.uninit (cString e.2)) := by
  unfold flatFields
  induction h.entries with
  | nil => rfl
  | cons e es ih => simp only [List.flatMap_cons, List.cons_append, List.nil_append, RedisDb.pairs,
      ih, List.map_cons]

theorem hget_hash {τ : Ty} {h : AList fun _ : Text => Text} (key : cString k = k)
    (kept : hashAt (db k) = some h) : RedisDb.hget m τ k db =
      some (h.entries.map fun e =>
        (cString e.1, τ.extract m.doubles m.uninit (cString e.2))) := by
  simp only [RedisDb.hget, key, serve, kept, pairs_flatFields]

/-- A field that goes away is not found under another name. -/
theorem lookup_kerase {β : Type} {f g : Text} (zero : nul ∉ f) (ne : g ≠ f)
    (es : List (Sigma fun _ : Text => Text)) (F : Text → β) :
    ((es.kerase f).map fun e => (cString e.1, F e.2)).lookup g =
      (es.map fun e => (cString e.1, F e.2)).lookup g := by
  induction es with
  | nil => rfl
  | cons e es ih =>
    by_cases here : f = e.1
    · have gone : ((e :: es).kerase f) = es := by simp [List.kerase, here]
      have other : (g == cString e.1) = false := by
        rw [← here, cString_of_no_nul zero]
        simpa using ne
      rw [gone, List.map_cons, List.lookup_cons, other]
    · have stays : ((e :: es).kerase f) = e :: es.kerase f := List.kerase_cons_ne here
      simp only [stays, List.map_cons, List.lookup_cons, ih]

theorem hset_round_trips (key : IsWord k) (field : IsWord f) (value : IsLast s)
    (space : ∀ c ∈ s, isSpace c = false) (stores : StoresField m k f s db) :
    ∃ ps, RedisDb.hget m .string k (RedisDb.hset m .string k f s db).2 = some ps ∧
      ps.lookup f = some s ∧
      ∀ g, g ≠ f → ps.lookup g = ((RedisDb.hget m .string k db).getD []).lookup g := by
  have args : formatArgs m.stray (k ++ ' ' :: (f ++ ' ' :: s)) = some [k, f, s] := by
    rw [formatArgs_cons key, formatArgs_cons field, value.args]
    rfl
  have zero : nul ∉ s := fun h => (value.plain _ h).2 rfl
  have zero' : nul ∉ f := fun h => (field.plain _ h).2.2 rfl
  obtain ⟨n, reply⟩ := stores
  cases kept : hashAt (db k) with
  | none => simp [redisCommand, args, serve, fieldPairs, kept] at reply
  | some h =>
    have after : (RedisDb.hset m .string k f s db).2 = db.put k (.hash (h.insert f s)) := by
      simp [RedisDb.hset, redisCommand, Ty.print, args, serve, fieldPairs, kept, setFields]
    have kept' : hashAt (db.put k (.hash (h.insert f s)) k) = some (h.insert f s) := by
      rw [Db.put_self]
      rfl
    refine ⟨_, by rw [after]; exact hget_hash key.cString kept', ?_, ?_⟩
    · simp [AList.insert, List.kinsert, cString_of_no_nul zero',
        extract_string value.ne_nil zero space]
    · intro g ne
      have other : (g == cString f) = false := by
        rw [cString_of_no_nul zero']
        simpa using ne
      rw [hget_hash key.cString kept]
      simp only [AList.insert, List.kinsert, List.map_cons, List.lookup_cons, other,
        Option.getD_some]
      exact lookup_kerase zero' ne h.entries
        fun v => Ty.extract m.doubles m.uninit .string (cString v)

/-! ## Fields that are never stored -/

theorem fieldPairs_odd {L : List Text} (odd : L.length % 2 = 1) : fieldPairs L = none := by
  induction L using fieldPairs.induct with
  | case1 => cases odd
  | case2 => rfl
  | case3 f v rest ih =>
    simp only [List.length_cons] at odd
    rw [fieldPairs, ih (by omega)]
    rfl

theorem fieldPairs_even {L : List Text} (even : L.length % 2 = 0) :
    ∃ ps, fieldPairs L = some ps ∧ ∀ p ∈ ps, p.1 ∈ L.dropLast := by
  induction L using fieldPairs.induct with
  | case1 => exact ⟨[], rfl, by simp⟩
  | case2 => cases even
  | case3 f v rest ih =>
    simp only [List.length_cons] at even
    obtain ⟨ps, read, front⟩ := ih (by omega)
    refine ⟨(f, v) :: ps, by rw [fieldPairs, read]; rfl, ?_⟩
    intro p hp
    rcases List.mem_cons.mp hp with rfl | hp
    · simp
    · have mem := front p hp
      have ne : rest ≠ [] := by
        rintro rfl
        simp at mem
      rw [List.dropLast_cons_of_ne_nil (List.cons_ne_nil _ _), List.dropLast_cons_of_ne_nil ne]
      exact List.mem_cons_of_mem _ (List.mem_cons_of_mem _ mem)

theorem serve_hset_odd {L : List Text} (odd : L.length % 2 = 1) :
    serve m .hset (k :: L) db = (.error, db) := by
  rcases L with _ | ⟨f, _ | ⟨v, rest⟩⟩
  · cases odd
  · rfl
  · simp only [List.length_cons] at odd
    simp [serve, fieldPairs_odd (L := rest) (by omega)]

/-- A field that leaves another one without a value. -/
theorem not_storesField (key : IsWord k) (value : IsLast s) {ws : List Text}
    (read : formatArgs (fun _ => none) (f ++ [' ']) = some ws) (even : ws.length % 2 = 0)
    (zero : nul ∉ f) : ¬StoresField m k f s db := by
  rintro ⟨n, reply⟩
  rcases reads_or_stray f zero with ⟨ps, reads⟩ | ⟨u, ps, v, rfl, reads, head⟩
  · have words : ws = gather none ps := by
      rw [formatArgs, reads.append, pieces_blank] at read
      simp only [pieces, Option.map_some, Option.some.injEq] at read
      rw [← read, gather_none_append]
      simp [gather]
    have args : formatArgs m.stray (f ++ ' ' :: s) = some (ws ++ [s]) := by
      have last := gather_word value.ne_nil []
      rw [List.append_nil] at last
      rw [formatArgs, reads.append, pieces_blank, value.pieces, words]
      simp [gather_none_append, last, gather]
    rw [redisCommand, formatArgs_cons key, args] at reply
    have odd : (ws ++ [s]).length % 2 = 1 := by
      rw [List.length_append, List.length_singleton]
      omega
    simp [serve_hset_odd odd] at reply
  · have zero' : nul ∉ v := fun h => zero (by simp [h])
    rw [formatArgs, List.append_assoc, List.cons_append, reads.append,
      pieces_none zero' head] at read
    cases read

/-! ## Texts that do not survive -/

theorem smembers_nothing (zero : nul ∉ k) (nothing : db k = none) :
    RedisDb.smembers m .string k db = some [] := by
  have empty : m.listing k ∅ = [] := by
    apply List.eq_nil_iff_forall_not_mem.mpr
    intro x hx
    exact absurd ((m.mem_listing _ _ _).mp hx) (Finset.notMem_empty x)
  simp [RedisDb.smembers, serve, cString_of_no_nul zero, nothing, setAt, empty, RedisDb.members]

theorem mem_foldl_insert {l : List Text} {members : Finset Text} {x : Text} :
    x ∈ l.foldl (fun s m => insert m s) members ↔ x ∈ members ∨ x ∈ l := by
  induction l generalizing members with
  | nil => simp
  | cons a l ih =>
    rw [List.foldl_cons, ih, Finset.mem_insert, List.mem_cons]
    tauto

/-- A member that comes back has been added to the set at the key. -/
theorem args_of_sadd (ne : s ≠ []) (zero : nul ∉ k) (back : RedisDb.smembers m .string k
      (RedisDb.sadd m .string k s Db.empty).2 = some [s]) :
    ∃ v vs, formatArgs m.stray (k ++ ' ' :: s) = some (k :: v :: vs) ∧ word (cString v) = s := by
  have untouched (h : (RedisDb.sadd m .string k s Db.empty).2 k = none) : False := by
    rw [smembers_nothing zero h] at back
    simp at back
  cases args : formatArgs m.stray (k ++ ' ' :: s) with
  | none => exact (untouched (by simp [RedisDb.sadd, redisCommand, Ty.print, args, Db.empty])).elim
  | some ws =>
    have after : (RedisDb.sadd m .string k s Db.empty).2 = (serve m .sadd ws Db.empty).2 := by
      simp [RedisDb.sadd, redisCommand, Ty.print, args]
    rw [after] at back untouched
    rcases ws with _ | ⟨k', _ | ⟨v, vs⟩⟩
    · exact (untouched rfl).elim
    · exact (untouched rfl).elim
    · by_cases other : k = k'
      · subst other
        refine ⟨v, vs, rfl, ?_⟩
        have listed : RedisDb.smembers m .string k (serve m .sadd (k :: v :: vs) Db.empty).2 =
            some ((m.listing k ((v :: vs).foldl (fun s m => insert m s) ∅)).map fun t =>
              Ty.extract m.doubles m.uninit .string (cString t)) := by
          simp [RedisDb.smembers, serve, setAt, Db.empty, cString_of_no_nul zero, RedisDb.members]
        have member : v ∈ (v :: vs).foldl (fun s m => insert m s) (∅ : Finset Text) :=
          mem_foldl_insert.mpr (Or.inr (List.mem_cons_self ..))
        rw [listed] at back
        have read : Ty.extract m.doubles m.uninit .string (cString v) ∈ [s] := by
          rw [← Option.some.inj back]
          exact List.mem_map_of_mem ((m.mem_listing _ _ _).mpr member)
        exact extract_string_eq ne (List.mem_singleton.mp read)
      · exact (untouched (by rw [serve_frame other]; rfl)).elim

/-- A key that is the first argument has neither a blank nor a percent sign. -/
theorem plain_of_first (ne : k ≠ []) (zero : nul ∉ k) {vs : List Text}
    (args : formatArgs (fun _ => none) (k ++ ' ' :: s) = some (k :: vs)) :
    ' ' ∉ k ∧ '%' ∉ k := by
  obtain ⟨ps, read, gathered⟩ := Option.map_eq_some_iff.mp args
  have blank : ' ' ∉ k := by
    have first : k ∈ gather none ps := by
      rw [gathered]
      exact List.mem_cons_self ..
    exact no_blank_of_mem_gather (by simp) (no_blank_of_pieces read) first
  refine ⟨blank, fun percent => ?_⟩
  rcases reads_or_stray k zero with ⟨qs, reads⟩ | ⟨u, qs, v, rfl, reads, head⟩
  · rw [reads.append, pieces_blank, Option.map_map] at read
    obtain ⟨rs, -, rfl⟩ := Option.map_eq_some_iff.mp read
    have split : gather none qs ++ gather none rs = k :: vs := by
      rw [← gathered, ← gather_none_append]
      rfl
    have some : gather none qs ≠ [] := by
      cases reads with
      | nil => exact absurd rfl ne
      | blank h => simp at blank
      | percent h => exact gather_some_ne_nil _ _
      | char hc h => exact gather_some_ne_nil _ _
    obtain ⟨w, ws, words⟩ := List.exists_cons_of_ne_nil some
    rw [words, List.cons_append] at split
    have first : k ∈ gather none qs := by
      rw [words, (List.cons.inj split).1]
      exact List.mem_cons_self ..
    have short := length_le_of_mem_gather first
    have lost := reads.weight_lt (Or.inr percent)
    simp only [Option.getD_none, List.length_nil] at short
    omega
  · have zero' : nul ∉ v := fun h => zero (by simp [h])
    rw [List.append_assoc, List.cons_append, reads.append, pieces_none zero' head] at read
    cases read

/-- A text that is read back as a whole. -/
theorem value_of_read (zero : nul ∉ s) {v : Text} {vs : List Text}
    (args : formatArgs (fun _ => none) s = some (v :: vs)) (back : word (cString v) = s) :
    (∀ c ∈ s, isSpace c = false) ∧ '%' ∉ s.dropLast := by
  have space : ∀ c ∈ s, isSpace c = false := by
    intro c hc
    rw [← back] at hc
    exact isSpace_of_mem_word hc
  refine ⟨space, fun percent => ?_⟩
  obtain ⟨ps, read, gathered⟩ := Option.map_eq_some_iff.mp args
  have long : s.length ≤ weight ps := by
    have first : v ∈ gather none ps := by
      rw [gathered]
      exact List.mem_cons_self ..
    have short := length_le_of_mem_gather first
    have cut := Nat.le_trans (length_word_le _) (length_cString_le v)
    rw [back] at cut
    simp only [Option.getD_none, List.length_nil] at short
    omega
  rcases reads_or_stray s zero with ⟨qs, reads⟩ | ⟨u, qs, t, rfl, reads, head⟩
  · have same : ps = qs := by
      have whole := reads.append (fun _ => none) []
      rw [List.append_nil, read] at whole
      simpa [pieces] using whole
    have lost := reads.weight_lt (Or.inr (List.mem_of_mem_dropLast percent))
    rw [same] at long
    omega
  · cases t with
    | nil =>
      have same : ps = qs ++ [some ['%']] := by
        have whole := reads.append (fun _ => none) ['%']
        rw [read] at whole
        simpa [pieces, cString, show '%' ≠ nul by decide, show '%' ≠ ' ' by decide] using whole
      have lost : weight qs < u.length := by
        apply reads.weight_lt
        simpa using Or.inr percent
      rw [same, weight_append] at long
      simp only [weight, List.length_append, List.length_cons, List.length_nil] at long
      omega
    | cons c t =>
      have zero' : c ≠ nul := by
        rintro rfl
        exact zero (by simp)
      rw [reads.append, pieces_stray _ (by simp [cString, zero']) head] at read
      cases read

theorem mem_setFields {h : AList fun _ : Text => Text} {ps : List (Text × Text)} {x : Text}
    (mem : x ∈ setFields h ps) : x ∈ h ∨ ∃ p ∈ ps, p.1 = x := by
  induction ps generalizing h with
  | nil => exact Or.inl mem
  | cons p ps ih =>
    rcases ih mem with old | ⟨q, hq, e⟩
    · rcases (AList.mem_insert _).mp old with rfl | old
      · exact Or.inr ⟨p, List.mem_cons_self .., rfl⟩
      · exact Or.inl old
    · exact Or.inr ⟨q, List.mem_cons_of_mem _ hq, e⟩

/-- When hiredis makes pairs of a field and a value, and all fields among them are
shorter, the field is not found. -/
theorem not_roundTrips_of_args (key : IsWord k) {L : List Text}
    (args : formatArgs m.stray (f ++ ' ' :: s) = some L) (even : L.length % 2 = 0) (ne : L ≠ [])
    (short : ∀ g ∈ L.dropLast, g.length < f.length) : ¬RoundTrips m k f s := by
  intro trips
  obtain ⟨qs, read, front⟩ := fieldPairs_even even
  have fields : hashAt (Db.empty k) = some ∅ := rfl
  have served : ∃ n, serve m .hset (k :: L) Db.empty =
      (.integer n, Db.empty.put k (.hash (setFields ∅ qs))) := by
    rcases L with _ | ⟨a, _ | ⟨b, rest⟩⟩
    · exact absurd rfl ne
    · cases even
    · cases tail : fieldPairs rest with
      | none => simp [fieldPairs, tail] at read
      | some rs =>
        simp only [fieldPairs, tail, Option.map_some, Option.some.injEq] at read
        subst read
        refine ⟨(setFields ∅ ((a, b) :: rs)).keys.length - (∅ : AList fun _ : Text => Text).keys.length,
          ?_⟩
        simp only [serve, tail, fields]
  obtain ⟨n, served⟩ := served
  have command : redisCommand m .hset (k ++ ' ' :: (f ++ ' ' :: s)) Db.empty =
      (some (.integer n), Db.empty.put k (.hash (setFields ∅ qs))) := by
    simp only [redisCommand, formatArgs_cons key, args, Option.map_some, served]
  obtain ⟨ps, got, found, -⟩ := trips.hset Db.empty ⟨n, by rw [command]⟩
  have after : (RedisDb.hset m .string k f s Db.empty).2 =
      Db.empty.put k (.hash (setFields ∅ qs)) := by
    simp only [RedisDb.hset, Ty.print, command]
  have kept : hashAt (Db.empty.put k (.hash (setFields ∅ qs)) k) = some (setFields ∅ qs) := by
    rw [Db.put_self]
    rfl
  rw [after, hget_hash key.cString kept] at got
  obtain ⟨before, behind, split, -⟩ := List.lookup_eq_some_iff.mp found
  have mem : (f, s) ∈ ps := by
    rw [split]
    simp
  rw [← Option.some.inj got] at mem
  obtain ⟨e, he, same⟩ := List.mem_map.mp mem
  have name : cString e.1 = f := (Prod.mk.inj same).1
  have stored : e.1 ∈ setFields ∅ qs := List.mem_keys_of_mem he
  rcases mem_setFields stored with nothing | ⟨q, hq, field⟩
  · simp at nothing
  · have shorter := short _ (front q hq)
    have cut := length_cString_le e.1
    rw [name] at cut
    rw [field] at shorter
    omega

/-- A conversion without an argument may turn into nothing, and take as much of the
command as makes pairs of the rest. -/
theorem not_roundTrips_of_stray (key : IsWord k) (value : IsLast s) {u v : Text}
    {ps : List (Option Text)} (reads : Reads u ps) (head : v.head? ≠ some '%') (zero : nul ∉ v) :
    ∃ m, ¬RoundTrips m k (u ++ '%' :: v) s := by
  obtain ⟨us, w, glued⟩ := gather_last none ps []
  have whole := glued []
  rw [List.map_nil, List.append_nil] at whole
  have short : ∀ g ∈ us ++ [w], g.length < (u ++ '%' :: v).length := by
    intro g hg
    rw [← whole] at hg
    have le := length_le_of_mem_gather hg
    have most := reads.weight_le
    simp only [weight_append, weight, Option.getD_none, List.length_nil] at le
    simp only [List.length_append, List.length_cons]
    omega
  have some_v : ∀ t : Text, cString (v ++ ' ' :: t) ≠ [] := by
    intro t
    cases v with
    | nil => simp [cString, show ' ' ≠ nul by decide]
    | cons c v =>
      simp only [List.mem_cons, not_or] at zero
      simp [cString, Ne.symm zero.1]
  have head' : ∀ t : Text, (v ++ ' ' :: t).head? ≠ some '%' := by
    intro t
    cases v with
    | nil => simp
    | cons c v => simpa using head
  by_cases even : us.length % 2 = 0
  · -- the conversion takes what is left of the field
    let m : Machine := { Machine.plain with stray := fun _ => some ([], v.length) }
    have args : formatArgs m.stray ((u ++ '%' :: v) ++ ' ' :: s) = some (us ++ [w] ++ [s]) := by
      have last := gather_word value.ne_nil []
      rw [List.append_nil] at last
      have read : pieces m.stray 0 ('%' :: (v ++ ' ' :: s)) =
          some (some [] :: none :: s.map fun c => some [c]) := by
        rw [pieces_stray m.stray (some_v s) (head' s)]
        simp only [m, Option.bind_some, pieces_skip, pieces_blank, value.pieces, Option.map_some]
      rw [formatArgs, List.append_assoc, List.cons_append, reads.append, read, Option.map_some,
        Option.map_some, List.append_cons, gather_none_append, whole, last]
      rfl
    refine ⟨m, not_roundTrips_of_args key args ?_ (by simp) ?_⟩
    · simp only [List.length_append, List.length_singleton]
      omega
    · rw [List.dropLast_concat]
      exact short
  · -- it takes the blank after the field as well
    let m : Machine := { Machine.plain with stray := fun _ => some ([], (v ++ [' ']).length) }
    have args : formatArgs m.stray ((u ++ '%' :: v) ++ ' ' :: s) = some (us ++ [w ++ s]) := by
      have read : pieces m.stray 0 ('%' :: (v ++ ' ' :: s)) =
          some (some [] :: s.map fun c => some [c]) := by
        rw [pieces_stray m.stray (some_v s) (head' s), List.append_cons]
        simp only [m, Option.bind_some, pieces_skip, value.pieces, Option.map_some]
      rw [formatArgs, List.append_assoc, List.cons_append, reads.append, read, Option.map_some,
        Option.map_some, glued]
    refine ⟨m, not_roundTrips_of_args key args ?_ (by simp) ?_⟩
    · rw [List.length_append, List.length_singleton]
      omega
    · intro g hg
      rw [List.dropLast_concat] at hg
      exact short g (List.mem_append_left _ hg)

theorem fieldSurvives_of_roundTrips (key : IsWord k) (value : IsLast s) (zero : nul ∉ f)
    (trips : ∀ m, RoundTrips m k f s) : FieldSurvives f := by
  rcases reads_or_stray f zero with ⟨ps, reads⟩ | ⟨u, ps, v, rfl, reads, head⟩
  · have words : formatArgs (fun _ => none) (f ++ [' ']) = some (gather none ps) := by
      rw [formatArgs, reads.append, pieces_blank]
      simp [pieces, gather_none_append, gather]
    by_cases even : (gather none ps).length % 2 = 0
    · exact Or.inr ⟨_, words, even⟩
    · by_contra dies
      have lost : ' ' ∈ f ∨ '%' ∈ f := by
        by_contra plain
        exact dies (Or.inl (not_or.mp plain))
      have args : formatArgs Machine.plain.stray (f ++ ' ' :: s) =
          some (gather none ps ++ [s]) := by
        have last := gather_word value.ne_nil []
        rw [List.append_nil] at last
        rw [formatArgs, reads.append, pieces_blank, value.pieces]
        simp [gather_none_append, last, gather]
      apply not_roundTrips_of_args key args _ (by simp) _ (trips Machine.plain)
      · rw [List.length_append, List.length_singleton]
        omega
      · intro g hg
        rw [List.dropLast_concat] at hg
        have short := length_le_of_mem_gather hg
        have less := reads.weight_lt lost
        simp only [Option.getD_none, List.length_nil] at short
        omega
  · have zero' : nul ∉ v := fun h => zero (by simp [h])
    obtain ⟨m, fails⟩ := not_roundTrips_of_stray key value reads head zero'
    exact absurd (trips m) fails

/-- A key, a field and a text come back from every store on every machine exactly
when the text survives. -/
theorem round_trips_iff_survives (hk : k ≠ [] ∧ nul ∉ k) (hf : f ≠ [] ∧ nul ∉ f)
    (hs : s ≠ [] ∧ nul ∉ s) : (∀ m, RoundTrips m k f s) ↔ Survives k f s := by
  constructor
  · intro trips
    obtain ⟨v, vs, args, back⟩ := args_of_sadd hs.1 hk.2 ((trips Machine.plain).sadd Db.empty rfl)
    have plain := plain_of_first hk.1 hk.2 args
    have key := isWord_of_plain hk.1 hk.2 plain
    rw [formatArgs_cons key] at args
    obtain ⟨ws, args, e⟩ := Option.map_eq_some_iff.mp args
    rw [(List.cons.inj e).2] at args
    obtain ⟨space, percent⟩ := value_of_read hs.2 args back
    exact ⟨plain, ⟨space, percent⟩, fieldSurvives_of_roundTrips key
      (isLast_of_survives hs.1 hs.2 space percent) hf.2 trips⟩
  · rintro ⟨plain, ⟨space, percent⟩, field⟩ m
    have key := isWord_of_plain hk.1 hk.2 plain
    have value := isLast_of_survives hs.1 hs.2 space percent
    constructor
    · exact fun db d _ => set_round_trips key value space d
    · intro db stores
      rcases field with field | ⟨ws, read, even⟩
      · exact hset_round_trips key (isWord_of_plain hf.1 hf.2 field) value space stores
      · exact absurd stores (not_storesField key value read even hf.2)
    · exact fun db empty => sadd_round_trips key value space empty
    · exact fun db score empty => zadd_round_trips key value space empty score

end

/-- A percent sign at the end does no harm. -/
theorem round_trips_iff_survives_percent :
    RoundTrips Machine.plain ['k'] ['f'] ['5', '0', '%'] := by
  have space : ∀ c ∈ ['5', '0', '%'], isSpace c = false := by simp [isSpace]
  have survives : Survives ['k'] ['f'] ['5', '0', '%'] :=
    ⟨by decide, ⟨space, by decide⟩, Or.inl (by decide)⟩
  exact (round_trips_iff_survives (by decide) (by decide) (by decide)).mpr survives Machine.plain

/-- The second word is taken for an option of `SET`. -/
theorem set_with_option_loses_text :
    (RedisDb.set Machine.plain .string ['k'] "a NX".toList Db.empty).1 = 1 ∧
      RedisDb.get Machine.plain .string ['k'] []
        (RedisDb.set Machine.plain .string ['k'] "a NX".toList Db.empty).2 = ['a'] ∧
      ¬RoundTrips Machine.plain ['k'] ['f'] "a NX".toList := by
  refine ⟨by decide +kernel, by decide +kernel, fun trips => ?_⟩
  have back := trips.set Db.empty [] (by decide +kernel)
  exact absurd back (by decide +kernel)

end SimpleDsp
