import SimpleDsp.UserMap.Calls

/-!
# Registered time slices

On Redis: which time slices of a mall `data.time.set` lists. The member that
registers a slice is the memory of the reading, sent as the end of a command.

* `Logged`, `call_logged`: what one call does to counters, sets and the slices a
  process remembers;
* `TimeInv`: what the set and the remembered slices have to do with the counters;
* `slices_registered_iff`: when a call leaves every slice with data registered,
  and what follows for runs.
-/

namespace SimpleDsp

open DecimalText Programs

namespace UserMap

open Prog (call)

/-! ## What one call does -/

def timeSet (w : World) (mall_id : Int32) : Option (AList fun _ : Text => Rat) :=
  zsetAt (w.db (Key.logDataTimeSet mall_id.toInt).text)

/-- The records this module is not about. -/
def NotTime (k : Key) : Prop :=
  (∀ m s, k ≠ .logCounter m s) ∧ ∀ m, k ≠ .logDataTimeSet m

section
variable (E : Env) (cfg : Config) (pid : Nat) (mall_id : Int32) (t : Int64)

structure Logged (w v : World) : Prop where
  counted : ∀ n,
    CBaseMdb.Counted .redis (w.db (Key.logCounter mall_id.toInt (sliceOf cfg t.toInt)).text) n →
    CBaseMdb.Counted .redis (v.db (Key.logCounter mall_id.toInt (sliceOf cfg t.toInt)).text) (n + 1)
  counters : ∀ m s, Key.logCounter m s ≠ .logCounter mall_id.toInt (sliceOf cfg t.toInt) →
    v.db (Key.logCounter m s).text = w.db (Key.logCounter m s).text
  remembered : w.lastSlice pid mall_id = some (sliceOf cfg t.toInt) →
    timeSet v mall_id = timeSet w mall_id
  forgotten : w.lastSlice pid mall_id ≠ some (sliceOf cfg t.toInt) →
    ∀ z, timeSet w mall_id = some z →
      timeSet v mall_id = some (CBaseMdb.zaddEffect E.m t (timeMember t) z)
  others : ∀ m, m ≠ mall_id → timeSet v m = timeSet w m
  last : v.lastSlice pid mall_id = some (sliceOf cfg t.toInt)
  lasts : ∀ pid' m, (pid', m) ≠ (pid, mall_id) → v.lastSlice pid' m = w.lastSlice pid' m

end

variable {E : Env} {cfg : Config} {pid : Nat} {mall_id : Int32} {t : Int64}

theorem Unchanged.timeSet {w v : World} (h : Unchanged NotTime w v) (m : Int32) :
    timeSet v m = timeSet w m := by
  have outside : ¬NotTime (.logDataTimeSet m.toInt) := fun no => no.2 _ rfl
  simp only [UserMap.timeSet, h.db _ outside]

theorem Unchanged.counter {w v : World} (h : Unchanged NotTime w v) (m : Int) (s : Stamp) :
    v.db (Key.logCounter m s).text = w.db (Key.logCounter m s).text :=
  h.db _ fun no => no.1 _ _ rfl

theorem Unchanged.last {w v : World} (h : Unchanged NotTime w v) (pid : Nat) (m : Int32) :
    v.lastSlice pid m = w.lastSlice pid m :=
  h.lastSlice m (fun no => no.2 _ rfl) pid

theorem Logged.after {w v u : World} (h : Unchanged NotTime w v)
    (l : Logged E cfg pid mall_id t v u) : Logged E cfg pid mall_id t w u where
  counted n hn := l.counted n (by rwa [h.counter])
  counters m s ne := by rw [l.counters m s ne, h.counter]
  remembered hit := by rw [l.remembered (by rwa [h.last]), h.timeSet]
  forgotten miss z hz := l.forgotten (by rwa [h.last]) z (by rwa [h.timeSet])
  others m ne := by rw [l.others m ne, h.timeSet]
  last := l.last
  lasts p m ne := by rw [l.lasts p m ne, h.last]

theorem Logged.before {w v u : World} (l : Logged E cfg pid mall_id t w v)
    (h : Unchanged NotTime v u) : Logged E cfg pid mall_id t w u where
  counted n hn := by rw [h.counter]; exact l.counted n hn
  counters m s ne := by rw [h.counter, l.counters m s ne]
  remembered hit := by rw [h.timeSet, l.remembered hit]
  forgotten miss z hz := by rw [h.timeSet, l.forgotten miss z hz]
  others m ne := by rw [h.timeSet, l.others m ne]
  last := by rw [h.last, l.last]
  lasts p m ne := by rw [h.last, l.lasts p m ne]

theorem lastSlice_setLast (w : World) (pid : Nat) (mall_id : Int32) (s : Stamp) (pid' : Nat)
    (m : Int32) :
    (w.setProcess pid { w.process pid with
      last_date_time_map := Function.update (w.process pid).last_date_time_map mall_id (some s) }
      ).lastSlice pid' m =
      if (pid', m) = (pid, mall_id) then some s else w.lastSlice pid' m := by
  by_cases p : pid' = pid
  · subst p
    by_cases same : m = mall_id
    · subst same
      simp [World.lastSlice]
    · simp [World.lastSlice, same]
  · simp [World.lastSlice, World.setProcess, p]

/-- The slice is registered, or the process remembers having done so. -/
theorem wp_registerTimeSlice (redis : E.type = .redis) (answered : ¬E.lossy) {w : World}
    {Q : Except Exn Unit → World → Prop}
    (hit : w.lastSlice pid mall_id = some (sliceOf cfg t.toInt) → Q (.ok ()) w)
    (miss : w.lastSlice pid mall_id ≠ some (sliceOf cfg t.toInt) → ∀ v,
      (∀ k : Key, k ≠ .logDataTimeSet mall_id.toInt → v.db k.text = w.db k.text) →
      (∀ z, timeSet w mall_id = some z →
        timeSet v mall_id = some (CBaseMdb.zaddEffect E.m t (timeMember t) z)) →
      (∀ pid' m, v.lastSlice pid' m = if (pid', m) = (pid, mall_id) then
        some (sliceOf cfg t.toInt) else w.lastSlice pid' m) → Q (.ok ()) v) :
    (registerTimeSlice mall_id (sliceOf cfg t.toInt) t).wp (exec E pid) Q w := by
  rintro last v ⟨rfl, rfl⟩
  simp only [Prog.bind, whenM]
  split
  · rename_i forgotten
    intro r u added _ v' kept
    refine miss forgotten v' ?_ ?_ ?_
    · intro k ne
      rw [kept]
      exact exec_frame added fun touches => ne touches.symm
    · intro z hz
      have hdb := E.answered_db answered added.1
      have run : u.db = (CBaseMdb.zadd .redis E.m .string
          (Key.logDataTimeSet mall_id.toInt).text t.toInt (timeMember t) v.db).2 := by
        rw [hdb, redis]
        rfl
      rw [kept]
      simp only [timeSet, setProcess_db, run]
      exact CBaseMdb.redis_zadd hz
    · intro pid' m
      have same : u.lastSlice pid' m = v.lastSlice pid' m := by rw [added.2]; rfl
      rw [kept, lastSlice_setLast, same]
  · rename_i remembered
    exact hit (not_not.mp remembered)

theorem wp_userLocationLogAdd (redis : E.type = .redis) (answered : ¬E.lossy) {mac : UInt64}
    {x y : Rat} {z : Int32} {w : World} {Q : Except Exn Unit → World → Prop}
    (h : ∀ v, Logged E cfg pid mall_id t w v → Q (.ok ()) v) :
    (userLocationLogAdd cfg mac x y z mall_id t).wp (exec E pid) Q w := by
  intro log_id w1 drawn _ w2 saved
  obtain rfl : w2 = w1 := saved
  have later (k : Key) (ne : k ≠ .logCounter mall_id.toInt (sliceOf cfg t.toInt)) :
      w2.db k.text = w.db k.text := exec_frame drawn fun touches => ne touches.symm
  have last (p : Nat) (m : Int32) : w2.lastSlice p m = w.lastSlice p m := by
    rw [drawn.2]; rfl
  have counted (n : Nat) (hn : CBaseMdb.Counted .redis
      (w.db (Key.logCounter mall_id.toInt (sliceOf cfg t.toInt)).text) n) : CBaseMdb.Counted .redis
      (w2.db (Key.logCounter mall_id.toInt (sliceOf cfg t.toInt)).text) (n + 1) := by
    have hdb := E.answered_db answered drawn.1
    rw [hdb, redis]
    exact (CBaseMdb.incr_counted hn).2
  have sets (m : Int32) : timeSet w2 m = timeSet w m := by
    simp only [timeSet, later _ (show Key.logDataTimeSet m.toInt ≠ _ by simp)]
  have after (v : World) (l : Logged E cfg pid mall_id t w v) :
      (indexSighting mac x y z mall_id t (sliceOf cfg t.toInt) log_id).wp (exec E pid) Q v := by
    have within : (indexSighting mac x y z mall_id t (sliceOf cfg t.toInt) log_id).Every
        (Within NotTime) :=
      every_indexSighting ⟨by simp, by simp⟩ ⟨by simp, by simp⟩ fun _ => ⟨by simp, by simp⟩
    exact wp_quiet_end within noThrow_indexSighting fun _ u same => h u (l.before same)
  change (registerTimeSlice mall_id (sliceOf cfg t.toInt) t >>= fun _ =>
    indexSighting mac x y z mall_id t (sliceOf cfg t.toInt) log_id).wp (exec E pid) Q w2
  rw [Prog.wp_bind]
  apply wp_registerTimeSlice redis answered
  · intro hit
    rw [last] at hit
    apply after
    exact {
      counted := counted
      counters := fun m s ne => later _ ne
      remembered := fun _ => sets mall_id
      forgotten := fun miss => absurd hit miss
      others := fun m _ => sets m
      last := by rw [last, hit]
      lasts := fun p m _ => last p m }
  · intro miss v same new lasts
    rw [last] at miss
    apply after
    exact {
      counted := fun n hn => by rw [same _ (by simp)]; exact counted n hn
      counters := fun m s ne => by rw [same _ (by simp), later _ ne]
      remembered := fun hit => absurd hit miss
      forgotten := fun _ z hz => new z (by rw [sets, hz])
      others := fun m ne => by
        simp only [timeSet, same (.logDataTimeSet m.toInt) (by simpa [Int32.toInt_inj] using ne)]
        exact sets m
      last := by rw [lasts, if_pos rfl]
      lasts := fun p m ne => by rw [lasts, if_neg ne, last] }

theorem wp_recordSighting (redis : E.type = .redis) (answered : ¬E.lossy) (mac : UInt64)
    (x y : Rat) (z : Int32) (w : World) :
    (recordSighting cfg mac x y z mall_id t).wp (exec E pid)
      (fun _ v => Logged E cfg pid mall_id t w v) w := by
  have location (prop : LocationProp) : NotTime (.location mall_id.toInt mac prop) :=
    ⟨by simp, by simp⟩
  refine wp_quiet (every_tairSetUserProp (location _)) (fun _ => trivial) (.refl w)
    fun _ v same => ?_
  refine wp_quiet (every_tairSetUserProp (location _)) (fun _ => trivial) same fun _ v same => ?_
  refine wp_quiet (every_whenM fun _ => every_tairSetUserProp (location _))
    (noThrow_whenM fun _ => trivial) same fun _ v same => ?_
  refine wp_quiet (every_get (location _)) (fun _ => trivial) same fun t_pre v same => ?_
  refine wp_quiet (every_tairSetUserProp (location _)) (fun _ => trivial) same fun _ v same => ?_
  have update : NotTime (.locationUpdateTime (getDateStr cfg.localtime t.toInt) mall_id.toInt) :=
    ⟨by simp, by simp⟩
  refine wp_quiet (every_zadd update) (fun _ => trivial) same fun _ v same => ?_
  rw [Prog.wp_bind]
  apply wp_userLocationLogAdd redis answered
  intro u l
  have rest : (creditUser cfg mac mall_id t_pre t).Every (Within NotTime) :=
    every_creditUser ⟨by simp, by simp⟩ (fun _ => ⟨by simp, by simp⟩)
      (fun _ _ => ⟨by simp, by simp⟩) (fun _ => ⟨by simp, by simp⟩) ⟨by simp, by simp⟩
      (fun _ => ⟨by simp, by simp⟩)
  exact Prog.wp_mono _ (wp_frame rest u) fun _ _ later => (l.after same).before later

/-- A call that is not stopped by the initialisation logs its sighting. -/
theorem call_logged (redis : E.type = .redis) (answered : ¬E.lossy) {s : Sighting} {w w' : World}
    {x : Except Exn Int32} (runs : Call E cfg w s t x w') :
    Logged E cfg s.pid s.mall_id t w w' ∨ x = .error .initFailed ∧ Unchanged NotTime w w' := by
  apply runs.post (Q := fun x w' => Logged E cfg s.pid s.mall_id t w w' ∨
    x = .error .initFailed ∧ Unchanged NotTime w w')
  apply wp_userAdd (t := t) rfl
  · intro v _ _ same
    exact Or.inr ⟨rfl, ⟨fun k _ => same.db k not_false, fun m _ => same.lastSlice m not_false,
        fun _ => same.users fun _ => not_false⟩⟩
  · intro v _ _ same
    have unchanged : Unchanged NotTime w v :=
      ⟨fun k _ => same.db k not_false, fun m _ => same.lastSlice m not_false,
        fun _ => same.users fun _ => not_false⟩
    apply Prog.wp_mono _ (wp_recordSighting redis answered s.mac s.x s.y s.z v)
    exact fun _ u l => Or.inl (l.after unchanged)

/-! ## Slices with data and registered slices -/

/-- The counter of the slice is positive. -/
def HasData (w : World) (mall_id : Int32) (slice : Stamp) : Prop :=
  ∃ v, counterAt (w.db (Key.logCounter mall_id.toInt slice).text) = some v ∧ 0 < v

/-- `member` has a score inside the slice. -/
def ListedBy (cfg : Config) (w : World) (mall_id : Int32) (slice : Stamp) (member : Text) : Prop :=
  ∃ z, ∃ score : Int, timeSet w mall_id = some z ∧ z.lookup member = some (score : Rat) ∧
    sliceOf cfg score = slice

/-- `data.time.set` has a member whose score is a clock reading inside the slice. -/
def Registered (cfg : Config) (h : List (Sighting × Int64)) (w : World) (mall_id : Int32)
    (slice : Stamp) : Prop :=
  ∃ z member, ∃ score : Int, timeSet w mall_id = some z ∧ z.lookup member = some (score : Rat) ∧
    sliceOf cfg score = slice ∧ ∃ r ∈ h, score = r.2.toInt

def AllRegistered (cfg : Config) (h : List (Sighting × Int64)) (w : World) : Prop :=
  ∀ mall_id slice, HasData w mall_id slice → Registered cfg h w mall_id slice

/-- The process has just logged the slice; or hiredis makes one argument of the
member, and that member was not the only one of another slice with data; or it
does not, and the slice is registered already. -/
def Registers (E : Env) (cfg : Config) (w : World) (s : Sighting) (t : Int64) : Prop :=
  w.lastSlice s.pid s.mall_id = some (sliceOf cfg t.toInt) ∨
    match CBaseMdb.oneArg E.m (timeMember t) with
    | some x => ∀ slice, slice ≠ sliceOf cfg t.toInt → HasData w s.mall_id slice →
        ∃ member, member ≠ x ∧ ListedBy cfg w s.mall_id slice member
    | none => ∃ member, ListedBy cfg w s.mall_id (sliceOf cfg t.toInt) member

structure TimeInv (h : List (Sighting × Int64)) (w : World) : Prop where
  readings : ∀ m, ∃ z, timeSet w m = some z ∧
    ∀ member score, z.lookup member = some score → ∃ r ∈ h, score = (r.2.toInt : Rat)
  counters : ∀ (m : Int32) s, ∃ n, CBaseMdb.Counted .redis (w.db (Key.logCounter m.toInt s).text) n
  remembered : ∀ pid m s, w.lastSlice pid m = some s → HasData w m s

theorem hasData_iff {w : World} {slice : Stamp} {n : Nat}
    (h : CBaseMdb.Counted .redis (w.db (Key.logCounter mall_id.toInt slice).text) n) :
    HasData w mall_id slice ↔ 0 < n := by
  simp only [CBaseMdb.Counted, CBaseMdb.counterMax] at h
  simp only [HasData, h, Option.some.injEq, exists_eq_left']
  omega

theorem TimeInv.start {w : World} (fresh : w.Fresh) : TimeInv [] w where
  readings m := ⟨∅, by simp [timeSet, fresh.db, Db.empty, zsetAt], by simp⟩
  counters m s := ⟨0, by simpa [fresh.db, Db.empty] using CBaseMdb.counted_none⟩
  remembered pid m s hs := by simp [World.lastSlice, fresh.process, Process.fresh] at hs

theorem registered_iff {h : List (Sighting × Int64)} {w : World} (inv : TimeInv h w)
    {slice : Stamp} :
    Registered cfg h w mall_id slice ↔ ∃ member, ListedBy cfg w mall_id slice member := by
  constructor
  · rintro ⟨z, member, score, hz, hm, hs, -⟩
    exact ⟨member, z, score, hz, hm, hs⟩
  · rintro ⟨member, z, score, hz, hm, hs⟩
    obtain ⟨z', hz', read⟩ := inv.readings mall_id
    rw [hz] at hz'
    cases hz'
    obtain ⟨r, hr, e⟩ := read member score hm
    exact ⟨z, member, score, hz, hm, hs, r, hr, by exact_mod_cast e⟩

section
variable {h : List (Sighting × Int64)} {s : Sighting} {w w' : World}

theorem Logged.hasData (l : Logged E cfg s.pid s.mall_id t w w') (inv : TimeInv h w) (m : Int32)
    (slice : Stamp) : HasData w' m slice ↔
      HasData w m slice ∨ m = s.mall_id ∧ slice = sliceOf cfg t.toInt := by
  obtain ⟨n, hn⟩ := inv.counters m slice
  by_cases here : m = s.mall_id ∧ slice = sliceOf cfg t.toInt
  · obtain ⟨rfl, rfl⟩ := here
    have := (hasData_iff (l.counted n hn)).mpr (by omega)
    simp [this]
  · have ne : Key.logCounter m.toInt slice ≠
        .logCounter s.mall_id.toInt (sliceOf cfg t.toInt) := by
      simpa [Int32.toInt_inj] using here
    simp only [HasData, l.counters _ _ ne, here, or_false]

/-- The set after a call, whether or not the call tried to add to it. -/
theorem Logged.timeSet_eq (l : Logged E cfg s.pid s.mall_id t w w') {z : AList fun _ : Text => Rat}
    (hz : timeSet w s.mall_id = some z) : timeSet w' s.mall_id =
      some (if w.lastSlice s.pid s.mall_id = some (sliceOf cfg t.toInt) then z
        else CBaseMdb.zaddEffect E.m t (timeMember t) z) := by
  split
  · rename_i hit
    rw [l.remembered hit, hz]
  · rename_i miss
    exact l.forgotten miss z hz

theorem mem_zaddEffect {m : Machine} {v member : Text} {z : AList fun _ : Text => Rat}
    {t : Int64} {score : Rat} (hm : (CBaseMdb.zaddEffect m t v z).lookup member = some score) :
    z.lookup member = some score ∨ score = t.toInt := by
  unfold CBaseMdb.zaddEffect at hm
  split at hm
  · rename_i x _
    by_cases same : member = x
    · subst same
      rw [AList.lookup_insert] at hm
      exact Or.inr (Option.some.inj hm).symm
    · rw [AList.lookup_insert_ne same] at hm
      exact Or.inl hm
  · exact Or.inl hm

theorem Logged.inv (l : Logged E cfg s.pid s.mall_id t w w') (inv : TimeInv h w) :
    TimeInv (h ++ [(s, t)]) w' where
  readings m := by
    obtain ⟨z, hz, read⟩ := inv.readings m
    by_cases here : m = s.mall_id
    · subst here
      refine ⟨_, l.timeSet_eq hz, ?_⟩
      intro member score hm
      have known : z.lookup member = some score ∨ score = (t.toInt : Rat) := by
        split at hm
        · exact Or.inl hm
        · exact mem_zaddEffect hm
      cases known with
      | inl old =>
        obtain ⟨r, hr, e⟩ := read member score old
        exact ⟨r, List.mem_append_left _ hr, e⟩
      | inr new => exact ⟨(s, t), by simp, new⟩
    · refine ⟨z, by rw [l.others m here, hz], ?_⟩
      intro member score hm
      obtain ⟨r, hr, e⟩ := read member score hm
      exact ⟨r, List.mem_append_left _ hr, e⟩
  counters m slice := by
    obtain ⟨n, hn⟩ := inv.counters m slice
    by_cases here : Key.logCounter m.toInt slice = .logCounter s.mall_id.toInt (sliceOf cfg t.toInt)
    · rw [here] at hn ⊢
      exact ⟨n + 1, l.counted n hn⟩
    · exact ⟨n, by rwa [l.counters _ _ here]⟩
  remembered pid m slice hs := by
    rw [l.hasData inv]
    by_cases here : (pid, m) = (s.pid, s.mall_id)
    · obtain ⟨rfl, rfl⟩ := Prod.mk.inj here
      rw [l.last] at hs
      exact Or.inr ⟨rfl, (Option.some.inj hs).symm⟩
    · rw [l.lasts pid m here] at hs
      exact Or.inl (inv.remembered pid m slice hs)

theorem listedBy_of_timeSet {v v' : World} {m : Int32} (same : timeSet v' m = timeSet v m)
    (slice : Stamp) (member : Text) :
    ListedBy cfg v' m slice member ↔ ListedBy cfg v m slice member := by
  simp only [ListedBy, same]

/-- A member that was added lists the slice of the reading and no other. -/
theorem listedBy_insert {v v' : World} {m : Int32} {z : AList fun _ : Text => Rat} {x : Text}
    {score : Int} (hz : timeSet v m = some z) (hz' : timeSet v' m = some (z.insert x (score : Rat)))
    (slice : Stamp) (member : Text) : ListedBy cfg v' m slice member ↔
      member = x ∧ slice = sliceOf cfg score ∨ member ≠ x ∧ ListedBy cfg v m slice member := by
  by_cases same : member = x
  · subst same
    simp [ListedBy, hz', AList.lookup_insert, eq_comm]
  · simp [ListedBy, hz, hz', AList.lookup_insert_ne same, same]

/-- A call that finds all slices with data registered leaves them so exactly
when it `Registers` its own and displaces no other. -/
theorem Logged.allRegistered_iff (l : Logged E cfg s.pid s.mall_id t w w') (inv : TimeInv h w)
    (all : AllRegistered cfg h w) :
    AllRegistered cfg (h ++ [(s, t)]) w' ↔ Registers E cfg w s t := by
  have old (m : Int32) (slice : Stamp) (hd : HasData w m slice) :
      ∃ member, ListedBy cfg w m slice member := (registered_iff inv).mp (all m slice hd)
  have here : AllRegistered cfg (h ++ [(s, t)]) w' ↔
      ∀ slice, HasData w s.mall_id slice ∨ slice = sliceOf cfg t.toInt →
        ∃ member, ListedBy cfg w' s.mall_id slice member := by
    constructor
    · intro ok slice hd
      apply (registered_iff (l.inv inv)).mp
      apply ok
      rw [l.hasData inv]
      exact hd.imp_right fun e => ⟨rfl, e⟩
    · intro ok m slice hd
      apply (registered_iff (l.inv inv)).mpr
      rw [l.hasData inv] at hd
      by_cases same : m = s.mall_id
      · subst same
        exact ok slice (hd.imp_right And.right)
      · have before : HasData w m slice := hd.resolve_right fun e => same e.1
        obtain ⟨member, listed⟩ := old m slice before
        exact ⟨member, (listedBy_of_timeSet (l.others m same) slice member).mpr listed⟩
  rw [here]
  obtain ⟨z, hz, -⟩ := inv.readings s.mall_id
  by_cases hit : w.lastSlice s.pid s.mall_id = some (sliceOf cfg t.toInt)
  · have same : timeSet w' s.mall_id = timeSet w s.mall_id := l.remembered hit
    constructor
    · exact fun _ => Or.inl hit
    · intro _ slice hd
      have before : HasData w s.mall_id slice := by
        rcases hd with hd | rfl
        · exact hd
        · exact inv.remembered _ _ _ hit
      obtain ⟨member, listed⟩ := old s.mall_id slice before
      exact ⟨member, (listedBy_of_timeSet same slice member).mpr listed⟩
  · have added := l.forgotten hit z hz
    simp only [Registers, hit, false_or]
    cases arg : CBaseMdb.oneArg E.m (timeMember t) with
    | none =>
      have same : timeSet w' s.mall_id = timeSet w s.mall_id := by
        rw [added, hz, CBaseMdb.zaddEffect, arg]
      simp only [listedBy_of_timeSet same]
      constructor
      · exact fun ok => ok _ (Or.inr rfl)
      · rintro listed slice (hd | rfl)
        · exact old s.mall_id slice hd
        · exact listed
    | some x =>
      have insert : timeSet w' s.mall_id = some (z.insert x (t.toInt : Rat)) := by
        rw [added, CBaseMdb.zaddEffect, arg]
      simp only [listedBy_insert hz insert]
      constructor
      · intro ok slice other hd
        obtain ⟨member, ⟨-, e⟩ | kept⟩ := ok slice (Or.inl hd)
        · exact absurd e other
        · exact ⟨member, kept⟩
      · intro kept slice hd
        by_cases e : slice = sliceOf cfg t.toInt
        · exact ⟨x, Or.inl ⟨rfl, e⟩⟩
        · obtain ⟨member, ne, listed⟩ := kept slice e (hd.resolve_right e)
          exact ⟨member, Or.inr ⟨ne, listed⟩⟩

theorem Unchanged.timeInv (u : Unchanged NotTime w w') (inv : TimeInv h w) :
    TimeInv (h ++ [(s, t)]) w' where
  readings m := by
    obtain ⟨z, hz, read⟩ := inv.readings m
    refine ⟨z, by rw [u.timeSet, hz], fun member score hm => ?_⟩
    obtain ⟨r, hr, e⟩ := read member score hm
    exact ⟨r, List.mem_append_left _ hr, e⟩
  counters m slice := by
    rw [u.counter]
    exact inv.counters m slice
  remembered pid m slice hs := by
    rw [u.last] at hs
    simp only [HasData, u.counter]
    exact inv.remembered pid m slice hs

theorem Unchanged.allRegistered (u : Unchanged NotTime w w') (all : AllRegistered cfg h w) :
    AllRegistered cfg (h ++ [(s, t)]) w' := by
  intro m slice hd
  simp only [HasData, u.counter] at hd
  obtain ⟨z, member, score, hz, hm, hs, r, hr, e⟩ := all m slice hd
  exact ⟨z, member, score, by rw [u.timeSet, hz], hm, hs, r, List.mem_append_left _ hr, e⟩

end

/-! ## Runs -/

/-- What holds after calls each of which `Registers` its slice. -/
theorem calls_registered (redis : E.type = .redis) (answered : ¬E.lossy) {w0 : World}
    (fresh : w0.Fresh) {h : List (Sighting × Int64)} {w : World}
    (run : Calls E cfg (fun w s t _ => Registers E cfg w s t) w0 h w) :
    TimeInv h w ∧ AllRegistered cfg h w := by
  induction run with
  | start =>
    refine ⟨TimeInv.start fresh, fun m slice hd => ?_⟩
    have none : ¬HasData w0 m slice := by
      rw [hasData_iff (n := 0) (by simpa [fresh.db, Db.empty] using CBaseMdb.counted_none)]
      exact lt_irrefl 0
    exact absurd hd none
  | call _ registers runs ih =>
    obtain ⟨inv, all⟩ := ih
    rcases call_logged redis answered runs with l | ⟨-, u⟩
    · exact ⟨l.inv inv, (l.allRegistered_iff inv all).mpr registers⟩
    · exact ⟨u.timeInv inv, u.allRegistered all⟩

/-- On Redis, in every run of `user_add` calls each of which `Registers` its
slice, every slice with data is registered, and the next call leaves it so
exactly when it does the same. -/
theorem slices_registered_iff (redis : E.type = .redis) (answered : ¬E.lossy) {w0 : World}
    (fresh : w0.Fresh) {h : List (Sighting × Int64)} {w : World}
    (run : Calls E cfg (fun w s t _ => Registers E cfg w s t) w0 h w) :
    AllRegistered cfg h w ∧
      ∀ s t x w', Call E cfg w s t x w' → x ≠ .error .initFailed →
        (AllRegistered cfg (h ++ [(s, t)]) w' ↔ Registers E cfg w s t) := by
  obtain ⟨inv, all⟩ := calls_registered redis answered fresh run
  refine ⟨all, ?_⟩
  intro s t x w' runs started
  rcases call_logged redis answered runs with l | ⟨failed, -⟩
  · exact l.allRegistered_iff inv all
  · exact absurd failed started

/-- The reading 65 is sent as the letter A and registers its slice, for the call at 66 too. The
reading 65536 begins with a zero byte and comes into another slice. -/
theorem slices_registered_iff_letter :
    ∃ w, Calls (plainEnv .redis) firstDay (fun w s t _ => Registers (plainEnv .redis) firstDay w s t)
        (World.fresh (fun _ => none) []) [(sightingOf 5, 65), (sightingOf 6, 66)] w ∧
      HasData w 2 (sliceOf firstDay 65) ∧
      AllRegistered firstDay [(sightingOf 5, 65), (sightingOf 6, 66)] w ∧
      ∃ x w', Call (plainEnv .redis) firstDay w (sightingOf 5) 65536 x w' ∧ ¬AllRegistered firstDay
        [(sightingOf 5, 65), (sightingOf 6, 66), (sightingOf 5, 65536)] w' := by
  have computed : (callOf (plainEnv .redis) (World.fresh (fun _ => none) []) (sightingOf 5) 65).bind (fun r =>
      (callOf (plainEnv .redis) r.2 (sightingOf 6) 66).bind fun q =>
        (callOf (plainEnv .redis) q.2 (sightingOf 5) 65536).map fun u =>
          (r.2.lastSlice 0 2, counterAt (q.2.db (Key.logCounter 2 (sliceOf firstDay 65)).text),
            q.2.lastSlice 0 2, (timeSet q.2 2).map fun z => z.entries.all fun e => decide (e.2 = 65),
            u.1.toOption.isSome)) =
      some (some (sliceOf firstDay 65), some 2, some (sliceOf firstDay 65), some true, true) := by decide +kernel
  obtain ⟨⟨x1, w1⟩, first, rest⟩ := Option.bind_eq_some_iff.mp computed
  obtain ⟨⟨x2, w2⟩, second, rest⟩ := Option.bind_eq_some_iff.mp rest
  obtain ⟨⟨x3, w3⟩, third, ends⟩ := Option.map_eq_some_iff.mp rest
  simp only [Prod.mk.injEq] at ends
  obtain ⟨last, counter, last', entries, ok⟩ := ends
  have fresh := World.fresh_is_fresh (fun _ => none) []
  have letter : CBaseMdb.oneArg Machine.plain (timeMember 65) = some ['A'] := by decide +kernel
  have empty : CBaseMdb.oneArg Machine.plain (timeMember 65536) = none := by decide +kernel
  have registers : Registers (plainEnv .redis) firstDay (World.fresh (fun _ => none) [])
      (sightingOf 5) 65 := by
    right
    rw [letter]
    intro slice _ hd
    rw [hasData_iff (n := 0) CBaseMdb.counted_none] at hd
    exact absurd hd (lt_irrefl 0)
  have run := (Calls.call (C := fun w s t _ => Registers (plainEnv .redis) firstDay w s t) .start
    registers (call_of_callOf rfl rfl first)).call (Or.inl last) (call_of_callOf rfl rfl second)
  obtain ⟨all, next⟩ := slices_registered_iff rfl not_false fresh run
  have lost : ¬Registers (plainEnv .redis) firstDay w2 (sightingOf 5) 65536 := by
    rintro (logged | listed)
    · exact absurd (last'.symm.trans logged) (by decide +kernel)
    · rw [empty] at listed
      obtain ⟨member, z, score, hz, hm, slice⟩ := listed
      rw [show timeSet w2 2 = some z from hz] at entries
      have read : (score : Rat) = 65 := of_decide_eq_true
        (List.all_eq_true.mp (Option.some.inj entries) _ (AList.mem_lookup_iff.mp hm))
      obtain rfl : score = 65 := by exact_mod_cast read
      exact absurd slice (by decide +kernel)
  have started : x3 ≠ .error .initFailed := by
    rintro rfl
    cases ok
  have iff := next _ _ _ _ (call_of_callOf rfl rfl third) started
  exact ⟨w2, run, ⟨2, counter, by decide⟩, all, x3, w3, call_of_callOf rfl rfl third, fun h => lost (iff.mp h)⟩

/-- The lowest byte of the reading 256 is zero, so no member is sent, Redis
rejects the command, and the slice has data but is not registered. -/
theorem slice_lost_at_zero_byte :
    ∃ x w, Call (plainEnv .redis) firstDay (World.fresh (fun _ => none) []) (sightingOf 5) 256 x w ∧
      HasData w 2 (sliceOf firstDay 256) ∧
      ¬Registered firstDay [(sightingOf 5, 256)] w 2 (sliceOf firstDay 256) := by
  have logged : (callOf (plainEnv .redis) (World.fresh (fun _ => none) []) (sightingOf 5) 256).map
      (fun r => (counterAt (r.2.db (Key.logCounter 2 (sliceOf firstDay 256)).text),
        (timeSet r.2 2).map AList.entries)) = some (some 1, some []) := by decide +kernel
  obtain ⟨⟨x, w⟩, runs, both⟩ := Option.map_eq_some_iff.mp logged
  obtain ⟨counter, entries⟩ := Prod.mk.inj both
  refine ⟨x, w, call_of_callOf rfl rfl runs, ⟨1, counter, by decide⟩, ?_⟩
  rintro ⟨z, member, score, hz, hm, -⟩
  rw [hz] at entries
  have empty : z.entries = [] := Option.some.inj entries
  rw [AList.lookup, empty] at hm
  cases hm

end UserMap

end SimpleDsp
