import SimpleDsp.Register.AdTable

/-!
# Processes at one table

Calls of `add_ad` and `load_shared_data` that run side by side, one access at a time.
`add_ad` takes its index from the number in one step; `load_shared_data` reads the number
with the header and writes it back at the end.

* `steps_of_addAd`: a call that runs alone is one of `addAd`;
* `table_sound`: while no index is taken between such a read and its write, indices are
  distinct, no two processes write one ad, and a valid ad is complete;
* `ads_stay`: and ads that were added stay;
* `taken_before_iff`: otherwise the next index has been taken before.

Mappings are taken to be as long as the table.
-/

namespace SimpleDsp.Register.Processes

open DecimalText

structure Head where
  size : Int32
  number : Int32

/-- Where a process is: `opened` and `mapped` in `load_shared_data`, before and behind
`mmap`; `indexed` and `filled` in `add_ad`, before and behind the loop. -/
inductive Place
  | starting
  | opened (head : Head)
  | mapped (number : Int32)
  | serving
  | indexed (index : Int32) (a : Adding)
  | filled (index : Int32)
  | gone

structure State where
  size : Int32
  number : Int32
  list : Nat → AdInfo
  place : Nat → Place
  /-- The numbers that were taken, in order. -/
  taken : List Int32
  /-- The ads of the calls that have returned. -/
  finished : Nat → Option AdInfo

def State.goes (s : State) (p : Nat) (at_ : Place) : State :=
  { s with place := Function.update s.place p at_ }

/-- `atomic_fetch_add_explicit(& g_p_ad_data->number,1, ...)` -/
def State.take (s : State) : State :=
  { s with number := s.number + 1, taken := s.taken ++ [s.number] }

theorem goes_place (s : State) (p : Nat) (at_ : Place) (q : Nat) :
    (s.goes p at_).place q = if q = p then at_ else s.place q := Function.update_apply ..

def slot (index : Int32) : Nat := index.toInt.toNat

def State.write (s : State) (i : Nat) (ad : AdInfo) : State :=
  { s with list := Function.update s.list i ad }

def State.finish (s : State) (i : Nat) (ad : AdInfo) : State :=
  { s.write i ad with finished := Function.update s.finished i (some ad) }

/-- `newAd` after the loop, and whether the loop has come to its end. -/
def loop (d : Doubles) (F : Floats) (s : State) (index : Int32) (a : Adding) : Filling × Bool :=
  Filling.read d F ⟨{ s.list (slot index) with ad_id := index }, a.i_ad_type⟩ a.query

/-- The end of `add_ad`. -/
def published (ad : AdInfo) : AdInfo := { ad with show_counter := 0, click_counter := 0, valid := 1 }

section
variable (d : Doubles) (F : Floats)

/-- An index below zero is outside the list; what follows is undefined. `count` is the
request of an `adstat`. -/
inductive Step : State → Nat → State → Prop
  | open_ {s : State} {p : Nat} (here : s.place p = .starting) :
      Step s p (s.goes p (.opened ⟨s.size, s.number⟩))
  | giveSize {s : State} {p : Nat} {head : Head} (here : s.place p = .opened head)
      (unsized : head.size ≤ 0) :
      Step s p ({ s with size := listSize head.number }.goes p (.mapped head.number))
  | reopen {s : State} {p : Nat} {head : Head} (here : s.place p = .opened head)
      (sized : ¬head.size ≤ 0) : Step s p (s.goes p (.mapped head.number))
  | initNumber {s : State} {p : Nat} {number : Int32} (here : s.place p = .mapped number) :
      Step s p ({ s with number }.goes p .serving)
  | take {s : State} {p : Nat} (here : s.place p = .serving) (a : Adding) :
      Step s p (s.take.goes p (.indexed s.number a))
  | reject {s : State} {p : Nat} {index : Int32} {a : Adding} (here : s.place p = .indexed index a)
      (full : s.size ≤ index) : Step s p (s.goes p .serving)
  | fill {s : State} {p : Nat} {index : Int32} {a : Adding} {f : Filling}
      (here : s.place p = .indexed index a) (room : ¬s.size ≤ index) (inside : 0 ≤ index)
      (done : loop d F s index a = (f, true)) :
      Step s p ((s.write (slot index) f.newAd).goes p (.filled index))
  | tear {s : State} {p : Nat} {index : Int32} {a : Adding} {f : Filling}
      (here : s.place p = .indexed index a) (room : ¬s.size ≤ index) (inside : 0 ≤ index)
      (died : loop d F s index a = (f, false)) :
      Step s p ((s.write (slot index) f.newAd).goes p .gone)
  | publish {s : State} {p : Nat} {index : Int32} (here : s.place p = .filled index) :
      Step s p ((s.finish (slot index) (published (s.list (slot index)))).goes p .serving)
  | count {s : State} {p : Nat} (here : s.place p = .serving) : Step s p s.take
  | exit (s : State) (p : Nat) : Step s p (s.goes p .gone)

/-- Runs in which `P` holds whenever a number is taken. -/
inductive Run (P : State → Prop) (s0 : State) : State → Prop
  | start : Run P s0 s0
  | next {s s' : State} {p : Nat} (before : Run P s0 s) (step : Step d F s p s')
      (taking : s'.taken ≠ s.taken → P s) : Run P s0 s'

end

/-- The number that a process is going to write back. -/
def Place.holds : Place → Option Int32
  | .opened head => some head.number
  | .mapped number => some number
  | _ => none

/-- The index that a process writes at. -/
def Place.owns : Place → Option Int32
  | .indexed index _ => some index
  | .filled index => some index
  | _ => none

/-- A number is left, and no process is opening the table. -/
structure Quiet (s : State) : Prop where
  left : s.number ≠ Int32.maxValue
  unopened : ∀ p, (s.place p).holds = none

/-- Nobody has opened the table; the ads in it are complete. -/
structure Start (s : State) : Prop where
  place : ∀ p, s.place p = .starting
  taken : s.taken = []
  number : 0 ≤ s.number
  finished : ∀ i, s.finished i = if i < slot s.number then some (s.list i) else none
  blank : ∀ i, ¬i < slot s.number → (s.list i).valid = 0

/-! ## A call alone -/

section
variable {d : Doubles} {F : Floats} {K : Kernel} {P : State → Prop} {s0 s s' : State} {p : Nat}

/-- The file that holds the table. -/
def State.file (s : State) (length : Nat) : Stored AdInfo := ⟨length, s.size, s.number, s.list⟩

theorem Run.other (run : Run d F P s0 s) (step : Step d F s p s') (same : s'.taken = s.taken) :
    Run d F P s0 s' :=
  run.next step fun changed => absurd same changed

theorem Run.trans {s'' : State} (run : Run d F P s s') (run' : Run d F P s' s'') :
    Run d F P s s'' := by
  induction run' with
  | start => exact run
  | next _ step taking ih => exact ih.next step taking

/-- A call of `add_ad` that returns is one of the runs, if nobody comes between. -/
theorem steps_of_addAd {length got : Nat} {a : Adding} {f : Stored AdInfo} {code : Int32}
    (serving : s.place p = .serving) (holds : P s)
    (call : addAd K d F got a (s.file length) = some (f, .returns code)) :
    ∃ s', Run d F P s s' ∧ s'.file length = f ∧ s'.place p = .serving := by
  have taken : Run d F P s (s.take.goes p (.indexed s.number a)) :=
    Run.start.next (.take serving a) fun _ => holds
  have here : (s.take.goes p (.indexed s.number a)).place p = .indexed s.number a :=
    Function.update_self ..
  unfold addAd at call
  dsimp only at call
  by_cases full : (s.file length).size ≤ (s.file length).number
  · rw [if_pos full] at call
    obtain ⟨rfl, -⟩ := Prod.mk.inj (Option.some.inj call)
    exact ⟨_, taken.other (.reject here full) rfl, rfl,
      Function.update_self ..⟩
  · rw [if_neg full] at call
    by_cases outside : (s.file length).number < 0 ∨
        got < adData.itemEnd (s.file length).number.toInt.toNat
    · rw [if_pos outside] at call
      cases call
    · rw [if_neg outside] at call
      by_cases short : K.roundUp (s.file length).length <
          adData.itemEnd (s.file length).number.toInt.toNat
      · rw [if_pos short] at call
        cases (Prod.mk.inj (Option.some.inj call)).2
      · rw [if_neg short] at call
        rcases done : loop d F s s.number a with ⟨filling, whole⟩
        have read : Filling.read d F ⟨{ (s.file length).list (s.file length).number.toInt.toNat with
            ad_id := (s.file length).number }, a.i_ad_type⟩ a.query = (filling, whole) := done
        rw [read] at call
        cases whole with
        | false => cases (Prod.mk.inj (Option.some.inj call)).2
        | true =>
          obtain ⟨rfl, -⟩ := Prod.mk.inj (Option.some.inj call)
          have inside : 0 ≤ s.number := Int32.not_lt.mp fun below => outside (Or.inl below)
          have filled := taken.other (.fill here full inside done) rfl
          have there : (((s.take.goes p (.indexed s.number a)).write (slot s.number)
              filling.newAd).goes p (.filled s.number)).place p = .filled s.number :=
            Function.update_self ..
          have ended := filled.other (.publish there) rfl
          refine ⟨_, ended, ?_, Function.update_self ..⟩
          simp [State.file, State.goes, State.finish, State.write, State.take, Stored.put, slot,
            published]

end

/-! ## While no index is taken during an opening -/

section
variable {d : Doubles} {F : Floats} {s0 s s' : State} {p : Nat}

theorem set_valid (f : Filling) (value : Text) (k : AdParam) :
    (f.set d F value k).newAd.valid = f.newAd.valid := by
  cases k <;> rfl

/-- The loop leaves `valid` as it is. -/
theorem read_valid (f : Filling) (query : List UserMap.QueryItem) :
    (Filling.read d F f query).1.newAd.valid = f.newAd.valid := by
  induction query generalizing f with
  | nil => rfl
  | cons item rest ih =>
    unfold Filling.read
    split
    · exact ih f
    · split
      · rfl
      · rw [ih, set_valid]

theorem loop_valid {index : Int32} {a : Adding} {f : Filling} {whole : Bool}
    (h : loop d F s index a = (f, whole)) : f.newAd.valid = (s.list (slot index)).valid := by
  have read := congrArg (fun r : Filling × Bool => r.1.newAd.valid) h
  exact read.symm.trans (read_valid _ _)

theorem slot_inj {i j : Int32} (hi : 0 ≤ i.toInt) (hj : 0 ≤ j.toInt) (same : slot i = slot j) :
    i = j := by
  unfold slot at same
  apply Int32.toInt_inj.mp
  omega

/-- Indices are handed out in order, each to one process; finished ads are in the list, and
only they are valid. -/
structure Sound (first : Int) (s : State) : Prop where
  taken : s.taken.map Int32.toInt = (List.range s.taken.length).map fun k : Nat => first + (k : Int)
  number : s.number.toInt = first + s.taken.length
  nonneg : 0 ≤ first
  opening : ∀ p v, (s.place p).holds = some v → v = s.number
  owner : ∀ p i, (s.place p).owns = some i → i ∈ s.taken
  distinct : ∀ p q i, (s.place p).owns = some i → (s.place q).owns = some i → p = q
  free : ∀ p i, (s.place p).owns = some i → s.finished (slot i) = none
  finished : ∀ i ad, s.finished i = some ad → s.list i = ad ∧ (i : Int) < s.number.toInt
  valid : ∀ i, (s.list i).valid ≠ 0 → s.finished i = some (s.list i)

theorem Start.sound (start : Start s) : Sound s.number.toInt s := by
  have nonneg := Int32.le_iff_toInt_le.mp start.number
  have zero : (0 : Int32).toInt = 0 := rfl
  rw [zero] at nonneg
  refine ⟨?_, ?_, nonneg, ?_, ?_, ?_, ?_, ?_, ?_⟩
  · rw [start.taken]
    rfl
  · rw [start.taken]
    simp
  · intro p v holds
    rw [start.place p] at holds
    cases holds
  · intro p i owns
    rw [start.place p] at owns
    cases owns
  · intro p q i owns
    rw [start.place p] at owns
    cases owns
  · intro p i owns
    rw [start.place p] at owns
    cases owns
  · intro i ad done
    rw [start.finished i] at done
    obtain ⟨below, same⟩ := Option.ite_none_right_eq_some.mp done
    unfold slot at below
    exact ⟨Option.some.inj same, by omega⟩
  · intro i valid
    rw [start.finished i]
    by_cases below : i < slot s.number
    · rw [if_pos below]
    · exact absurd (start.blank i below) valid

namespace Sound

variable {first : Int}

theorem mem_taken (h : Sound first s) {i : Int32} (mem : i ∈ s.taken) :
    first ≤ i.toInt ∧ i.toInt < s.number.toInt := by
  have listed : i.toInt ∈ (List.range s.taken.length).map fun k : Nat => first + (k : Int) :=
    h.taken ▸ List.mem_map_of_mem mem
  obtain ⟨k, below, same⟩ := List.mem_map.mp listed
  rw [List.mem_range] at below
  have number := h.number
  omega

theorem nodup (h : Sound first s) : s.taken.Nodup := by
  apply List.Nodup.of_map Int32.toInt
  rw [h.taken]
  apply List.Nodup.map _ List.nodup_range
  intro a b same
  dsimp only at same
  omega

/-- A process goes on in its call, and the table stays. -/
theorem goes (h : Sound first s) {place : Place} (holds : place.holds = none ∨
    place.holds = (s.place p).holds ∨ place.holds = some s.number)
    (owns : place.owns = none ∨ place.owns = (s.place p).owns) : Sound first (s.goes p place) := by
  have own (q : Nat) (i : Int32) (owned : ((s.goes p place).place q).owns = some i) :
      (s.place q).owns = some i := by
    rw [goes_place] at owned
    by_cases same : q = p
    · subst same
      rw [if_pos rfl] at owned
      rcases owns with none_ | kept
      · rw [none_] at owned
        cases owned
      · rwa [← kept]
    · rwa [if_neg same] at owned
  refine { h with opening := ?_, owner := ?_, distinct := ?_, free := ?_ }
  · intro q v held
    rw [goes_place] at held
    by_cases same : q = p
    · subst same
      rw [if_pos rfl] at held
      rcases holds with none_ | kept | now
      · rw [none_] at held
        cases held
      · exact h.opening q v (kept ▸ held)
      · exact (Option.some.inj (now.symm.trans held)).symm
    · rw [if_neg same] at held
      exact h.opening q v held
  · exact fun q i owned => h.owner q i (own q i owned)
  · exact fun q r i owned owned' => h.distinct q r i (own q i owned) (own r i owned')
  · exact fun q i owned => h.free q i (own q i owned)

theorem take (h : Sound first s) (quiet : Quiet s) : Sound first s.take := by
  have more : s.take.number.toInt = s.number.toInt + 1 := by
    have left := mt Int32.toInt_inj.mp quiet.left
    have most := s.number.toInt_lt
    have least := s.number.le_toInt
    have greatest : Int32.maxValue.toInt = 2 ^ 31 - 1 := rfl
    rw [greatest] at left
    change (s.number + 1).toInt = _
    rw [Int32.toInt_add]
    exact bmod_eq_self (v := s.number.toInt + 1) (by omega) (by omega)
  have length : s.take.taken.length = s.taken.length + 1 := List.length_append
  refine ⟨?_, ?_, h.nonneg, ?_, ?_, h.distinct, h.free, ?_, h.valid⟩
  · rw [length, List.range_succ, List.map_append, ← h.taken]
    change (s.taken ++ [s.number]).map Int32.toInt = _
    rw [List.map_append, List.map_singleton, h.number]
    rfl
  · rw [more, length, h.number]
    push_cast
    omega
  · intro p v held
    change (s.place p).holds = some v at held
    rw [quiet.unopened p] at held
    cases held
  · exact fun p i owned => List.mem_append_left _ (h.owner p i owned)
  · intro i ad done
    obtain ⟨here, below⟩ := h.finished i ad done
    exact ⟨here, by omega⟩

/-- The index that was taken last is nobody else's. -/
theorem take_indexed (h : Sound first s) (quiet : Quiet s) (a : Adding) :
    Sound first (s.take.goes p (.indexed s.number a)) := by
  have new (q : Nat) : (s.place q).owns ≠ some s.number := by
    intro owned
    have below := h.mem_taken (h.owner q _ owned)
    omega
  have own (q : Nat) (i : Int32)
      (owned : ((s.take.goes p (.indexed s.number a)).place q).owns = some i) :
      q = p ∧ i = s.number ∨ (s.place q).owns = some i := by
    rw [goes_place] at owned
    by_cases same : q = p
    · rw [if_pos same] at owned
      exact Or.inl ⟨same, (Option.some.inj owned).symm⟩
    · rw [if_neg same] at owned
      exact Or.inr owned
  have took := h.take quiet
  refine { took with opening := ?_, owner := ?_, distinct := ?_, free := ?_ }
  · intro q v held
    rw [goes_place] at held
    by_cases same : q = p
    · rw [if_pos same] at held
      cases held
    · rw [if_neg same] at held
      change (s.place q).holds = some v at held
      rw [quiet.unopened q] at held
      cases held
  · intro q i owned
    rcases own q i owned with ⟨-, rfl⟩ | before
    · exact List.mem_append_right _ (List.mem_singleton_self _)
    · exact List.mem_append_left _ (h.owner q i before)
  · intro q r i owned owned'
    rcases own q i owned with ⟨rfl, rfl⟩ | before
    · rcases own r _ owned' with ⟨rfl, -⟩ | before'
      · rfl
      · exact absurd before' (new r)
    · rcases own r i owned' with ⟨rfl, rfl⟩ | before'
      · exact absurd before (new q)
      · exact h.distinct q r i before before'
  · intro q i owned
    rcases own q i owned with ⟨-, rfl⟩ | before
    · cases done : s.finished (slot s.number) with
      | none => exact done
      | some ad =>
        have below := (h.finished _ ad done).2
        have number := h.number
        have nonneg := h.nonneg
        unfold slot at below
        omega
    · exact h.free q i before

/-- Where nothing is finished, nothing is valid. -/
theorem blank (h : Sound first s) {i : Nat} (none_ : s.finished i = none) : (s.list i).valid = 0 := by
  by_contra valid
  rw [h.valid i valid] at none_
  cases none_

theorem write (h : Sound first s) {i : Nat} {ad : AdInfo} (unfinished : s.finished i = none)
    (invalid : ad.valid = 0) : Sound first (s.write i ad) := by
  have elsewhere {j : Nat} (ne : j ≠ i) : (s.write i ad).list j = s.list j :=
    Function.update_of_ne ne ..
  have here : (s.write i ad).list i = ad := Function.update_self ..
  refine { h with finished := ?_, valid := ?_ }
  · intro j other done
    have ne : j ≠ i := by
      rintro rfl
      rw [show s.finished j = some other from done] at unfinished
      cases unfinished
    rw [elsewhere ne]
    exact h.finished j other done
  · intro j valid
    by_cases same : j = i
    · subst same
      rw [here] at valid
      exact absurd invalid valid
    · rw [elsewhere same] at valid ⊢
      exact h.valid j valid

theorem slot_ne (h : Sound first s) {q : Nat} {i j : Int32} (hi : i ∈ s.taken)
    (owned : (s.place q).owns = some j) (ne : i ≠ j) : slot j ≠ slot i := by
  have one := h.mem_taken hi
  have other := h.mem_taken (h.owner q j owned)
  have nonneg := h.nonneg
  exact fun same => ne (slot_inj (by omega) (by omega) same.symm)

/-- The process is done with its ad. -/
theorem publish (h : Sound first s) {index : Int32} (owned : (s.place p).owns = some index)
    (ad : AdInfo) : Sound first ((s.finish (slot index) ad).goes p .serving) := by
  have mem := h.owner p index owned
  have range := h.mem_taken mem
  have nonneg := h.nonneg
  have others (q : Nat) (i : Int32)
      (own : (((s.finish (slot index) ad).goes p .serving).place q).owns = some i) :
      (s.place q).owns = some i ∧ index ≠ i := by
    rw [goes_place] at own
    by_cases same : q = p
    · rw [if_pos same] at own
      cases own
    · rw [if_neg same] at own
      refine ⟨own, ?_⟩
      rintro rfl
      exact same (h.distinct q p index own owned)
  have elsewhere {j : Nat} (ne : j ≠ slot index) : (s.finish (slot index) ad).finished j =
      s.finished j ∧ (s.finish (slot index) ad).list j = s.list j :=
    ⟨Function.update_of_ne ne .., Function.update_of_ne ne ..⟩
  have here : (s.finish (slot index) ad).finished (slot index) = some ad ∧
      (s.finish (slot index) ad).list (slot index) = ad :=
    ⟨Function.update_self .., Function.update_self ..⟩
  refine ⟨h.taken, h.number, h.nonneg, ?_, ?_, ?_, ?_, ?_, ?_⟩
  · intro q v held
    rw [goes_place] at held
    by_cases same : q = p
    · rw [if_pos same] at held
      cases held
    · rw [if_neg same] at held
      exact h.opening q v held
  · exact fun q i own => h.owner q i (others q i own).1
  · exact fun q r i own own' => h.distinct q r i (others q i own).1 (others r i own').1
  · intro q i own
    obtain ⟨before, ne⟩ := others q i own
    exact (elsewhere (h.slot_ne mem before ne)).1.trans (h.free q i before)
  · intro j done ended
    by_cases same : j = slot index
    · subst same
      refine ⟨here.2.trans (Option.some.inj (here.1.symm.trans ended)), ?_⟩
      change ((slot index : Nat) : Int) < s.number.toInt
      unfold slot
      omega
    · have kept := elsewhere same
      obtain ⟨there, below⟩ := h.finished j done (kept.1.symm.trans ended)
      exact ⟨kept.2.trans there, below⟩
  · intro j valid
    by_cases same : j = slot index
    · subst same
      exact here.1.trans (congrArg some here.2.symm)
    · have kept := elsewhere same
      change ((s.finish (slot index) ad).list j).valid ≠ 0 at valid
      rw [kept.2] at valid
      exact kept.1.trans ((h.valid j valid).trans (congrArg some kept.2.symm))

end Sound

theorem taken_take (s : State) : s.take.taken ≠ s.taken := by
  intro same
  have length := congrArg List.length same
  simp [State.take] at length

theorem step_sound {first : Int} (step : Step d F s p s') (h : Sound first s)
    (taking : s'.taken ≠ s.taken → Quiet s) : Sound first s' := by
  cases step with
  | open_ here => exact h.goes (Or.inr (Or.inr rfl)) (Or.inl rfl)
  | @giveSize head here unsized =>
    have sized : Sound first { s with size := listSize head.number } :=
      ⟨h.taken, h.number, h.nonneg, h.opening, h.owner, h.distinct, h.free, h.finished, h.valid⟩
    refine sized.goes (Or.inr (Or.inl ?_)) (Or.inl rfl)
    change _ = (s.place p).holds
    rw [here]
    rfl
  | reopen here =>
    refine h.goes (Or.inr (Or.inl ?_)) (Or.inl rfl)
    rw [here]
    rfl
  | initNumber here =>
    obtain rfl := h.opening p _ (by rw [here]; rfl)
    exact h.goes (Or.inl rfl) (Or.inl rfl)
  | take here a => exact h.take_indexed (taking (taken_take s)) a
  | reject => exact h.goes (Or.inl rfl) (Or.inl rfl)
  | @fill index a f here room inside done =>
    have owned : (s.place p).owns = some index := by rw [here]; rfl
    have unfinished := h.free p index owned
    have wrote := h.write unfinished ((loop_valid done).trans (h.blank unfinished))
    refine wrote.goes (Or.inl rfl) (Or.inr ?_)
    exact owned.symm
  | @tear index a f here room inside died =>
    have owned : (s.place p).owns = some index := by rw [here]; rfl
    have unfinished := h.free p index owned
    have wrote := h.write unfinished ((loop_valid died).trans (h.blank unfinished))
    exact wrote.goes (Or.inl rfl) (Or.inl rfl)
  | publish here => exact h.publish (by rw [here]; rfl) _
  | count here => exact h.take (taking (taken_take s))
  | exit => exact h.goes (Or.inl rfl) (Or.inl rfl)

/-- An ad is finished once. -/
theorem step_finished {first : Int} (step : Step d F s p s') (h : Sound first s) {i : Nat}
    {ad : AdInfo} (done : s.finished i = some ad) : s'.finished i = some ad := by
  cases step with
  | @publish index here =>
    have unfinished := h.free p index (by rw [here]; rfl)
    have ne : i ≠ slot index := by
      rintro rfl
      rw [unfinished] at done
      cases done
    exact (Function.update_of_ne ne ..).trans done
  | open_ | giveSize | reopen | initNumber | take | reject | fill | tear | count | exit => exact done

theorem Run.sound {first : Int} (run : Run d F Quiet s s') (h : Sound first s) :
    Sound first s' ∧ ∀ i ad, s.finished i = some ad → s'.finished i = some ad := by
  induction run with
  | start => exact ⟨h, fun _ _ done => done⟩
  | next _ step taking ih =>
    exact ⟨step_sound step ih.1 taking, fun i ad done => step_finished step ih.1 (ih.2 i ad done)⟩

/-- No index is given twice, no two processes are at one ad, and a valid ad is what the
call that returned has left. -/
theorem table_sound (start : Start s0) (run : Run d F Quiet s0 s) :
    s.taken.Nodup ∧
      (∀ p q index, (s.place p).owns = some index → (s.place q).owns = some index → p = q) ∧
        ∀ i, (s.list i).valid ≠ 0 → s.finished i = some (s.list i) := by
  obtain ⟨sound, -⟩ := run.sound start.sound
  exact ⟨sound.nodup, sound.distinct, sound.valid⟩

/-- An ad that was added stays as it is. -/
theorem ads_stay (start : Start s0) (run : Run d F Quiet s0 s) (later : Run d F Quiet s s') {i : Nat}
    {ad : AdInfo} (done : s.finished i = some ad) : s'.list i = ad := by
  obtain ⟨sound, -⟩ := run.sound start.sound
  obtain ⟨sound', kept⟩ := later.sound sound
  exact (sound'.finished i ad (kept i ad done)).1

/-! ## Whatever is read and written back -/

/-- A number is left. -/
def Left (s : State) : Prop := s.number ≠ Int32.maxValue

/-- All numbers up to the highest so far have been taken. -/
structure Handed (first high : Int) (s : State) : Prop where
  taken : ∀ v, v ∈ s.taken ↔ first ≤ v.toInt ∧ v.toInt < high
  number : first ≤ s.number.toInt ∧ s.number.toInt ≤ high
  opening : ∀ p v, (s.place p).holds = some v → first ≤ v.toInt ∧ v.toInt ≤ high

namespace Handed

variable {first high : Int}

theorem goes (h : Handed first high s) {place : Place}
    (holds : ∀ v, place.holds = some v → first ≤ v.toInt ∧ v.toInt ≤ high) :
    Handed first high (s.goes p place) := by
  refine { h with opening := ?_ }
  intro q v held
  rw [goes_place] at held
  by_cases same : q = p
  · rw [if_pos same] at held
    exact holds v held
  · rw [if_neg same] at held
    exact h.opening q v held

theorem leaves (h : Handed first high s) {place : Place} (holds : place.holds = none) :
    Handed first high (s.goes p place) := by
  apply h.goes
  intro v held
  rw [holds] at held
  cases held

theorem take (h : Handed first high s) (left : Left s) : ∃ high, Handed first high s.take := by
  obtain ⟨least, most⟩ := h.number
  have more : s.take.number.toInt = s.number.toInt + 1 := by
    have left := mt Int32.toInt_inj.mp left
    have below := s.number.toInt_lt
    have above := s.number.le_toInt
    have greatest : Int32.maxValue.toInt = 2 ^ 31 - 1 := rfl
    rw [greatest] at left
    change (s.number + 1).toInt = _
    rw [Int32.toInt_add]
    exact bmod_eq_self (v := s.number.toInt + 1) (by omega) (by omega)
  have mem (v : Int32) : v ∈ s.take.taken ↔ v ∈ s.taken ∨ v.toInt = s.number.toInt := by
    rw [Int32.toInt_inj]
    exact List.mem_append.trans (or_congr Iff.rfl List.mem_singleton)
  refine ⟨max high (s.number.toInt + 1), ?_, ?_, ?_⟩
  · intro v
    rw [mem, h.taken]
    omega
  · rw [more]
    omega
  · intro p v held
    have range := h.opening p v held
    omega

end Handed

theorem Start.handed (start : Start s) : Handed s.number.toInt s.number.toInt s := by
  refine ⟨?_, ⟨le_refl _, le_refl _⟩, ?_⟩
  · intro v
    rw [start.taken]
    simp only [List.not_mem_nil, false_iff]
    omega
  · intro p v held
    rw [start.place p] at held
    cases held

theorem step_handed {first high : Int} (step : Step d F s p s') (h : Handed first high s)
    (taking : s'.taken ≠ s.taken → Left s) : ∃ high, Handed first high s' := by
  cases step with
  | open_ here =>
    refine ⟨high, h.goes ?_⟩
    rintro v ⟨⟩
    exact h.number
  | @giveSize head here unsized =>
    have sized : Handed first high { s with size := listSize head.number } :=
      ⟨h.taken, h.number, h.opening⟩
    refine ⟨high, sized.goes ?_⟩
    rintro v ⟨⟩
    exact h.opening p head.number (by rw [here]; rfl)
  | reopen here =>
    refine ⟨high, h.goes ?_⟩
    rintro v ⟨⟩
    exact h.opening p _ (by rw [here]; rfl)
  | @initNumber number here =>
    have back : Handed first high { s with number } :=
      ⟨h.taken, h.opening p _ (by rw [here]; rfl), h.opening⟩
    exact ⟨high, back.leaves rfl⟩
  | take here a =>
    obtain ⟨high, took⟩ := h.take (taking (taken_take s))
    exact ⟨high, took.leaves rfl⟩
  | reject => exact ⟨high, h.leaves rfl⟩
  | @fill index a f =>
    have wrote : Handed first high (s.write (slot index) f.newAd) := ⟨h.taken, h.number, h.opening⟩
    exact ⟨high, wrote.leaves rfl⟩
  | @tear index a f =>
    have wrote : Handed first high (s.write (slot index) f.newAd) := ⟨h.taken, h.number, h.opening⟩
    exact ⟨high, wrote.leaves rfl⟩
  | @publish index =>
    have ended : Handed first high
        (s.finish (slot index) (published (s.list (slot index)))) := ⟨h.taken, h.number, h.opening⟩
    exact ⟨high, ended.leaves rfl⟩
  | count here => exact h.take (taking (taken_take s))
  | exit => exact ⟨high, h.leaves rfl⟩

theorem Run.handed (start : Start s0) (run : Run d F Left s0 s) :
    ∃ high, Handed s0.number.toInt high s := by
  induction run with
  | start => exact ⟨_, start.handed⟩
  | next _ step taking ih =>
    obtain ⟨high, handed⟩ := ih
    exact step_handed step handed taking

/-- Up to now every index was new. What a process that has read the header writes back is
an index that was taken before, unless it is still the number. -/
theorem taken_before_iff (start : Start s0) (run : Run d F Left s0 s) (new : s.number ∉ s.taken)
    {number : Int32} (here : s.place p = .mapped number) :
    number ∈ s.taken ↔ number ≠ s.number := by
  obtain ⟨high, handed⟩ := run.handed start
  have range := handed.opening p number (by rw [here]; rfl)
  obtain ⟨least, most⟩ := handed.number
  rw [handed.taken] at new
  rw [handed.taken, ne_eq, ← Int32.toInt_inj]
  omega

end

/-! ## Two processes -/

def newTable : State := ⟨0, 0, fun _ => .zeros, fun _ => .starting, [], fun _ => none⟩

theorem newTable_start : Start newTable where
  place _ := rfl
  taken := rfl
  number := by decide
  finished _ := rfl
  blank _ _ := rfl

def noParameters : Adding := ⟨[], 0, .zeros⟩

abbrev PlainRun (P : State → Prop) : State → State → Prop := Run Machine.plain.doubles .plain P

/-- The processes 0 and 1 have both opened the table. -/
theorem opened_twice (P : State → Prop) : ∃ s, PlainRun P newTable s ∧ s.number = 0 ∧
    s.size = 2000 ∧ s.taken = [] ∧ s.list = newTable.list ∧ s.finished = newTable.finished ∧
      s.place = Function.update (Function.update newTable.place 0 .serving) 1 .serving := by
  have begun : PlainRun P newTable newTable := .start
  have opened := begun.other (.open_ (p := 0) rfl) rfl
  have sized := opened.other
    (.giveSize (p := 0) (show _ = Place.opened ⟨0, 0⟩ from rfl) (by decide)) rfl
  have served := sized.other (.initNumber (p := 0) (show _ = Place.mapped 0 from rfl)) rfl
  have opened' := served.other (.open_ (p := 1) rfl) rfl
  have mapped := opened'.other
    (.reopen (p := 1) (show _ = Place.opened ⟨2000, 0⟩ from rfl) (by decide)) rfl
  have both := mapped.other (.initNumber (p := 1) (show _ = Place.mapped 0 from rfl)) rfl
  refine ⟨_, both, rfl, rfl, rfl, rfl, rfl, ?_⟩
  funext p
  rcases p with _ | _ | p <;> rfl

/-- The indices 0 and 1 are taken before either ad is written; the ad of process 1 is
written first. -/
theorem added_once : ∃ s, PlainRun Quiet newTable s ∧ s.taken = [0, 1] ∧ s.size = 2000 ∧
    s.place 0 = .indexed 0 noParameters ∧
      s.finished 1 = some (published { AdInfo.zeros with ad_id := 1 }) := by
  obtain ⟨s, opened, number, size, taken, list, finished, place⟩ := opened_twice Quiet
  obtain ⟨size', number', list', place', taken', finished'⟩ := s
  obtain rfl := number
  obtain rfl := size
  obtain rfl := taken
  obtain rfl := list
  obtain rfl := finished
  obtain rfl := place
  have first := opened.next (.take (p := 0) rfl noParameters) fun _ =>
    ⟨by decide, fun p => by rcases p with _ | _ | p <;> rfl⟩
  have second := first.next (.take (p := 1) rfl noParameters) fun _ =>
    ⟨by decide, fun p => by rcases p with _ | _ | p <;> rfl⟩
  have filled := second.other (.fill (p := 1)
    (show _ = Place.indexed 1 noParameters from rfl) (by decide) (by decide) rfl) rfl
  have added := filled.other (.publish (p := 1) (show _ = Place.filled 1 from rfl)) rfl
  exact ⟨_, added, rfl, rfl, rfl, rfl⟩

theorem table_sound_twice : ∃ s, PlainRun Quiet newTable s ∧ s.taken = [0, 1] ∧ s.taken.Nodup := by
  obtain ⟨s, run, taken, -⟩ := added_once
  exact ⟨s, run, taken, (table_sound newTable_start run).1⟩

/-- Then process 0 writes its own. -/
theorem ads_stay_twice : ∃ s s', PlainRun Quiet newTable s ∧ PlainRun Quiet s s' ∧
    s'.place 0 = .filled 0 ∧ s'.list 1 = published { AdInfo.zeros with ad_id := 1 } := by
  obtain ⟨s, run, -, size, here, done⟩ := added_once
  have begun : PlainRun Quiet s s := .start
  have filled := begun.other (.fill here (by rw [size]; decide) (by decide) rfl) rfl
  exact ⟨s, _, run, filled, rfl, ads_stay newTable_start run filled done⟩

/-- Process 1 reads the header before process 0 takes an index. -/
theorem taken_before_iff_late : ∃ s, PlainRun Left newTable s ∧ s.place 1 = .mapped 0 ∧
    s.number = 1 ∧ (0 : Int32) ∈ s.taken := by
  have begun : PlainRun Left newTable newTable := .start
  have opened := begun.other (.open_ (p := 0) rfl) rfl
  have sized := opened.other
    (.giveSize (p := 0) (show _ = Place.opened ⟨0, 0⟩ from rfl) (by decide)) rfl
  have served := sized.other (.initNumber (p := 0) (show _ = Place.mapped 0 from rfl)) rfl
  have read := served.other (.open_ (p := 1) rfl) rfl
  have took := read.next (.take (p := 0) rfl noParameters) fun _ => by unfold Left; decide
  have late := took.other
    (.reopen (p := 1) (show _ = Place.opened ⟨2000, 0⟩ from rfl) (by decide)) rfl
  refine ⟨_, late, rfl, rfl, ?_⟩
  have iff := taken_before_iff newTable_start late (by decide) (p := 1)
    (show _ = Place.mapped 0 from rfl)
  exact iff.mpr (by decide)

end SimpleDsp.Register.Processes
