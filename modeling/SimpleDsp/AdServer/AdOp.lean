import SimpleDsp.AdServer.Alone
import SimpleDsp.Receivers.MissingValues

/-!
# ad_op

The web program behind the ads. A request may name its user by a MAC or by an id; `ad_op`
looks up the one that is missing in `user_map`, which may write the store, ask PG, wait for
the mutex of the process or throw, and only then calls `ad_map`.

* `adOp`, `main`: the program, one operation at a time;
* `adOp_alone`: a request is a lookup and then one call of `ad_map` all at once;
* `main_alone`: the loop answers one request after the other, until a lookup throws.
-/

namespace SimpleDsp

open DecimalText Programs
open AdMap (Globals Ret Charge AdState Op)
open UserMap (AdParams UserM Exn INT_MIN)

namespace AdOp

/-! ## The program -/

inductive Cmd
  | user (c : UserMap.Cmd)
  | ad (c : AdServer.Cmd)
  /-- `FCGX_FPrintF` of the answer -/
  | print (ret : Ret)

abbrev Cmd.Reply : Cmd → Type
  | user c => c.Reply
  | ad c => c.Reply
  | print _ => Unit

abbrev OpM := Prog Cmd Cmd.Reply Exn

/-- A function of `user_map`. -/
def user {α : Type} (p : UserM α) : OpM α := p.embed .user fun _ r => r

/-- A function of `ad_map`. -/
def ad {α : Type} (p : AdServer.AdM α) : OpM α := (p.embed Cmd.ad fun _ r => r).calm

/-- The user id and the MAC that are passed on. -/
def lookUp (p : AdParams) : UserM (Int32 × UInt64) := do
  let user_id ← (if p.user_id = INT_MIN ∧ p.mac ≠ 0 then UserMap.userGetId p.mac else pure p.user_id)
  let mac ← (if p.mac = 0 ∧ user_id ≠ INT_MIN then UserMap.userGetMac user_id else pure p.mac)
  pure (user_id, mac)

def adOp (G : Globals) (p : AdParams) : OpM Ret :=
  if p.action = "request".toList then do
    let ids ← user (lookUp p)
    ad (AdServer.adRequest G ids.2 ids.1 p.ad_space p.mall_id p.n.toInt.toNat)
  else if p.action = "click".toList then ad (AdServer.adClick p.ad_id p.mall_id)
  else pure ⟨[], some "none".toList⟩

/-- The loop in `main`, over the query strings that parse. -/
def main (G : Globals) : List AdParams → OpM Unit
  | [] => pure ()
  | p :: later => do
    let ret ← adOp G p
    Prog.call (Cmd.print ret)
    main G later

/-! ## What it does -/

/-- `user_map` and `ad_map` have one store; the charges have been executed and the answers
printed. -/
structure World where
  world : UserMap.World
  charges : List Charge
  printed : List Ret

def userView : Prog.View World UserMap.World where
  get w := w.world
  put w u := { w with world := u }
  get_put _ _ := rfl
  put_get _ := rfl
  put_put _ _ _ := rfl

def adView : Prog.View World AdState where
  get w := ⟨w.world.db, w.charges⟩
  put w s := { w with world := { w.world with db := s.db }, charges := s.charges }
  get_put _ _ := rfl
  put_get _ := rfl
  put_put _ _ _ := rfl

section
variable (G : Globals) (E : UserMap.Env) (pid : Nat)

def exec : (c : Cmd) → World → c.Reply → World → Prop
  | .user c, w, r, w' => ∃ u, UserMap.exec E pid c (userView.get w) r u ∧ w' = userView.put w u
  | .ad c, w, r, w' => ∃ s, AdServer.exec G c (adView.get w) r s ∧ w' = adView.put w s
  | .print ret, w, _, w' => w' = { w with printed := w.printed ++ [ret] }

/-- A request: what is missing is looked up; then `ad_map` does all it does at once. -/
inductive Answered (p : AdParams) (w : World) : Except Exn Ret → World → Prop
  | request {user_id : Int32} {mac : UInt64} {u : UserMap.World}
      (asked : p.action = "request".toList)
      (found : (lookUp p).Runs (UserMap.exec E pid) w.world (.ok (user_id, mac)) u)
      {ret : Ret} {s : AdState} (looks : Nat → AdMap.Look)
      (answer : (Op.request mac user_id p.ad_space p.mall_id p.n.toInt.toNat looks).run G
        ⟨u.db, w.charges⟩ = (ret, s)) :
      Answered p w (.ok ret) (adView.put (userView.put w u) s)
  | unfound {e : Exn} {u : UserMap.World} (asked : p.action = "request".toList)
      (thrown : (lookUp p).Runs (UserMap.exec E pid) w.world (.error e) u) :
      Answered p w (.error e) (userView.put w u)
  | click {ret : Ret} {s : AdState} (asked : p.action = "click".toList)
      (answer : (Op.click p.ad_id p.mall_id).run G (adView.get w) = (ret, s)) :
      Answered p w (.ok ret) (adView.put w s)
  | none (asked : p.action ≠ "request".toList) (asked' : p.action ≠ "click".toList) :
      Answered p w (.ok ⟨[], some "none".toList⟩) w

/-- Requests one after the other; an exception ends the process. -/
inductive AnsweredAll : List AdParams → World → Except Exn Unit → World → Prop
  | done (w : World) : AnsweredAll [] w (.ok ()) w
  | next {p : AdParams} {later : List AdParams} {w u v : World} {ret : Ret} {x : Except Exn Unit}
      (first : Answered G E pid p w (.ok ret) u)
      (rest : AnsweredAll later { u with printed := u.printed ++ [ret] } x v) :
      AnsweredAll (p :: later) w x v
  | ended {p : AdParams} {later : List AdParams} {w u : World} {e : Exn}
      (first : Answered G E pid p w (.error e) u) : AnsweredAll (p :: later) w (.error e) u

end

/-! ## Alone -/

section
variable {G : Globals} {E : UserMap.Env} {pid : Nat} {α : Type} {w w' : World}

theorem runs_user {p : UserM α} {x : Except Exn α} : (user p).Runs (exec G E pid) w x w' ↔
    ∃ u, p.Runs (UserMap.exec E pid) w.world x u ∧ w' = userView.put w u :=
  Prog.runs_embed_iff (f := Cmd.user) (Y := exec G E pid) userView (fun _ r => ⟨r, rfl⟩)
    fun _ _ _ _ => Iff.rfl

theorem runs_ad {p : AdServer.AdM α} {x : Except Exn α} : (ad p).Runs (exec G E pid) w x w' ↔
    ∃ a s, x = .ok a ∧ p.Runs (AdServer.exec G) (adView.get w) (.ok a) s ∧ w' = adView.put w s := by
  have inside (a : α) : (p.embed Cmd.ad fun _ r => r).Runs (exec G E pid) w (.ok a) w' ↔
      ∃ s, p.Runs (AdServer.exec G) (adView.get w) (.ok a) s ∧ w' = adView.put w s :=
    Prog.runs_embed_iff (f := Cmd.ad) (Y := exec G E pid) adView (fun _ r => ⟨r, rfl⟩)
      fun _ _ _ _ => Iff.rfl
  unfold ad
  simp only [Prog.runs_calm_iff, inside, exists_and_left]

theorem adOp_alone (p : AdParams) {x : Except Exn Ret} :
    (adOp G p).Runs (exec G E pid) w x w' ↔ Answered G E pid p w x w' := by
  unfold adOp
  split
  · rename_i asked
    rw [Prog.runs_bind_iff]
    constructor
    · rintro (⟨ids, v, looked, answers⟩ | ⟨e, rfl, failed⟩)
      · obtain ⟨u, found, rfl⟩ := runs_user.mp looked
        obtain ⟨ret, s, rfl, runs, rfl⟩ := runs_ad.mp answers
        obtain ⟨o, same, ok, rfl⟩ := (AdServer.answer_alone
          (.request ids.2 ids.1 p.ad_space p.mall_id p.n.toInt.toNat)).mp runs
        obtain rfl := Except.ok.inj ok
        cases o with
        | request mac user_id space_id mall_id n looks =>
          cases same
          exact .request asked found looks rfl
        | click => cases same
      · obtain ⟨u, thrown, rfl⟩ := runs_user.mp failed
        exact .unfound asked thrown
    · intro answered
      cases answered with
      | request _ found looks answer =>
        refine Or.inl ⟨_, _, runs_user.mpr ⟨_, found, rfl⟩, runs_ad.mpr ⟨_, _, rfl, ?_, rfl⟩⟩
        refine (AdServer.answer_alone (.request _ _ _ _ _)).mpr ⟨.request _ _ _ _ _ looks, rfl, ?_, ?_⟩
        · exact congrArg (fun r => Except.ok r.1) answer.symm
        · exact congrArg Prod.snd answer.symm
      | unfound _ thrown => exact Or.inr ⟨_, rfl, runs_user.mpr ⟨_, thrown, rfl⟩⟩
      | click asked' => cases asked.symm.trans asked'
      | none other => exact absurd asked other
  · rename_i other
    split
    · rename_i asked
      rw [runs_ad]
      constructor
      · rintro ⟨ret, s, rfl, runs, rfl⟩
        obtain ⟨o, same, ok, rfl⟩ := (AdServer.answer_alone (.click p.ad_id p.mall_id)).mp runs
        obtain rfl := Except.ok.inj ok
        cases o with
        | request => cases same
        | click =>
          cases same
          exact .click asked rfl
      · intro answered
        cases answered with
        | request asked' | unfound asked' => exact absurd asked' other
        | click _ answer =>
          refine ⟨_, _, rfl, (AdServer.answer_alone (.click _ _)).mpr ⟨.click _ _, rfl, ?_, ?_⟩, rfl⟩
          · exact congrArg (fun r => Except.ok r.1) answer.symm
          · exact congrArg Prod.snd answer.symm
        | none _ other' => exact absurd asked other'
    · rename_i other'
      constructor
      · rintro ⟨rfl, rfl⟩
        exact .none other other'
      · intro answered
        cases answered with
        | request asked | unfound asked => exact absurd asked other
        | click asked => exact absurd asked other'
        | none => exact ⟨rfl, rfl⟩

/-- A process of `ad_op` that works alone, one operation at a time, answers one request after
the other: each with a lookup of what is missing and one call of `ad_map` all at once, at any
readings of the clock. -/
theorem main_alone (ps : List AdParams) {x : Except Exn Unit} :
    (main G ps).Runs (exec G E pid) w x w' ↔ AnsweredAll G E pid ps w x w' := by
  induction ps generalizing w with
  | nil =>
    constructor
    · rintro ⟨rfl, rfl⟩
      exact .done _
    · intro answered
      cases answered
      exact ⟨rfl, rfl⟩
  | cons p later ih =>
    rw [main, Prog.runs_bind_iff]
    constructor
    · rintro (⟨ret, u, first, _, v, printed, rest⟩ | ⟨e, rfl, failed⟩)
      · obtain rfl := printed
        exact .next ((adOp_alone p).mp first) (ih.mp rest)
      · exact .ended ((adOp_alone p).mp failed)
    · intro answered
      cases answered with
      | next first rest =>
        exact Or.inl ⟨_, _, (adOp_alone p).mpr first, (), _, rfl, ih.mpr rest⟩
      | ended first => exact Or.inr ⟨_, rfl, (adOp_alone p).mpr first⟩

end

end AdOp

end SimpleDsp
