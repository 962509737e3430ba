import SimpleDsp.UserMap.Functions

/-!
# What a sighting credits

Both receivers add the time since the last sighting to counters, cut off at
`max_duration_gap`; the difference of the clock readings becomes an `int` first.

* `CreditsGap`: the increments are the difference, cut off;
* `credits_gap_iff`: when they are.
-/

namespace SimpleDsp

open DecimalText Programs

namespace UserMap

/-- What an operation adds to a counter. -/
def Cmd.increment : Cmd → Option Int
  | .store (.incr _ n) => some n.toInt
  | _ => none

def increments {W : Type} (answer : (c : Cmd) → W → c.Reply × W) (w : W) (p : UserM Unit) :
    List Int :=
  (p.trace answer w).filterMap Cmd.increment

/-- Nothing answers. -/
def Cmd.silent : (c : Cmd) → Unit → c.Reply × Unit
  | .store o, _ => (o.failed, ())
  | .time, _ => ((0 : Int64), ())
  | .addUser _, _ => (([] : Text), ())
  | .queryUserId _, _ => (([] : Text), ())
  | .addUserLocation .., _ => (([] : Text), ())
  | .apmacGetShopid _, _ => ((0 : Int32), ())
  | .macIsVip .., _ => (false, ())
  | .lastDateTime _, _ => ((none : Option Stamp), ())
  | .setLastDateTime .., _ => ((), ())
  | .init, _ => (true, ())
  | .lock, _ => ((), ())
  | .unlock, _ => ((), ())

section
variable (cfg : Config) (t_pre t_now : Int64)

def gap : Int := t_now.toInt - t_pre.toInt

def credit : Int := min (gap t_pre t_now) cfg.max_duration_gap.toInt

/-- Whatever the surroundings answer, the counters are credited with the gap. -/
structure CreditsGap : Prop where
  mall : ∀ (W : Type) (answer : (c : Cmd) → W → c.Reply × W) (w : W) (user_id mall_id : Int32),
    increments answer w (userDurationAdd cfg user_id mall_id t_pre t_now) = [credit cfg t_pre t_now]
  /-- The counters of the user in the shop, of the shop and of the mall. -/
  shop : ∀ (W : Type) (answer : (c : Cmd) → W → c.Reply × W) (w : W)
      (mall_id shop_id user_id : Int32) (datetime : Stamp),
    increments answer w (shopUserDurationAdd cfg mall_id shop_id user_id datetime
      (Int32.ofInt (t_now.toInt - t_pre.toInt))) = List.replicate 3 (credit cfg t_pre t_now)
  nonneg : 0 ≤ credit cfg t_pre t_now

/-- The gap as an `int`, cut off. -/
def credited : Int := (clampInterval cfg (Int32.ofInt (gap t_pre t_now))).toInt

end

section
variable {cfg : Config} {t_pre t_now : Int64}

theorem credited_eq (cfg : Config) (t_pre t_now : Int64) : credited cfg t_pre t_now =
    min (Int.bmod (gap t_pre t_now) (2 ^ 32)) cfg.max_duration_gap.toInt := by
  have value : (Int32.ofInt (gap t_pre t_now)).toInt = Int.bmod (gap t_pre t_now) (2 ^ 32) :=
    Int32.toInt_ofInt
  rw [credited, clampInterval]
  split
  · rename_i long
    rw [Int32.lt_iff_toInt_lt, value] at long
    omega
  · rename_i short
    rw [Int32.lt_iff_toInt_lt, value] at short
    omega

/-- What becomes of the gap, cut off. -/
theorem credited_eq_credit_iff (later : t_pre.toInt ≤ t_now.toInt)
    (room : 0 ≤ cfg.max_duration_gap.toInt) : credited cfg t_pre t_now = credit cfg t_pre t_now ↔
      gap t_pre t_now < 2 ^ 31 ∨ cfg.max_duration_gap.toInt ≤ gap t_pre t_now % 2 ^ 32 ∧
        gap t_pre t_now % 2 ^ 32 < 2 ^ 31 := by
  have nonneg : 0 ≤ gap t_pre t_now := by
    unfold gap
    omega
  have bound : cfg.max_duration_gap.toInt < 2 ^ 31 := cfg.max_duration_gap.toInt_lt
  rw [credited_eq, credit]
  simp only [Int.bmod]
  split
  · omega
  · omega

theorem creditsGap_iff (nonneg : 0 ≤ credit cfg t_pre t_now) :
    CreditsGap cfg t_pre t_now ↔ credited cfg t_pre t_now = credit cfg t_pre t_now := by
  constructor
  · intro credits
    have one : [credited cfg t_pre t_now] = [credit cfg t_pre t_now] :=
      credits.mall Unit Cmd.silent () 0 0
    exact List.singleton_inj.mp one
  · intro same
    constructor
    · intro W answer w user_id mall_id
      rw [← same]
      rfl
    · intro W answer w mall_id shop_id user_id datetime
      rw [← same]
      rfl
    · exact nonneg

/-- The credit is the gap, unless the gap does not fit an `int` and what is left of it is
negative or short. -/
theorem credits_gap_iff (cfg : Config) (t_pre t_now : Int64) (later : t_pre.toInt ≤ t_now.toInt)
    (room : 0 ≤ cfg.max_duration_gap.toInt) :
    CreditsGap cfg t_pre t_now ↔
      gap t_pre t_now < 2 ^ 31 ∨ cfg.max_duration_gap.toInt ≤ gap t_pre t_now % 2 ^ 32 ∧
        gap t_pre t_now % 2 ^ 32 < 2 ^ 31 := by
  have nonneg : 0 ≤ credit cfg t_pre t_now := by
    unfold credit gap
    omega
  rw [creditsGap_iff nonneg, credited_eq_credit_iff later room]

theorem credits_gap_iff_today : CreditsGap (Config.ini utcFirstDay) 0 1700000000 :=
  (credits_gap_iff (Config.ini utcFirstDay) 0 1700000000 (by decide) (by decide)).mpr
    (Or.inl (by decide))

/-- From 2038 on, a device that is new takes time from the counters. -/
theorem new_device_debited :
    increments Cmd.silent () (userDurationAdd (Config.ini utcFirstDay) 1 0 0 2147483648) =
        [-2147483648] ∧
      ¬CreditsGap (Config.ini utcFirstDay) 0 2147483648 := by
  constructor
  · decide
  · intro credits
    have one : ([-2147483648] : List Int) = [120] := credits.mall Unit Cmd.silent () 1 0
    exact absurd one (by decide)

end

end UserMap

end SimpleDsp
