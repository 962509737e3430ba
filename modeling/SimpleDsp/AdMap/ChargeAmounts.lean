import SimpleDsp.AdMap.Bidding
import SimpleDsp.Store.FloatFormats

/-!
# Charged amounts

The command that `get_charge_cmd` returns, and the amount that stands in it.

* `amount_written`: what the command says of a price;
* `charge_exact_iff`: when it says the price.
-/

namespace SimpleDsp

open DecimalText RealText Rounding

namespace AdMap

/-! ## The command -/

/-- `charge_ad_sql` of `etc/config.ini` up to the values. -/
def insertInto : Text :=
  ("echo 'insert into public.fund_queue(owner,type,change,remark,mall_id,transaction_time,checked," ++
    "code,create_time,update_time) values(").toList

/-- `charge_ad_sql` from the type on. -/
def fromType : Text :=
  ",'\\''%s'\\'',%d,'\\''%s'\\'',%d,now(),0,0,now(),now())' |  PGPASSWORD=%s psql -h%s  -U %s -w -d %s".toList

def chargeAdSql : Text := insertInto ++ "%d".toList ++ fromType

/-- `boost::format`: each directive, of one letter here, stands for the next
argument as a stream prints it. -/
def boostFormat : Text → List Text → Text
  | '%' :: _ :: t, a :: args => a ++ boostFormat t args
  | c :: t, args => c :: boostFormat t args
  | [], _ => []

structure PgLogin where
  pg_password : Text
  pg_server : Text
  pg_user : Text
  pg_database : Text

/-- As `Json::FastWriter` writes it, with the names in order, less the line end. -/
def Remark.json (r : Remark) : Text :=
  "\x7b\"ad_group_id\":".toList ++ decimal r.ad_group_id.toInt ++
    ",\"ad_id\":".toList ++ decimal r.ad_id.toInt ++
    ",\"charge_type\":\"".toList ++ r.charge_type.text ++
    "\",\"engine_id\":".toList ++ decimal r.engine_id.toInt ++ "\x7d".toList

/-- `%d` prints a double as a stream does. -/
def Charge.command (d : Doubles) (pg : PgLogin) (c : Charge) : Text :=
  boostFormat chargeAdSql
    [decimal c.owner_id.toInt, "adv_consume".toList, d.print c.change, c.remark.json,
      decimal c.mall_id.toInt, pg.pg_password, pg.pg_server, pg.pg_user, pg.pg_database]

/-- The command up to the amount. -/
def beforeAmount (owner_id : Int32) : Text :=
  insertInto ++ (decimal owner_id.toInt ++ ",'\\''adv_consume'\\'',".toList)

/-- The number that stands where the amount is. -/
def amountIn (owner_id : Int32) (cmd : Text) : Option Rat :=
  (scanReal (cmd.drop (beforeAmount owner_id).length)).map (·.1)

theorem boostFormat_text {w : Text} (h : w.all (· ≠ '%') = true) (t : Text) (args : List Text) :
    boostFormat (w ++ t) args = w ++ boostFormat t args := by
  induction w with
  | nil => rfl
  | cons c w ih =>
    rw [List.all_cons, Bool.and_eq_true_iff] at h
    rw [List.cons_append, List.cons_append, ← ih h.2, boostFormat]
    intro _ _ _ _ _ percent
    exact absurd percent (of_decide_eq_true h.1)

/-- The amount stands behind the type, and a comma behind the amount. -/
theorem command_eq (d : Doubles) (pg : PgLogin) (c : Charge) :
    ∃ after, c.command d pg = beforeAmount c.owner_id ++ (d.print c.change ++ ',' :: after) := by
  unfold Charge.command chargeAdSql beforeAmount
  rw [List.append_assoc, boostFormat_text (by decide +kernel)]
  simp only [List.append_assoc]
  apply Exists.intro
  rfl

/-! ## Prices -/

section
variable {G : Globals} {db : Db} {mall_id ad_id ad_group_id : Int32} {type : ChargeType} {t : Text}
  {p : Rat}

/-- A price is at least a hundredth, or there is none. -/
theorem hundredths (k : Nat) : ((k : Rat) / 100 = 0) ∨ 1 / 100 ≤ (k : Rat) / 100 := by
  obtain rfl | pos := Nat.eq_zero_or_pos k
  · simp
  · right
    have one : (1 : Rat) ≤ k := by exact_mod_cast pos
    linarith

theorem priceOf_stored (redis : G.type = .redis)
    (stored : db (Key.adGroup mall_id.toInt ad_group_id.toInt (.price type)).text = some (.str t))
    (text : scanReal (cString t) = some (p, [])) :
    priceOf G db mall_id ad_group_id type = G.m.doubles.read (cString t) := by
  simp [priceOf, get, CBaseMdb.get, redis, RedisDb.get, serve, Key.isWord_text _ |>.cString, stored,
    Ty.extract, skipSpace_ne_nil text, Ty.parse]

/-- The amount in the command is the price, as a double, with six digits. -/
theorem amount_written (d : G.m.doubles.IsBinary64) (pg : PgLogin) {r : Rat} (nonneg : 0 ≤ r)
    (price : priceOf G db mall_id ad_group_id type = r) :
    amountIn (ownerOf G db mall_id ad_group_id)
      ((getChargeCmd G db mall_id ad_id ad_group_id type).command G.m.doubles pg) =
        some (-rounded 10 6 r) := by
  obtain ⟨after, text⟩ := command_eq G.m.doubles pg (getChargeCmd G db mall_id ad_id ad_group_id type)
  have change : (getChargeCmd G db mall_id ad_id ad_group_id type).change = -r := by
    simp [getChargeCmd, price, nonneg]
  have owner : (getChargeCmd G db mall_id ad_id ad_group_id type).owner_id =
      ownerOf G db mall_id ad_group_id := rfl
  have ends : EndsReal (',' :: after) := by simp [EndsReal]
  rw [text, change, owner, amountIn, List.drop_left, d.print, scanReal_general 5 (-r) ends,
    Option.map_some, rounded_neg]

/-- The amount in the command is the price, with the other sign, if and only if
the price has at most six significant digits and is no greater than every double. -/
theorem charge_exact_iff (G : Globals) (redis : G.type = .redis) (d : G.m.doubles.IsBinary64)
    (pg : PgLogin) (db : Db) (mall_id ad_id ad_group_id : Int32) (type : ChargeType) (k : Nat)
    {t : Text}
    (stored : db (Key.adGroup mall_id.toInt ad_group_id.toInt (.price type)).text = some (.str t))
    (text : scanReal (cString t) = some ((k : Rat) / 100, [])) :
    amountIn (ownerOf G db mall_id ad_group_id)
        ((getChargeCmd G db mall_id ad_id ad_group_id type).command G.m.doubles pg) =
          some (-((k : Rat) / 100)) ↔
      HasDigits 10 6 ((k : Rat) / 100) ∧ (k : Rat) / 100 ≤ binary64.greatest := by
  have price := priceOf_stored (G := G) redis stored text
  rw [d.read] at price
  have size : (k : Rat) / 100 = 0 ∨ 2 ^ (-1022 : Int) ≤ (k : Rat) / 100 := by
    have small : (2 : Rat) ^ (-1022 : Int) ≤ (2 : Rat) ^ (-7 : Int) :=
      zpow_le_zpow_right₀ (by decide) (by decide)
    have unit : (2 : Rat) ^ (-7 : Int) ≤ 1 / 100 := by norm_num
    exact (hundredths k).imp_right fun large => le_trans (le_trans small unit) large
  rw [amount_written d pg (read_nonneg text (by positivity)) price, Option.some_inj, neg_inj,
    rounded_read_iff text size]

end

/-! ## Amounts to compute with -/

def ieeeGlobals : Globals := ⟨.redis, Machine.binary64, utcFirstDay, 10, 10⟩

/-- The group 4 of mall 3 pays the price for a click. -/
def pricedDb (price : String) : Db :=
  Db.empty.put (Key.adGroup 3 4 (.price .click)).text (.str price.toList)

def login : PgLogin := ⟨"woyoadmin".toList, "pg".toList, "wushuu".toList, "adsweb".toList⟩

theorem charge_exact_iff_small :
    amountIn (ownerOf ieeeGlobals (pricedDb "1.20") 3 4)
      ((getChargeCmd ieeeGlobals (pricedDb "1.20") 3 1 4 .click).command
        ieeeGlobals.m.doubles login) = some (-(((120 : Nat) : Rat) / 100)) := by
  have text : scanReal (cString "1.20".toList) = some (((120 : Nat) : Rat) / 100, []) := by
    decide +kernel
  exact (charge_exact_iff ieeeGlobals rfl Machine.isBinary64 login (pricedDb "1.20") 3 1 4 .click
    120 (Db.put_self _ _ _) text).mpr ⟨⟨12, -1, by decide, by norm_num⟩, by decide +kernel⟩

/-- A price of seven digits is charged with six. -/
theorem charge_rounded : ∃ q : Rat,
    scanReal (cString "12345.67".toList) = some (((1234567 : Nat) : Rat) / 100, []) ∧
    amountIn (ownerOf ieeeGlobals (pricedDb "12345.67") 3 4)
      ((getChargeCmd ieeeGlobals (pricedDb "12345.67") 3 1 4 .click).command
        ieeeGlobals.m.doubles login) = some q ∧ q ≠ -(((1234567 : Nat) : Rat) / 100) := by
  have text : scanReal (cString "12345.67".toList) = some (((1234567 : Nat) : Rat) / 100, []) := by
    decide +kernel
  have price : priceOf ieeeGlobals (pricedDb "12345.67") 3 4 .click = _ :=
    priceOf_stored rfl (Db.put_self _ _ _) text
  refine ⟨_, text, amount_written Machine.isBinary64 login (read_nonneg text (by norm_num)) price, ?_⟩
  intro same
  have few := rounded_hasDigits (b := 10) (n := 6) (by decide) (by decide)
    (binary64.read (cString "12345.67".toList))
  rw [neg_inj.mp same] at few
  have size : (((1234567 : Nat) : Rat) / 100) ≠ 0 := by norm_num
  have lead : (4 : Int) ≤ Int.log 10 |((1234567 : Nat) : Rat) / 100| :=
    (Int.zpow_le_iff_le_log (by decide) (abs_pos.mpr size)).mp (by norm_num)
  obtain ⟨m, hm⟩ := few.at_place (by decide) size (by omega : (-1 : Int) ≤ _)
  have whole : (1234567 : Rat) = ((10 * m : Int) : Rat) := by
    push_cast at hm ⊢
    rw [zpow_neg_one] at hm
    linarith
  have whole' : (1234567 : Int) = 10 * m := by exact_mod_cast whole
  omega

end AdMap

end SimpleDsp
