import SimpleDsp.UserMap.MacNumber

/-!
# How the source streams its keys

`streamed` has, for each record, what `get_data_entry` or a key stream is given,
item by item.

* `keyText_eq`: the items one after the other are the text of the key;
* `records_share_no_key`.
-/

namespace SimpleDsp

open DecimalText

namespace UserMap

/-- An argument of `get_data_entry`. -/
inductive Item
  | chars (t : String)
  | string (t : Text)
  | int (v : Int)
  | ull (v : UInt64)

/-- `ss_entry<<t` -/
def Item.print : Item → Text
  | chars t => t.toList
  | string t => t
  | int v => decimal v
  | ull v => digits v.toNat

def adItems : AdAttr → List Item
  | .valid => [.chars ":valid"]
  | .counter type => [.chars ":", .string type.text, .chars ".counter"]
  | .weight => [.chars ":weight"]
  | .content => [.chars ":content"]
  | .jumpUrl => [.chars ":jump.url"]
  | .group => [.chars ":group"]

def groupItems : GroupAttr → List Item
  | .adSet => [.chars ":ad.set"]
  | .price type => [.chars ":", .string type.text, .chars ".price"]
  | .cronTimeSet => [.chars ":cron.time.set"]
  | .marketStart => [.chars ":market.start"]
  | .marketEnd => [.chars ":market.end"]
  | .marketShopSet => [.chars ":market.shop.set"]
  | .valid => [.chars ":valid"]
  | .targetLabelSet => [.chars ":target.label.set"]
  | .owner => [.chars ":owner"]

/-- `tair_get_user_time` is given the address as text, the way `uint64_to_str`
prints it. -/
def streamed : Key → List Item
  | .location mall_id mac prop =>
    [.chars "location:", .int mall_id, .chars ":", .ull mac, .chars ":", .string prop.text]
  | .locationHex mall_id mac prop =>
    [.chars "location:", .int mall_id, .chars ":", .string (uint64ToStr (.ofNat mac.toNat)),
      .chars ":", .string prop.text]
  | .locationShop mall_id shop_id mac =>
    [.chars "location:", .int mall_id, .chars ":", .int shop_id, .chars ":", .ull mac,
      .chars ":time"]
  | .logCounter mall_id slice =>
    [.chars "location.log:", .int mall_id, .chars ":", .string slice.text, .chars ":counter"]
  | .logDataTimeSet mall_id => [.chars "location.log:", .int mall_id, .chars ":data.time.set"]
  | .logMacSet mall_id slice =>
    [.chars "location.log:", .int mall_id, .chars ":", .string slice.text, .chars ":mac.set"]
  | .logLocLogSet mall_id slice mac =>
    [.chars "location.log:", .int mall_id, .chars ":", .string slice.text, .chars ":", .ull mac,
      .chars ":loc.log.set"]
  | .logEntry mall_id slice log_id prop =>
    [.chars "location.log:", .int mall_id, .chars ":", .string slice.text, .chars ":", .int log_id,
      .chars ":", .string prop.text]
  | .userDuration date mall_id user_id =>
    [.chars "user:", .string date.text, .chars ":", .int mall_id, .chars ":", .int user_id,
      .chars ":duration"]
  | .userShopDuration date mall_id shop_id user_id =>
    [.chars "user:", .string date.text, .chars ":", .int mall_id, .chars ":", .int shop_id,
      .chars ":", .int user_id, .chars ":duration"]
  | .shopDuration date mall_id shop_id =>
    [.chars "shop:", .string date.text, .chars ":", .int mall_id, .chars ":", .int shop_id,
      .chars ":users.duration"]
  | .mallDuration date mall_id =>
    [.chars "mall:", .string date.text, .chars ":", .int mall_id, .chars ":users.duration"]
  | .isMallVip mall_id user_id =>
    [.chars "user:", .int mall_id, .chars ":", .int user_id, .chars ":is.mall.vip"]
  | .vipArriveTime mall_id => [.chars "user.vip:", .int mall_id, .chars ":arrive.time"]
  | .shopArriveTime is_vip mall_id shop_id =>
    [.chars (if is_vip then "user.vip:" else "user:"), .int mall_id, .chars ":", .int shop_id,
      .chars ":arrive.time"]
  | .macSetDaily date mall_id =>
    [.chars "mac.set:", .string date.text, .chars ":", .int mall_id, .chars ":daily"]
  | .locationUpdateTime date mall_id =>
    [.chars "location.update.time:", .string date.text, .chars ":", .int mall_id]
  | .locationUpdateTimeShop date mall_id shop_id =>
    [.chars "location.update.time:", .string date.text, .chars ":", .int mall_id, .chars ":",
      .int shop_id]
  | .userLabelSet user_id => [.chars "user:", .int user_id, .chars ":label.set"]
  | .userMac user_id => [.chars "user:", .int user_id, .chars ":mac"]
  | .userId mac => [.chars "mac:", .ull mac, .chars ":user.id"]
  | .userShopId date user_id =>
    [.chars "user:", .string date.text, .chars ":", .int user_id, .chars ":location.shop_id"]
  | .adSpace mall_id space_id =>
    [.chars "ad.space:", .int mall_id, .chars ":", .int space_id, .chars ":ad.group.set"]
  | .adLocation mall_id cell_x cell_y z =>
    [.chars "ad.location:", .int mall_id, .chars ":", .int cell_x, .chars ":", .int cell_y,
      .chars ":", .int z, .chars ":ad.group.set"]
  | .ad mall_id ad_id attr =>
    [.chars "ad:", .int mall_id, .chars ":", .int ad_id] ++ adItems attr
  | .adGroup mall_id group_id attr =>
    [.chars "ad.group:", .int mall_id, .chars ":", .int group_id] ++ groupItems attr
  | .config .sliceX => [.chars "config:slice.x"]
  | .config .sliceY => [.chars "config:slice.y"]

/-- The key as the source puts it together. -/
def keyText (k : Key) : Text := (streamed k).flatMap Item.print

theorem adItems_print (attr : AdAttr) : (adItems attr).flatMap Item.print = ':' :: attr.text := by
  cases attr <;> unfold AdAttr.text <;> simp [adItems, Item.print]

theorem groupItems_print (attr : GroupAttr) :
    (groupItems attr).flatMap Item.print = ':' :: attr.text := by
  cases attr <;> unfold GroupAttr.text <;> simp [groupItems, Item.print]

theorem keyText_eq (k : Key) : keyText k = k.text := by
  cases k with
  | locationHex mall_id mac prop =>
    have small : (UInt64.ofNat mac.toNat).toNat = mac.toNat := by
      have lt := mac.isLt
      exact UInt64.toNat_ofNat_of_lt' (by simp only [UInt64.size]; omega)
    simp [keyText, streamed, Item.print, Key.text, Key.words, uint64ToStr_eq, small, macWords,
      joined_cons_cons, joined_singleton]
  | shopArriveTime is_vip mall_id shop_id =>
    cases is_vip <;> simp [keyText, streamed, Item.print, Key.text, Key.words, joined_cons_cons,
      joined_singleton]
  | ad mall_id ad_id attr =>
    simp [keyText, streamed, Item.print, Key.text, Key.words, adItems_print, joined_cons_cons,
      joined_singleton]
  | adGroup mall_id group_id attr =>
    simp [keyText, streamed, Item.print, Key.text, Key.words, groupItems_print, joined_cons_cons,
      joined_singleton]
  | config attr => cases attr <;> rfl
  | _ => simp [keyText, streamed, Item.print, Key.text, Key.words, Key.macText, joined_cons_cons,
      joined_singleton]

/-- The keys of two records are equal only if it is one record and one attribute. -/
theorem records_share_no_key (a b : Key) : keyText a = keyText b ↔ a = b := by
  rw [keyText_eq, keyText_eq, Key.text_inj]

end UserMap

end SimpleDsp
