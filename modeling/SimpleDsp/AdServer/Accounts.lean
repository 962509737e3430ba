import SimpleDsp.AdServer.Functions
import SimpleDsp.AdMap.Serving
import SimpleDsp.Lib.Monitors
import SimpleDsp.Lib.Ledgers

/-!
# Counters, answers and charges among other processes

Any number of `ad_op` processes answer requests at the same time. An ad is counted before it is
charged for, so a process in between, or killed there, owes a charge.

* `Books`: what a process has counted and not charged for yet, and what it has charged for;
* `keeps_main`: it charges for what it has counted, and for what it names in its answers;
* `Tallied`: what counters and charges have to do with the books of all processes;
* `counters_charges_answers`: so nothing is charged for unless it is counted, and all answers
  are charged for.
-/

namespace SimpleDsp

open DecimalText Programs
open AdMap (Globals UserPosition Tally Highest Bid AdNode Ret Charge AdState IsCounter counterKey
  counterKey_inj charged ZeroCounters)

namespace AdServer

variable {G : Globals}

/-! ## What only reads -/

def Cmd.Reads : Cmd → Prop
  | .incr _ | .exec _ => False
  | _ => True

/-- It reads anything but the counters of ads. -/
def Cmd.Plain : Cmd → Prop
  | .get _ k _ => IsCounter k = false
  | .incr _ | .exec _ => False
  | _ => True

theorem Cmd.Plain.reads {c : Cmd} (h : c.Plain) : c.Reads := by
  cases c with
  | incr | exec => exact h.elim
  | _ => trivial

theorem noThrow {α : Type} (p : AdM α) : p.NoThrow := by
  induction p with
  | ret a => trivial
  | throw e => exact e.elim
  | op c k ih => exact ih

theorem every_foldlM {φ : Cmd → Prop} {α γ : Type} {g : α → γ → AdM α}
    (round : ∀ a b, (g a b).Every φ) (l : List γ) (a : α) : (l.foldlM g a).Every φ := by
  induction l generalizing a with
  | nil => trivial
  | cons b l ih => exact (round a b).bind fun a' => ih a'

theorem plain_get {τ : Ty} {k : Key} {default_v : τ.Val} (h : IsCounter k = false) :
    (get τ k default_v).Every Cmd.Plain := ⟨h, fun _ => trivial⟩

theorem plain_smembers (τ : Ty) (k : Key) : (smembers τ k).Every Cmd.Plain :=
  ⟨trivial, fun _ => trivial⟩

theorem plain_zmembers (τ : Ty) (k : Key) : (zmembers τ k).Every Cmd.Plain :=
  ⟨trivial, fun _ => trivial⟩

theorem plain_userQuery (mac : UInt64) (mall_id : Int32) :
    (userQuery mac mall_id).Every Cmd.Plain := by
  refine (plain_get rfl).bind fun x => (plain_get rfl).bind fun y => ?_
  exact (plain_get rfl).bind fun z => trivial

theorem plain_userLabelSet (user_id : Int32) : (userLabelSet user_id).Every Cmd.Plain := by
  unfold userLabelSet
  split
  · exact ⟨trivial, fun _ => trivial⟩
  · trivial

theorem plain_checkMarketShop (user_id group_id mall_id : Int32) :
    (checkMarketShop G user_id group_id mall_id).Every Cmd.Plain := by
  refine (plain_smembers .int _).bind fun shop_id_list => ?_
  split
  · trivial
  · split
    · refine Prog.Every.bind ⟨trivial, fun t_now => plain_get rfl⟩ fun shop_id => ?_
      split <;> trivial
    · trivial

theorem plain_checkTimeRange (mall_id : Int32) (time : Int64) (ad_group_id : Int32) :
    (checkTimeRange mall_id time ad_group_id).Every Cmd.Plain := by
  refine (plain_get rfl).bind fun s_start => (plain_get rfl).bind fun s_end => ?_
  split
  · trivial
  · split <;> trivial

/-- The filters read no counters. -/
theorem plain_passes (user_id mall_id : Int32) (user_label_set : List Text) (it : Int32) :
    (passes G user_id mall_id user_label_set it).Every Cmd.Plain := by
  refine (plain_checkMarketShop user_id it mall_id).bind fun market => ?_
  split
  · refine (plain_get rfl).bind fun valid => ?_
    split
    · trivial
    · refine Prog.Every.bind ⟨trivial, fun _ => trivial⟩ fun t_now => ?_
      refine (plain_checkTimeRange mall_id t_now it).bind fun range => ?_
      split
      · refine Prog.Every.bind ((plain_smembers .string _).bind fun _ => trivial) fun cron => ?_
        split
        · exact (plain_smembers .string _).bind fun _ => trivial
        · trivial
      · trivial
  · trivial

theorem reads_tallyAd (show_price click_price : Rat) (mall_id : Int32) (s : Tally)
    (ad_id : Int32) : (tallyAd show_price click_price mall_id s ad_id).Every Cmd.Reads := by
  have one {τ : Ty} {k : Key} {default_v : τ.Val} : (get τ k default_v).Every Cmd.Reads :=
    ⟨trivial, fun _ => trivial⟩
  refine Prog.Every.bind (one.bind fun _ => trivial) fun valid => ?_
  split
  · refine one.bind fun show_counter => one.bind fun click_counter => one.bind fun weight => ?_
    trivial
  · trivial

theorem reads_getECPM (mall_id ad_group_id next_ad_id : Int32) :
    (getECPM mall_id ad_group_id next_ad_id).Every Cmd.Reads := by
  have one {τ : Ty} {k : Key} {default_v : τ.Val} : (get τ k default_v).Every Cmd.Reads :=
    ⟨trivial, fun _ => trivial⟩
  refine Prog.Every.bind ⟨trivial, fun _ => trivial⟩ fun ad_id_set => ?_
  refine one.bind fun show_price => one.bind fun click_price => ?_
  exact (every_foldlM (reads_tallyAd show_price click_price mall_id) _ _).bind fun s => trivial

theorem reads_bidFor (user_id mall_id : Int32) (user_label_set : List Text) {n : Nat}
    (lists : Highest n) (it : Int32) :
    (bidFor G user_id mall_id user_label_set lists it).Every Cmd.Reads := by
  refine ((plain_passes user_id mall_id user_label_set it).mono fun _ => Cmd.Plain.reads).bind
    fun pass => ?_
  split
  · exact (reads_getECPM mall_id it (-1)).bind fun e => trivial
  · trivial

theorem plain_adGroupList (pos : UserPosition) (user_id space_id mall_id : Int32) :
    (adGroupList G pos user_id space_id mall_id).Every Cmd.Plain := by
  refine (plain_zmembers .int _).bind fun ofSpace => ?_
  split
  · exact (plain_zmembers .int _).bind fun ofLocation => trivial
  · trivial

/-! ## What is charged for, and what answers say -/

/-- A charge; for a click the answer does not tell the group. -/
structure Bill where
  mall_id : Int32
  ad_id : Int32
  shownBy : Option Int32
  deriving DecidableEq

def billOf (c : Charge) : Bill :=
  ⟨c.mall_id, c.remark.ad_id,
    if c.remark.charge_type = .show then some c.remark.ad_group_id else none⟩

/-- What an answer has the owners of the ads charged for. -/
def billed : Request × Ret → List Bill
  | (.request _ _ _ mall_id _, ret) => ret.ad.map fun e => ⟨mall_id, e.id, some e.group_id⟩
  | (.click ad_id mall_id, ret) =>
    if ret.result = some "ok".toList then [⟨mall_id, ad_id, none⟩] else []

/-- The counter that a charge stands for. -/
def counterOfCharge (c : Charge) : Key := counterKey c.mall_id c.remark.ad_id c.remark.charge_type

/-- What a process has counted and not charged for yet, and what it has charged for. -/
structure Books where
  due : Option Key
  made : List Bill

def Books.blank : Books := ⟨none, []⟩

/-- At most one counter is due at a time, and nothing else is charged for. -/
def Keeps : Rules Cmd Cmd.Reply Books
  | b, .incr k, _, b' =>
    b.due = none ∧ (∃ mall_id ad_id type, k = counterKey mall_id ad_id type) ∧
      b' = { b with due := some k }
  | b, .exec c, _, b' =>
    b.due = some (counterOfCharge c) ∧ c.change ≤ 0 ∧ b' = ⟨none, b.made ++ [billOf c]⟩
  | b, _, _, b' => b' = b

theorem keeps_iff {c : Cmd} {r : c.Reply} {b b' : Books} (reads : c.Reads) :
    Keeps b c r b' ↔ b' = b := by
  cases c with
  | incr | exec => exact reads.elim
  | _ => rfl

section
variable {given : (c : Cmd) → c.Reply → Prop} {made : List Bill}

theorem keeps_reads {α : Type} {p : AdM α} (h : p.Every Cmd.Reads) (b : Books) :
    Obeys Keeps given p b (Returns fun _ b' => b' = b) :=
  obeys_of_every h (noThrow p) fun _ _ _ reads => (keeps_iff reads).mpr rfl

theorem keeps_plain {α : Type} {p : AdM α} (h : p.Every Cmd.Plain) (b : Books) :
    Obeys Keeps given p b (Returns fun _ b' => b' = b) :=
  keeps_reads (h.mono fun _ => Cmd.Plain.reads) b

theorem keeps_increaseAdTime (mall_id ad_id : Int32) (type : ChargeType) :
    Obeys Keeps given (increaseAdTime mall_id ad_id type) ⟨none, made⟩
      (Returns fun _ b => b = ⟨some (counterKey mall_id ad_id type), made⟩) :=
  fun _ _ => ⟨_, ⟨rfl, ⟨mall_id, ad_id, type, rfl⟩, rfl⟩, rfl⟩

theorem keeps_chargeAd (mall_id ad_id group_id : Int32) (type : ChargeType) :
    Obeys Keeps given (chargeAd mall_id ad_id group_id type)
      ⟨some (counterKey mall_id ad_id type), made⟩ (Returns fun _ b => b =
        ⟨none, made ++ [⟨mall_id, ad_id, if type = .show then some group_id else none⟩]⟩) := by
  intro price _
  refine ⟨_, rfl, fun owner_id _ => ⟨_, rfl, fun done _ => ⟨_, ⟨rfl, ?_, rfl⟩, rfl⟩⟩⟩
  by_cases positive : 0 ≤ (price : Rat)
  · simp only [if_pos positive]
    exact neg_nonpos.mpr positive
  · simp only [if_neg positive]
    exact le_of_lt (not_le.mp positive)

theorem keeps_showBid (mall_id : Int32) (bid : Bid) :
    Obeys Keeps given (showBid mall_id bid) ⟨none, made⟩ (Returns fun node b =>
      b = ⟨none, made ++ [⟨mall_id, node.id, some node.group_id⟩]⟩) := by
  have node : Obeys Keeps given (getAd mall_id bid.group bid.ad) ⟨none, made⟩
      (Returns fun node b => node.id = bid.ad ∧ node.group_id = bid.group ∧ b = ⟨none, made⟩) :=
    fun _ _ => ⟨_, rfl, fun _ _ => ⟨_, rfl, rfl, rfl, rfl⟩⟩
  refine node.next ?_
  rintro ad _ ⟨id, group, rfl⟩
  refine (keeps_increaseAdTime mall_id bid.ad .show).next ?_
  rintro _ _ rfl
  refine (keeps_chargeAd mall_id bid.ad bid.group .show).next ?_
  rintro _ _ rfl
  rw [← id, ← group]
  rfl

theorem keeps_showBids (mall_id : Int32) (bids : List Bid) :
    Obeys Keeps given (showBids mall_id bids) ⟨none, made⟩ (Returns fun ads b =>
      b = ⟨none, made ++ ads.map fun e => ⟨mall_id, e.id, some e.group_id⟩⟩) := by
  induction bids generalizing made with
  | nil => exact congrArg (Books.mk none) (List.append_nil made).symm
  | cons bid bids ih =>
    rw [showBids]
    split
    · refine (keeps_showBid mall_id bid).next ?_
      rintro ad _ rfl
      refine ih.next ?_
      rintro ads _ rfl
      exact congrArg (Books.mk none) (List.append_assoc ..)
    · exact congrArg (Books.mk none) (List.append_nil made).symm

theorem keeps_bidding (pos : UserPosition) (user_id space_id mall_id : Int32) (n : Nat) :
    Obeys Keeps given (bidding G pos user_id space_id mall_id n) ⟨none, made⟩
      (Returns fun ret b =>
        b = ⟨none, made ++ ret.ad.map fun e => ⟨mall_id, e.id, some e.group_id⟩⟩) := by
  refine (keeps_plain (plain_adGroupList pos user_id space_id mall_id) _).next ?_
  rintro groups _ rfl
  refine (keeps_plain (plain_userLabelSet user_id) _).next ?_
  rintro labels _ rfl
  refine (keeps_reads (every_foldlM (reads_bidFor user_id mall_id labels) groups _) _).next ?_
  rintro lists _ rfl
  refine (keeps_showBids mall_id (List.ofFn lists.bid)).next ?_
  rintro ads _ rfl
  rfl

theorem keeps_adClick (ad_id mall_id : Int32) :
    Obeys Keeps given (adClick ad_id mall_id) ⟨none, made⟩
      (Returns fun ret b => b = ⟨none, made ++ billed (.click ad_id mall_id, ret)⟩) := by
  refine (keeps_plain (plain_get rfl) _).next ?_
  rintro group_id _ rfl
  split
  · exact congrArg (Books.mk none) (List.append_nil made).symm
  · refine (keeps_increaseAdTime mall_id ad_id .click).next ?_
    rintro _ _ rfl
    refine (keeps_chargeAd mall_id ad_id group_id .click).next ?_
    rintro _ _ rfl
    rfl

theorem keeps_answer (request : Request) :
    Obeys Keeps given (request.answer G) ⟨none, made⟩
      (Returns fun ret b => b = ⟨none, made ++ billed (request, ret)⟩) := by
  cases request with
  | request mac user_id space_id mall_id n =>
    refine (keeps_plain (plain_userQuery mac mall_id) _).next ?_
    rintro pos _ rfl
    exact keeps_bidding pos user_id space_id mall_id n
  | click ad_id mall_id => exact keeps_adClick ad_id mall_id

/-- A process charges for what its answers say. -/
theorem keeps_main (requests : List Request) :
    Obeys Keeps given (main G requests) ⟨none, made⟩ (Returns fun rets b =>
      b = ⟨none, made ++ (requests.zip rets).flatMap billed⟩) := by
  induction requests generalizing made with
  | nil => exact congrArg (Books.mk none) (List.append_nil made).symm
  | cons request later ih =>
    refine (keeps_answer request).next ?_
    rintro ret _ rfl
    refine ih.next ?_
    rintro rets _ rfl
    exact congrArg (Books.mk none) (List.append_assoc ..)

end

/-! ## All processes -/

/-- A counter to be increased is below the bound. -/
def Below (bound : Nat) : Cmd → AdState → Prop
  | .incr k, s => ∀ n ∈ counterAt (s.db k.text), n < (bound : Int)
  | _, _ => True

instance (bound : Nat) : (c : Cmd) → (s : AdState) → Decidable (Below bound c s)
  | .incr k, s => inferInstanceAs (Decidable (∀ n ∈ counterAt (s.db k.text), n < (bound : Int)))
  | .get _ _ _, _ | .smembers _ _, _ | .zmembers _ _, _ | .hget _, _ | .time, _ | .exec _, _ =>
    inferInstanceAs (Decidable True)

/-- Any number of processes answer requests, while the counters stay within a bound. -/
def servers (G : Globals) (bound : Nat) (drift : AdState → AdState → Prop) :
    System Cmd Cmd.Reply Empty (List Ret) (List Request) AdState where
  start := main G
  exec _ _ c s r s' := exec G c s r s' ∧ Below bound c s
  drift := drift

/-- The answers as a function, as long as the counters stay within the bound. -/
def answersBelow (G : Globals) (bound : Nat) (now : Int64) (c : Cmd) (s : AdState) :
    Option (c.Reply × AdState) :=
  if Below bound c s then answers G now c s else none

theorem exec_answersBelow {G : Globals} {bound : Nat} {now : Int64} (c : Cmd) (s : AdState)
    (r : c.Reply × AdState) (h : answersBelow G bound now c s = some r) :
    exec G c s r.1 r.2 ∧ Below bound c s := by
  unfold answersBelow at h
  split at h
  · rename_i below
    exact ⟨exec_answers c s r h, below⟩
  · cases h

/-- Others change anything but the counters of ads, and issue no charges. -/
structure Elsewhere (s s' : AdState) : Prop where
  counters : ∀ mall_id ad_id type, s'.db (counterKey mall_id ad_id type).text =
    s.db (counterKey mall_id ad_id type).text
  charges : s'.charges = s.charges

/-- The processes that have counted `k` and not charged for it yet. -/
def owing (st : Nat → Books) (n : Nat) (k : Key) : Finset Nat :=
  (Finset.range n).filter fun i => (st i).due = some k

structure Tallied (s : AdState) (st : Nat → Books) (n : Nat) : Prop where
  counter : ∀ mall_id ad_id type, counterAt (s.db (counterKey mall_id ad_id type).text) =
    some ((charged mall_id ad_id type s.charges +
      (owing st n (counterKey mall_id ad_id type)).card : Nat) : Int)
  bills : ∀ b, (s.charges.map billOf).count b = ∑ i ∈ Finset.range n, (st i).made.count b
  change : ∀ c ∈ s.charges, c.change ≤ 0

theorem owing_next {st : Nat → Books} {n : Nat} (blank : st n = Books.blank) (k : Key) :
    owing st (n + 1) k = owing st n k := by
  rw [owing, Finset.range_add_one, Finset.filter_insert, blank]
  exact if_neg (by simp [Books.blank])

theorem mem_owing {st : Nat → Books} {n i : Nat} {k : Key} :
    i ∈ owing st n k ↔ i < n ∧ (st i).due = some k := by
  simp [owing]

section
variable {s s' : AdState} {st : Nat → Books} {n i : Nat}

/-- A process increments a counter. -/
theorem Tallied.counts (t : Tallied s st n) (lt : i < n) (free : (st i).due = none)
    {k : Key} (own : ∃ mall_id ad_id type, k = counterKey mall_id ad_id type)
    (room : Below (CBaseMdb.counterMax G.type) (.incr k) s) (made : List Bill)
    (same : (st i).made = made) :
    Tallied { s with db := (CBaseMdb.incr G.type G.m k.text 1 s.db).2 }
      (Function.update st i ⟨some k, made⟩) n := by
  obtain ⟨mall_id, ad_id, type, rfl⟩ := own
  have others (k : Key) (ne : k ≠ counterKey mall_id ad_id type) :
      owing (Function.update st i ⟨some (counterKey mall_id ad_id type), made⟩) n k =
        owing st n k := by
    ext j
    rw [mem_owing, mem_owing]
    by_cases here : j = i
    · subst here
      simp [free, Ne.symm ne]
    · rw [Function.update_of_ne here]
  have one : owing (Function.update st i ⟨some (counterKey mall_id ad_id type), made⟩) n
      (counterKey mall_id ad_id type) = insert i (owing st n (counterKey mall_id ad_id type)) := by
    ext j
    rw [Finset.mem_insert, mem_owing, mem_owing]
    by_cases here : j = i
    · subst here
      simp [lt]
    · simp [here]
  constructor
  · intro mall_id' ad_id' type'
    by_cases here : counterKey mall_id' ad_id' type' = counterKey mall_id ad_id type
    · obtain ⟨rfl, rfl, rfl⟩ := counterKey_inj.mp here
      have now := t.counter mall_id' ad_id' type'
      have new : i ∉ owing st n (counterKey mall_id' ad_id' type') := by
        rw [mem_owing, free]
        exact fun h => nomatch h.2
      rw [one, Finset.card_insert_of_notMem new, ← Nat.add_assoc]
      exact AdMap.increaseAdTime_self (s := s) now (Int.ofNat_lt.mp (room _ now))
    · rw [others _ here, ← t.counter mall_id' ad_id' type']
      exact congrArg counterAt (AdMap.incr_frame here s.db)
  · intro b
    rw [t.bills b]
    apply Finset.sum_congr rfl
    intro j _
    by_cases here : j = i
    · subst here
      rw [Function.update_self, same]
    · rw [Function.update_of_ne here]
  · exact t.change

/-- A process charges for what it has counted. -/
theorem Tallied.charges (t : Tallied s st n) (lt : i < n) {c : Charge}
    (due : (st i).due = some (counterOfCharge c)) (change : c.change ≤ 0) :
    Tallied { s with charges := s.charges ++ [c] }
      (Function.update st i ⟨none, (st i).made ++ [billOf c]⟩) n := by
  have less (k : Key) : owing (Function.update st i ⟨none, (st i).made ++ [billOf c]⟩) n k =
      (owing st n k).erase i := by
    ext j
    rw [Finset.mem_erase, mem_owing, mem_owing]
    by_cases here : j = i
    · subst here
      simp
    · simp [here]
  constructor
  · intro mall_id ad_id type
    rw [t.counter mall_id ad_id type, less]
    congr 2
    have one : charged mall_id ad_id type (s.charges ++ [c]) =
        charged mall_id ad_id type s.charges +
          if counterOfCharge c = counterKey mall_id ad_id type then 1 else 0 := by
      simp only [charged, List.countP_append, List.countP_singleton, counterOfCharge,
        counterKey_inj, decide_eq_true_eq]
    rw [one]
    by_cases here : counterOfCharge c = counterKey mall_id ad_id type
    · have mem : i ∈ owing st n (counterKey mall_id ad_id type) := mem_owing.mpr ⟨lt, here ▸ due⟩
      have some_ := Finset.card_pos.mpr ⟨i, mem⟩
      rw [if_pos here, Finset.card_erase_of_mem mem]
      omega
    · have none : i ∉ owing st n (counterKey mall_id ad_id type) := by
        rw [mem_owing, due]
        exact fun h => here (Option.some.inj h.2)
      rw [if_neg here, Finset.erase_eq_of_notMem none]
      rfl
  · intro b
    have mem := Finset.mem_range.mpr lt
    rw [List.map_append, List.count_append, t.bills b,
      ← Finset.add_sum_erase (Finset.range n) _ mem, ← Finset.add_sum_erase (Finset.range n) _ mem,
      Function.update_self, List.count_append]
    have others : ∑ j ∈ (Finset.range n).erase i, (Function.update st i
        ⟨none, (st i).made ++ [billOf c]⟩ j).made.count b =
        ∑ j ∈ (Finset.range n).erase i, (st j).made.count b := by
      apply Finset.sum_congr rfl
      intro j hj
      rw [Function.update_of_ne (Finset.ne_of_mem_erase hj)]
    rw [others]
    exact Nat.add_right_comm ..
  · intro c' hc'
    rcases List.mem_append.mp hc' with before | last
    · exact t.change c' before
    · rw [List.mem_singleton.mp last]
      exact change

end

theorem watches (G : Globals) : (servers G (CBaseMdb.counterMax G.type) Elsewhere).Watches Keeps
    Books.blank (fun _ _ => True)
    (fun requests => Returns fun rets b => b = ⟨none, (requests.zip rets).flatMap billed⟩)
    Tallied where
  obeys requests := keeps_main requests
  spawn s st n t blank := by
    constructor
    · intro mall_id ad_id type
      rw [owing_next blank]
      exact t.counter mall_id ad_id type
    · intro b
      rw [Finset.sum_range_succ, blank, t.bills b]
      rfl
    · exact t.change
  known _ _ _ _ _ _ _ _ _ _ := trivial
  act s st n i l c r s' b t lt done moved := by
    obtain ⟨done, room⟩ := done
    have still (reads : c.Reads) (same : s' = s) : Tallied s' (Function.update st i b) n := by
      rw [(keeps_iff reads).mp moved, Function.update_eq_self, same]
      exact t
    cases c with
    | get | smembers | zmembers | hget => exact still trivial done.2
    | time => exact still trivial done
    | incr k =>
      obtain ⟨-, rfl⟩ := done
      obtain ⟨free, own, rfl⟩ := moved
      exact t.counts lt free own room _ rfl
    | exec c =>
      obtain rfl := done
      obtain ⟨due, change, rfl⟩ := moved
      exact t.charges lt due change
  drift s st n s' t moved := by
    constructor
    · intro mall_id ad_id type
      rw [moved.counters, moved.charges]
      exact t.counter mall_id ad_id type
    · rw [moved.charges]
      exact t.bills
    · rw [moved.charges]
      exact t.change

/-- How often the answers of a process that has ended have this charged for. -/
def answered (b : Bill) : List Request × AdM (List Ret) → Nat
  | (requests, .ret rets) => ((requests.zip rets).flatMap billed).count b
  | _ => 0

/-- One, for a process that has not come to its end. -/
def unfinished : List Request × AdM (List Ret) → Nat
  | (_, .op _ _) => 1
  | _ => 0

section
variable {s0 : AdState} {p : Pool Cmd Cmd.Reply Empty (List Ret) (List Request) AdState}

/-- What the books of a process have to do with where it stands. -/
structure Audited (t : List Request × AdM (List Ret)) (b : Books) : Prop where
  due : ∀ k, (if b.due = some k then 1 else 0) ≤ unfinished t
  made : ∀ bill, answered bill t ≤ b.made.count bill
  settled : unfinished t = 0 → ∀ bill, answered bill t = b.made.count bill

theorem audited {requests : List Request} {q : AdM (List Ret)} {b : Books}
    (obeys : Obeys Keeps (fun _ _ => True) q b
      (Returns fun rets b => b = ⟨none, (requests.zip rets).flatMap billed⟩)) :
    Audited (requests, q) b := by
  cases q with
  | ret rets =>
    have ended : b = ⟨none, (requests.zip rets).flatMap billed⟩ := obeys
    subst ended
    exact ⟨fun k => Nat.le_refl 0, fun bill => Nat.le_refl _, fun _ bill => rfl⟩
  | throw e => exact e.elim
  | op c k =>
    refine ⟨fun key => ?_, fun bill => Nat.zero_le _, fun ended => nomatch ended⟩
    split
    · exact Nat.le_refl 1
    · exact Nat.zero_le 1

theorem reach_tallied (zero : ZeroCounters s0)
    (reach : (servers G (CBaseMdb.counterMax G.type) Elsewhere).Reach s0 p) : ∃ st,
      Tallied p.world st p.threads.length ∧
      ∀ i ∈ Finset.range p.threads.length, ∃ t, p.threads[i]? = some t ∧ Audited t (st i) := by
  have start : Tallied s0 (fun _ => Books.blank) 0 := by
    constructor
    · intro mall_id ad_id type
      rw [zero.charges]
      exact zero.counter mall_id ad_id type
    · rw [zero.charges]
      exact fun b => rfl
    · rw [zero.charges]
      exact fun c none => nomatch none
  obtain ⟨st, tallied, watched⟩ := (watches G).reach start reach
  refine ⟨st, tallied, fun i hi => ?_⟩
  have here := List.getElem?_eq_getElem (Finset.mem_range.mp hi)
  exact ⟨_, here, audited (watched.obeys i _ _ here)⟩

/-- A request of nobody known for one ad in space 28. -/
def askOnce : List Request := [.request 5 0 28 3 1]

/-- One process has just counted its ad, when another one answers a whole request. -/
def overtaken : Option (Pool Cmd Cmd.Reply Empty (List Ret) (List Request) AdState) :=
  Pool.runs (answersBelow AdMap.plainGlobals (CBaseMdb.counterMax .redis) 0) [(0, 21), (1, 30)]
    ⟨AdMap.sharedAd, [(askOnce, main AdMap.plainGlobals askOnce),
      (askOnce, main AdMap.plainGlobals askOnce)]⟩

theorem overtaken_reach {p : Pool Cmd Cmd.Reply Empty (List Ret) (List Request) AdState}
    (h : overtaken = some p) :
    (servers AdMap.plainGlobals (CBaseMdb.counterMax .redis) Elsewhere).Reach AdMap.sharedAd p :=
  ((System.Reach.start.spawn askOnce).spawn askOnce).runs (fun _ _ => exec_answersBelow) h

/-- At every moment an ad has been counted at least as often as it has been charged for, and
at most once more for each process that has not ended; everything that is named in the answers
of processes that have ended has been charged for, and nobody is ever paid. When all processes
have ended, the counters are the charges and the charges what the answers name. -/
theorem counters_charges_answers (zero : ZeroCounters s0)
    (reach : (servers G (CBaseMdb.counterMax G.type) Elsewhere).Reach s0 p) :
    (∀ mall_id ad_id type, ∃ n : Nat,
      counterAt (p.world.db (counterKey mall_id ad_id type).text) = some (n : Int) ∧
      charged mall_id ad_id type p.world.charges ≤ n ∧
      n ≤ charged mall_id ad_id type p.world.charges + (p.threads.map unfinished).sum) ∧
    (∀ b, (p.threads.map (answered b)).sum ≤ (p.world.charges.map billOf).count b) ∧
    ((p.threads.map unfinished).sum = 0 →
      ∀ b, (p.threads.map (answered b)).sum = (p.world.charges.map billOf).count b) ∧
    ∀ c ∈ p.world.charges, c.change ≤ 0 := by
  obtain ⟨st, tallied, threads⟩ := reach_tallied zero reach
  refine ⟨fun mall_id ad_id type => ?_, fun b => ?_, fun ended b => ?_, tallied.change⟩
  · refine ⟨_, tallied.counter mall_id ad_id type, Nat.le_add_right _ _, ?_⟩
    rw [owing, Finset.card_filter, sum_threads]
    refine Nat.add_le_add_left (Finset.sum_le_sum fun i hi => ?_) _
    obtain ⟨t, here, audit⟩ := threads i hi
    rw [here]
    exact audit.due _
  · rw [tallied.bills b, sum_threads]
    refine Finset.sum_le_sum fun i hi => ?_
    obtain ⟨t, here, audit⟩ := threads i hi
    rw [here]
    exact audit.made b
  · rw [sum_threads] at ended
    rw [tallied.bills b, sum_threads]
    refine Finset.sum_congr rfl fun i hi => ?_
    have stopped := Finset.sum_eq_zero_iff.mp ended i hi
    obtain ⟨t, here, audit⟩ := threads i hi
    rw [here] at stopped ⊢
    exact audit.settled stopped b

/-- The ad is counted twice and charged for once. -/
theorem counters_charges_answers_overtaken : ∃ p,
    (servers AdMap.plainGlobals (CBaseMdb.counterMax .redis) Elsewhere).Reach AdMap.sharedAd p ∧
    counterAt (p.world.db (counterKey 3 1 .show).text) = some 2 ∧
    charged 3 1 .show p.world.charges = 1 ∧ (p.threads.map unfinished).sum = 1 ∧
    (p.threads.map (answered ⟨3, 1, some 4⟩)).sum = 1 ∧
    ∀ b, (p.threads.map (answered b)).sum ≤ (p.world.charges.map billOf).count b := by
  have facts : overtaken.map (fun p => (counterAt (p.world.db (counterKey 3 1 .show).text),
      charged 3 1 .show p.world.charges, (p.threads.map unfinished).sum,
      (p.threads.map (answered ⟨3, 1, some 4⟩)).sum)) = some (some 2, 1, 1, 1) := by
    decide +kernel
  obtain ⟨p, ran, same⟩ := Option.map_eq_some_iff.mp facts
  simp only [Prod.mk.injEq] at same
  obtain ⟨counter, charges, running, named⟩ := same
  have reach := overtaken_reach ran
  have told := counters_charges_answers AdMap.sharedAd_zero reach
  exact ⟨p, reach, counter, charges, running, named, told.2.1⟩

end

end AdServer

end SimpleDsp
