import SimpleDsp.Lib.RequestReply
import SimpleDsp.Store.Value

/-!
# Senders and dock

Every `ap_signal_sender` numbers its requests and waits for a reply with the same number;
after three polls without one it gives up. The `ap_signal_dock` sends each request back.

* `Step`: any number of senders, the dock and the wire between them;
* `step_orderly`: what one step keeps of each sender;
* `sender_prints`: replies come in order, one for each number, and none is malformed;
* `dock_handles`: what was acknowledged has been handled, and at most three times.
-/

namespace SimpleDsp

open DecimalText RequestReply

namespace Signals

/-! ## The sender -/

/-- Before we abandon -/
def REQUEST_RETRIES : Int := 3

/-- What a sender prints. -/
inductive Line
  | connecting
  | ok (reply : Text)
  | malformed (reply : Text)
  | abandoning
  | retrying
  deriving DecidableEq

/-- Where `main` of the sender is. A `ZMQ_REQ` socket that has `heard` its reply takes no
other before the next request. -/
inductive Place
  | top
  | polling (heard : Bool)
  | ended
  deriving DecidableEq

structure Sender where
  /-- How many sockets have been closed before the one that is open. -/
  socket : Nat
  sequence : Int
  retries_left : Int
  place : Place
  out : List Line

def Sender.start : Sender := ⟨0, 0, REQUEST_RETRIES, .top, [.connecting]⟩

def Sender.request (s : Sender) : Text := decimal s.sequence

/-- `request << ++sequence;` and `s_send (*client, request.str());` -/
def Sender.next (s : Sender) : Sender :=
  { s with sequence := s.sequence + 1, place := .polling false }

/-- `If we got a reply, process it` -/
def Sender.process (s : Sender) (reply : Text) : Sender :=
  if (atoi reply).toInt = s.sequence then
    { s with retries_left := REQUEST_RETRIES, place := .top, out := s.out ++ [.ok reply] }
  else { s with place := .polling true, out := s.out ++ [.malformed reply] }

/-- `--retries_left == 0` -/
def Sender.abandon (s : Sender) : Sender :=
  { s with retries_left := s.retries_left - 1, place := .top, out := s.out ++ [.abandoning] }

/-- `Old socket will be confused; close it and open a new one` -/
def Sender.retry (s : Sender) : Sender :=
  { s with
    retries_left := s.retries_left - 1
    socket := s.socket + 1
    place := .polling false
    out := s.out ++ [.retrying, .connecting] }

/-! ## All parties -/

/-- A sender and which of its sockets. -/
abbrev Address := Nat × Nat

abbrev Net := Wire Address Text Text

structure State where
  sender : Nat → Sender
  wire : Net

def State.start : State := ⟨fun _ => .start, .empty⟩

def State.put (s : State) (i : Nat) (t : Sender) (w : Net) : State :=
  ⟨Function.update s.sender i t, w⟩

/-- `s_send (*client, request.str());` -/
def State.sends (s : State) (i : Nat) (t : Sender) : State :=
  s.put i t (s.wire.send (i, t.socket) t.request)

/-- The dock sends back what it took. A poll may find nothing although the reply is on
its way. -/
inductive Step : State → State → Prop
  | send {s : State} (i : Nat) (top : (s.sender i).place = .top)
      (left : (s.sender i).retries_left ≠ 0) (fits : (s.sender i).sequence + 1 < 2 ^ 31) :
      Step s (s.sends i (s.sender i).next)
  | receive {s : State} (i : Nat) {reply : Text} {others : Multiset (Address × Text)}
      (waiting : (s.sender i).place = .polling false)
      (here : s.wire.replies = ((i, (s.sender i).socket), reply) ::ₘ others) :
      Step s (s.put i ((s.sender i).process reply)
        (s.wire.deliver (i, (s.sender i).socket) reply others))
  | abandon {s : State} (i : Nat) {heard : Bool} (polling : (s.sender i).place = .polling heard)
      (last : (s.sender i).retries_left - 1 = 0) : Step s (s.put i (s.sender i).abandon s.wire)
  | retry {s : State} (i : Nat) {heard : Bool} (polling : (s.sender i).place = .polling heard)
      (more : (s.sender i).retries_left - 1 ≠ 0) :
      Step s (s.sends i (s.sender i).retry)
  | exit {s : State} (i : Nat) (top : (s.sender i).place = .top)
      (none : (s.sender i).retries_left = 0) :
      Step s (s.put i { s.sender i with place := .ended } s.wire)
  | move {s : State} {w : Net} (moved : Move id s.wire w) : Step s { s with wire := w }

inductive Reach : State → Prop
  | start : Reach .start
  | next {s s' : State} : Reach s → Step s s' → Reach s'

/-! ## What a sender has printed -/

/-- Of `t` requests for one number all but the last were in vain. -/
def tried (t : Nat) : List Line := (List.replicate (t - 1) [.retrying, .connecting]).flatten

/-- The numbers after `n`, each acknowledged after as many requests as the list says. -/
def acknowledged (n : Nat) : List Nat → List Line
  | [] => []
  | t :: ts => tried t ++ .ok (decimal (n + 1 : Nat)) :: acknowledged (n + 1) ts

/-- What a sender has done when it has sent as many requests for each number as `ts` says. -/
inductive Told (s : Sender) : List Nat → Prop
  | idle {ts : List Nat} (place : s.place = .top) (left : s.retries_left = REQUEST_RETRIES)
      (sequence : s.sequence = ts.length) (out : s.out = .connecting :: acknowledged 0 ts) :
      Told s ts
  | waiting {ts : List Nat} {t : Nat} (place : s.place = .polling false)
      (left : s.retries_left = REQUEST_RETRIES + 1 - t) (sequence : s.sequence = ts.length + 1)
      (out : s.out = .connecting :: (acknowledged 0 ts ++ tried t)) : Told s (ts ++ [t])
  | abandoned {ts : List Nat} (place : s.place = .top ∨ s.place = .ended)
      (left : s.retries_left = 0) (sequence : s.sequence = ts.length + 1)
      (out : s.out = .connecting :: (acknowledged 0 ts ++ tried 3 ++ [.abandoning])) :
      Told s (ts ++ [3])

theorem tried_succ {t : Nat} (first : 1 ≤ t) : tried (t + 1) = tried t ++ [.retrying, .connecting] := by
  obtain ⟨t, rfl⟩ := Nat.exists_eq_add_of_le' first
  simp [tried, List.replicate_succ']

theorem acknowledged_append (n : Nat) (ts : List Nat) (t : Nat) :
    acknowledged n (ts ++ [t]) =
      acknowledged n ts ++ (tried t ++ [.ok (decimal (n + ts.length + 1 : Nat))]) := by
  induction ts generalizing n with
  | nil => simp [acknowledged]
  | cons u ts ih =>
    have shift : n + 1 + ts.length + 1 = n + (u :: ts).length + 1 := by
      rw [List.length_cons]
      omega
    rw [List.cons_append, acknowledged, ih, acknowledged, shift, List.append_assoc, List.cons_append]

theorem malformed_notMem_tried (t : Nat) (reply : Text) : .malformed reply ∉ tried t := by
  simp [tried, List.mem_flatten, List.mem_replicate]

theorem malformed_notMem_acknowledged (n : Nat) (ts : List Nat) (reply : Text) :
    .malformed reply ∉ acknowledged n ts := by
  induction ts generalizing n with
  | nil => simp [acknowledged]
  | cons t ts ih => simp [acknowledged, malformed_notMem_tried, ih]

theorem Told.no_malformed {s : Sender} {ts : List Nat} (h : Told s ts) (reply : Text) :
    .malformed reply ∉ s.out := by
  cases h with
  | idle _ _ _ out | waiting _ _ _ out | abandoned _ _ _ out =>
    rw [out]
    simp [malformed_notMem_tried, malformed_notMem_acknowledged]

/-! ## What a step keeps -/

/-- How often a number of the sender `i` is among the requests. -/
def timesAsked (requests : Multiset (Address × Text)) (i n : Nat) : Nat :=
  requests.countP fun m => m.1.1 = i ∧ m.2 = decimal n

structure Orderly (w : Net) (i : Nat) (s : Sender) (ts : List Nat) : Prop where
  told : Told s ts
  few : ∀ t ∈ ts, 1 ≤ t ∧ t ≤ 3
  small : s.sequence < 2 ^ 31
  times : ∀ n, timesAsked w.sent i (n + 1) = ts[n]?.getD 0
  idle : s.place = .top → s.retries_left ≠ 0 → Answered id w (i, s.socket) 0
  waiting : s.place = .polling false → Answered id w (i, s.socket) {s.request}
  unsent : ∀ g, s.socket < g → ∀ q, ((i, g), q) ∉ w.sent
  handled : ∀ n : Nat, .ok (decimal n) ∈ s.out → 0 < timesAsked w.taken i n

section
variable {w w' : Net} {i j : Nat} {s t : Sender} {ts : List Nat} {a : Address} {q reply : Text}
  {others : Multiset (Address × Text)}

theorem timesAsked_cons_other (ne : j ≠ i) (requests : Multiset (Address × Text)) (g n : Nat) :
    timesAsked (((j, g), q) ::ₘ requests) i n = timesAsked requests i n :=
  Multiset.countP_cons_of_neg _ fun h => ne h.1

theorem timesAsked_cons (requests : Multiset (Address × Text)) (g n m : Nat) :
    timesAsked (((i, g), decimal m) ::ₘ requests) i n =
      timesAsked requests i n + if m = n then 1 else 0 := by
  unfold timesAsked
  split
  · rename_i same
    exact Multiset.countP_cons_of_pos _ ⟨rfl, by rw [same]⟩
  · rename_i other
    exact Multiset.countP_cons_of_neg _ fun h =>
      other (Int.natCast_inj.mp (decimal_injective h.2))

theorem timesAsked_le {requests requests' : Multiset (Address × Text)} (h : requests ≤ requests')
    (i n : Nat) : timesAsked requests i n ≤ timesAsked requests' i n :=
  Multiset.countP_le_of_le _ h

/-! Other parties. -/

theorem Orderly.send_other (h : Orderly w i s ts) (ne : j ≠ i) (g : Nat) (q : Text) :
    Orderly (w.send (j, g) q) i s ts := by
  have away (g' : Nat) : (j, g) ≠ (i, g') := fun same => ne (Prod.mk.inj same).1
  refine { h with times := ?_, idle := ?_, waiting := ?_, unsent := ?_ }
  · intro n
    exact (timesAsked_cons_other ne w.sent g (n + 1)).trans (h.times n)
  · exact fun top left => (h.idle top left).send_other (away _) q
  · exact fun polling => (h.waiting polling).send_other (away _) q
  · intro g' later q' mem
    rcases Multiset.mem_cons.mp mem with same | before
    · exact away g' (Prod.mk.inj same).1.symm
    · exact h.unsent g' later q' before

theorem Orderly.deliver_other (h : Orderly w i s ts) (ne : j ≠ i) (g : Nat) :
    Orderly (w.deliver (j, g) reply others) i s ts := by
  have away (g' : Nat) : (j, g) ≠ (i, g') := fun same => ne (Prod.mk.inj same).1
  refine { h with idle := ?_, waiting := ?_ }
  · exact fun top left => (h.idle top left).deliver_other (away _) reply
  · exact fun polling => (h.waiting polling).deliver_other (away _) reply

theorem Orderly.move (h : Orderly w i s ts) (moved : Move id w w') : Orderly w' i s ts := by
  have sent : w'.sent = w.sent := by
    cases moved with
    | take | answer | restart | loseRequest | loseReply => rfl
  have taken : w.taken ≤ w'.taken := by
    cases moved with
    | take => exact Multiset.le_cons_self _ _
    | answer | restart | loseRequest | loseReply => exact le_refl _
  refine { h with times := ?_, idle := ?_, waiting := ?_, unsent := ?_, handled := ?_ }
  · intro n
    rw [sent]
    exact h.times n
  · exact fun top left => (h.idle top left).move moved
  · exact fun polling => (h.waiting polling).move moved
  · rw [sent]
    exact h.unsent
  · exact fun n ok => (h.handled n ok).trans_le (timesAsked_le taken i n)

/-! The sender itself. -/

theorem getD_concat (ts : List Nat) (t n : Nat) :
    (ts ++ [t])[n]?.getD 0 = ts[n]?.getD 0 + if ts.length = n then t else 0 := by
  rcases Nat.lt_trichotomy n ts.length with before | rfl | after
  · rw [List.getElem?_append_left before, if_neg (by omega), Nat.add_zero]
  · simp
  · have out : (ts ++ [t]).length ≤ n := by
      rw [List.length_append, List.length_singleton]
      omega
    rw [List.getElem?_eq_none out, List.getElem?_eq_none (by omega), if_neg (by omega)]
    rfl

/-- One more request for the number that `ts` has got to. -/
theorem times_send {w : Net} {ts us : List Nat} {g : Nat} {request : Text}
    (times : ∀ n, timesAsked w.sent i (n + 1) = us[n]?.getD 0)
    (number : request = decimal (ts.length + 1 : Nat)) {t : Nat}
    (more : ∀ n, (ts ++ [t])[n]?.getD 0 = us[n]?.getD 0 + if ts.length = n then 1 else 0) (n : Nat) :
    timesAsked (w.send (i, g) request).sent i (n + 1) = (ts ++ [t])[n]?.getD 0 := by
  rw [number]
  refine (timesAsked_cons w.sent g (n + 1) (ts.length + 1)).trans ?_
  rw [times, more]
  simp only [Nat.add_right_cancel_iff]

theorem unsent_send {w : Net} {g : Nat} (unsent : ∀ g', g < g' → ∀ q, ((i, g'), q) ∉ w.sent)
    (request : Text) (g' : Nat) (later : g < g') (q : Text) :
    ((i, g'), q) ∉ (w.send (i, g) request).sent := by
  intro mem
  rcases Multiset.mem_cons.mp mem with same | before
  · have := (Prod.mk.inj (Prod.mk.inj same).1).2
    omega
  · exact unsent g' later q before

theorem request_of_sequence {s : Sender} {n : Nat} (h : s.sequence = n + 1) :
    s.request = decimal (n + 1 : Nat) := by
  rw [Sender.request, h]
  rfl

theorem Orderly.next (h : Orderly w i s ts) (top : s.place = .top) (left : s.retries_left ≠ 0)
    (fits : s.sequence + 1 < 2 ^ 31) :
    ∃ ts', Orderly (w.send (i, s.socket) s.next.request) i s.next ts' := by
  obtain ⟨told, few, small, times, idle, waiting, unsent, handled⟩ := h
  cases told with
  | waiting place =>
    rw [place] at top
    cases top
  | abandoned _ none => exact absurd none left
  | idle _ all sequence out =>
    have number : s.next.sequence = ts.length + 1 := by rw [Sender.next, sequence]
    refine ⟨ts ++ [1], .waiting rfl ?_ number ?_, ?_, fits, ?_, ?_, ?_, ?_, ?_⟩
    · change s.retries_left = _
      rw [all]
      rfl
    · change s.out = _
      rw [out]
      exact congrArg _ (List.append_nil _).symm
    · intro t mem
      rcases List.mem_append.mp mem with old | new
      · exact few t old
      · rw [List.mem_singleton.mp new]
        omega
    · exact times_send times (request_of_sequence number) fun n => getD_concat ts 1 n
    · intro top'
      cases top'
    · exact fun _ => (idle top left).send _
    · exact unsent_send unsent _
    · exact handled

theorem Orderly.retry (h : Orderly w i s ts) (accounts : Accounts id w) {heard : Bool}
    (polling : s.place = .polling heard) (more : s.retries_left - 1 ≠ 0) :
    ∃ ts', Orderly (w.send (i, s.retry.socket) s.retry.request) i s.retry ts' := by
  obtain ⟨told, few, small, times, idle, waiting, unsent, handled⟩ := h
  cases told with
  | idle place =>
    rw [place] at polling
    cases polling
  | abandoned place =>
    rcases place with place | place <;>
    · rw [place] at polling
      cases polling
  | @waiting ts t _ left sequence out =>
    have tries := few t (by simp)
    have further : t < 3 := by
      rw [left, REQUEST_RETRIES] at more
      omega
    refine ⟨ts ++ [t + 1], .waiting rfl ?_ sequence ?_, ?_, small, ?_, ?_, ?_, ?_, ?_⟩
    · change s.retries_left - 1 = _
      rw [left]
      push_cast
      omega
    · change s.out ++ _ = _
      rw [out, tried_succ tries.1, List.cons_append, List.append_assoc]
    · intro u mem
      rcases List.mem_append.mp mem with old | new
      · exact few u (List.mem_append_left _ old)
      · rw [List.mem_singleton.mp new]
        omega
    · apply times_send times (request_of_sequence sequence)
      intro n
      rw [getD_concat, getD_concat]
      split <;> omega
    · intro top
      cases top
    · exact fun _ => (answered_none (unsent _ (Nat.lt_succ_self _)) accounts).send _
    · exact unsent_send (fun g later => unsent g (Nat.lt_of_succ_lt later)) _
    · intro n ok
      apply handled
      rcases List.mem_append.mp ok with before | new
      · exact before
      · simp at new

theorem Orderly.abandon (h : Orderly w i s ts) {heard : Bool}
    (polling : s.place = .polling heard) (last : s.retries_left - 1 = 0) :
    ∃ ts', Orderly w i s.abandon ts' := by
  obtain ⟨told, few, small, times, idle, waiting, unsent, handled⟩ := h
  cases told with
  | idle place =>
    rw [place] at polling
    cases polling
  | abandoned place =>
    rcases place with place | place <;>
    · rw [place] at polling
      cases polling
  | @waiting ts t _ left sequence out =>
    obtain rfl : t = 3 := by
      rw [left, REQUEST_RETRIES] at last
      omega
    refine ⟨ts ++ [3], .abandoned (Or.inl rfl) last sequence ?_, few, small, times, ?_, ?_, unsent, ?_⟩
    · change s.out ++ _ = _
      rw [out]
      rfl
    · exact fun _ left => absurd last left
    · intro polling
      cases polling
    · intro n ok
      apply handled
      rcases List.mem_append.mp ok with before | new
      · exact before
      · simp at new

theorem Orderly.exit (h : Orderly w i s ts) (none : s.retries_left = 0) (top : s.place = .top) :
    Orderly w i { s with place := .ended } ts := by
  obtain ⟨told, few, small, times, idle, waiting, unsent, handled⟩ := h
  refine ⟨?_, few, small, times, ?_, ?_, unsent, handled⟩
  · cases told with
    | idle _ left =>
      rw [none] at left
      cases left
    | waiting place =>
      rw [top] at place
      cases place
    | abandoned _ left sequence out => exact .abandoned (Or.inr rfl) left sequence out
  · intro top
    cases top
  · intro polling
    cases polling

/-- The reply that comes is the one to the last request. -/
theorem Orderly.process (h : Orderly w i s ts) (accounts : Accounts id w)
    (polling : s.place = .polling false)
    (here : w.replies = ((i, s.socket), reply) ::ₘ others) :
    ∃ ts', Orderly (w.deliver (i, s.socket) reply others) i (s.process reply) ts' := by
  obtain ⟨told, few, small, times, idle, waiting, unsent, handled⟩ := h
  obtain ⟨rfl, answered⟩ := (waiting polling).deliver accounts here
  cases told with
  | idle place =>
    rw [place] at polling
    cases polling
  | abandoned place =>
    rcases place with place | place <;>
    · rw [place] at polling
      cases polling
  | @waiting ts t _ left sequence out =>
    have request := request_of_sequence sequence
    have number : (atoi (id s.request)).toInt = s.sequence := by
      rw [id, request, atoi_decimal (by omega), sequence]
      rfl
    have ok : s.process (id s.request) =
        { s with retries_left := REQUEST_RETRIES, place := .top, out := s.out ++ [.ok s.request] } :=
      if_pos number
    rw [ok]
    refine ⟨ts ++ [t], .idle rfl rfl ?_ ?_, few, small, times, ?_, ?_, unsent, ?_⟩
    · change s.sequence = _
      rw [sequence, List.length_append, List.length_singleton]
      rfl
    · change s.out ++ _ = _
      rw [out, request, acknowledged_append, Nat.zero_add, List.cons_append, List.append_assoc]
    · exact fun _ _ => answered
    · intro polling
      cases polling
    · intro n ok
      rcases List.mem_append.mp ok with before | new
      · exact handled n before
      · have same : decimal n = s.request := Line.ok.inj (List.mem_singleton.mp new)
        have delivered := accounts.deliver here
        obtain ⟨q, taken, rfl⟩ := delivered.taken_of_delivered (Multiset.mem_cons_self _ _)
        exact Multiset.countP_pos.mpr ⟨_, taken, rfl, same.symm⟩

end

/-! ## Every run -/

structure Invariant (s : State) : Prop where
  accounts : Accounts id s.wire
  orderly : ∀ i, ∃ ts, Orderly s.wire i (s.sender i) ts

theorem invariant_start : Invariant .start where
  accounts := accounts_empty
  orderly i := by
    have small : Sender.start.sequence < 2 ^ 31 := by decide
    refine ⟨[], .idle rfl rfl rfl rfl, by simp, small, fun _ => rfl, fun _ _ => rfl, ?_, ?_, ?_⟩
    · intro polling
      cases polling
    · exact fun _ _ _ => Multiset.notMem_zero _
    · intro n ok
      simp [State.start, Sender.start] at ok

theorem invariant_put {s : State} {i : Nat} {t : Sender} {w : Net} (accounts : Accounts id w)
    (mine : ∃ ts, Orderly w i t ts) (others : ∀ j, i ≠ j → ∃ ts, Orderly w j (s.sender j) ts) :
    Invariant (s.put i t w) := by
  refine ⟨accounts, fun j => ?_⟩
  by_cases same : j = i
  · subst same
    simpa [State.put] using mine
  · simpa [State.put, same] using others j (Ne.symm same)

theorem step_orderly {s s' : State} (step : Step s s') (inv : Invariant s) : Invariant s' := by
  obtain ⟨accounts, orderly⟩ := inv
  cases step with
  | send i top left fits =>
    obtain ⟨ts, mine⟩ := orderly i
    refine invariant_put (accounts.send _ _) (mine.next top left fits) fun j ne => ?_
    obtain ⟨us, other⟩ := orderly j
    exact ⟨us, other.send_other ne _ _⟩
  | receive i waiting here =>
    obtain ⟨ts, mine⟩ := orderly i
    refine invariant_put (accounts.deliver here) (mine.process accounts waiting here) fun j ne => ?_
    obtain ⟨us, other⟩ := orderly j
    exact ⟨us, other.deliver_other ne _⟩
  | abandon i polling last =>
    obtain ⟨ts, mine⟩ := orderly i
    exact invariant_put accounts (mine.abandon polling last) fun j _ => orderly j
  | retry i polling more =>
    obtain ⟨ts, mine⟩ := orderly i
    refine invariant_put (accounts.send _ _) (mine.retry accounts polling more) fun j ne => ?_
    obtain ⟨us, other⟩ := orderly j
    exact ⟨us, other.send_other ne _ _⟩
  | exit i top none =>
    obtain ⟨ts, mine⟩ := orderly i
    exact invariant_put accounts ⟨ts, mine.exit none top⟩ fun j _ => orderly j
  | move moved =>
    refine ⟨accounts.move moved, fun i => ?_⟩
    obtain ⟨ts, mine⟩ := orderly i
    exact ⟨ts, mine.move moved⟩

theorem Reach.invariant {s : State} (reach : Reach s) : Invariant s := by
  induction reach with
  | start => exact invariant_start
  | next _ step ih => exact step_orderly step ih

/-- Whatever is lost and however the others run: a sender prints an OK for each number in
order, each after at most two retries, nothing malformed, and gives up only after three
polls in a row without a reply. -/
theorem sender_prints {s : State} (reach : Reach s) (i : Nat) :
    (∃ ts, (∀ t ∈ ts, 1 ≤ t ∧ t ≤ 3) ∧ Told (s.sender i) ts) ∧
      ∀ reply, .malformed reply ∉ (s.sender i).out := by
  obtain ⟨ts, orderly⟩ := reach.invariant.orderly i
  exact ⟨⟨ts, orderly.few, orderly.told⟩, orderly.told.no_malformed⟩

/-- The dock handles no number more than three times, and one that was acknowledged at
least once. -/
theorem dock_handles {s : State} (reach : Reach s) (i n : Nat) :
    timesAsked s.wire.taken i (n + 1) ≤ 3 ∧
      (.ok (decimal n) ∈ (s.sender i).out → 1 ≤ timesAsked s.wire.taken i n) := by
  obtain ⟨accounts, orderly⟩ := reach.invariant
  obtain ⟨ts, mine⟩ := orderly i
  refine ⟨?_, mine.handled n⟩
  have sent := timesAsked_le accounts.taken_le_sent i (n + 1)
  rw [mine.times] at sent
  refine sent.trans ?_
  cases entry : ts[n]? with
  | none => exact Nat.zero_le 3
  | some t => exact (mine.few t (List.mem_of_getElem? entry)).2

/-! ## A reply that is lost -/

/-- Sender 0 sends its first request twice, for the first reply is lost. -/
theorem reach_retried : ∃ s, Reach s ∧
    (s.sender 0).out = [.connecting, .retrying, .connecting, .ok "1".toList] ∧
      timesAsked s.wire.taken 0 1 = 2 := by
  have sent := Reach.start.next (.send 0 rfl (by decide) (by decide))
  have taken := sent.next (.move (.take rfl (show _ = ((0, 0), decimal 1) ::ₘ 0 from rfl)))
  have answered := taken.next (.move (.answer rfl))
  have lost := answered.next (.move (.loseReply (show _ = ((0, 0), decimal 1) ::ₘ 0 from rfl)))
  have retried := lost.next (.retry 0 rfl (by decide))
  have taken' := retried.next (.move (.take rfl (show _ = ((0, 1), decimal 1) ::ₘ 0 from rfl)))
  have answered' := taken'.next (.move (.answer rfl))
  have received := answered'.next (.receive 0 rfl (show _ = ((0, 1), decimal 1) ::ₘ 0 from rfl))
  exact ⟨_, received, by decide +kernel, by decide +kernel⟩

theorem sender_prints_retried : ∃ s, Reach s ∧
    (s.sender 0).out = [.connecting, .retrying, .connecting, .ok "1".toList] ∧
      ∀ reply, .malformed reply ∉ (s.sender 0).out := by
  obtain ⟨s, reach, out, -⟩ := reach_retried
  exact ⟨s, reach, out, (sender_prints reach 0).2⟩

theorem dock_handles_retried : ∃ s, Reach s ∧ timesAsked s.wire.taken 0 1 = 2 ∧
    timesAsked s.wire.taken 0 1 ≤ 3 := by
  obtain ⟨s, reach, -, twice⟩ := reach_retried
  exact ⟨s, reach, twice, (dock_handles reach 0 0).1⟩

end Signals

end SimpleDsp
