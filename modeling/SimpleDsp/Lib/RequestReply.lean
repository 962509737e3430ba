import Mathlib.Data.Multiset.Filter
import Mathlib.Algebra.Order.Group.Multiset

/-!
# Requests and replies

Clients send requests, each from an address of its own; one server takes them one at a
time and replies to where the request came from. Whatever is under way may be lost, and
the server may stop and begin anew. Nothing is doubled and nothing made up.

* `Accounts`: what the moves of server and wire keep;
* `Answered`: the requests from an address have had their reply, all but some;
* `Answered.deliver`: an address that waits for one reply gets that one.
-/

namespace RequestReply

variable {A Q R : Type}

/-- What is under way, and a record of what was sent, taken by the server and delivered. -/
structure Wire (A Q R : Type) where
  requests : Multiset (A × Q)
  held : Option (A × Q)
  replies : Multiset (A × R)
  sent : Multiset (A × Q)
  taken : Multiset (A × Q)
  delivered : Multiset (A × R)

def Wire.empty : Wire A Q R := ⟨0, none, 0, 0, 0, 0⟩

def Wire.send (w : Wire A Q R) (a : A) (q : Q) : Wire A Q R :=
  { w with requests := (a, q) ::ₘ w.requests, sent := (a, q) ::ₘ w.sent }

/-- A reply arrives, the others stay on their way. -/
def Wire.deliver (w : Wire A Q R) (a : A) (r : R) (others : Multiset (A × R)) : Wire A Q R :=
  { w with replies := others, delivered := (a, r) ::ₘ w.delivered }

section
variable (serve : Q → R)

def reply (m : A × Q) : A × R := (m.1, serve m.2)

/-- What happens without the clients. -/
inductive Move : Wire A Q R → Wire A Q R → Prop
  | take {w : Wire A Q R} {m : A × Q} {others : Multiset (A × Q)} (idle : w.held = none)
      (here : w.requests = m ::ₘ others) :
      Move w { w with requests := others, held := some m, taken := m ::ₘ w.taken }
  | answer {w : Wire A Q R} {m : A × Q} (held : w.held = some m) :
      Move w { w with held := none, replies := reply serve m ::ₘ w.replies }
  | restart (w : Wire A Q R) : Move w { w with held := none }
  | loseRequest {w : Wire A Q R} {m : A × Q} {others : Multiset (A × Q)}
      (here : w.requests = m ::ₘ others) : Move w { w with requests := others }
  | loseReply {w : Wire A Q R} {m : A × R} {others : Multiset (A × R)}
      (here : w.replies = m ::ₘ others) : Move w { w with replies := others }

def heldReply (w : Wire A Q R) : Multiset (A × R) := (w.held.map (reply serve)).elim 0 fun m => {m}

/-- What comes out has gone in before. -/
structure Accounts (w : Wire A Q R) : Prop where
  taken_le : w.requests + w.taken ≤ w.sent
  delivered_le : heldReply serve w + w.replies + w.delivered ≤ w.taken.map (reply serve)

end

section
variable {serve : Q → R} {w w' : Wire A Q R} {a : A} {r : R} {others : Multiset (A × R)}

theorem accounts_empty : Accounts serve (Wire.empty : Wire A Q R) := ⟨le_refl _, le_refl _⟩

theorem Accounts.send (h : Accounts serve w) (a : A) (q : Q) : Accounts serve (w.send a q) where
  taken_le := by
    rw [Wire.send, Multiset.cons_add]
    exact Multiset.cons_le_cons _ h.taken_le
  delivered_le := h.delivered_le

theorem Accounts.deliver (h : Accounts serve w) (here : w.replies = (a, r) ::ₘ others) :
    Accounts serve (w.deliver a r others) where
  taken_le := h.taken_le
  delivered_le := by
    have le := h.delivered_le
    rw [here, Multiset.add_cons, Multiset.cons_add, ← Multiset.add_cons] at le
    exact le

theorem Accounts.move (h : Accounts serve w) (moved : Move serve w w') : Accounts serve w' := by
  obtain ⟨taken_le, delivered_le⟩ := h
  cases moved with
  | @take m others idle here =>
    constructor
    · change others + m ::ₘ w.taken ≤ w.sent
      rwa [here, Multiset.cons_add, ← Multiset.add_cons] at taken_le
    · change {reply serve m} + w.replies + w.delivered ≤ (m ::ₘ w.taken).map (reply serve)
      have none_held : heldReply serve w = 0 := by rw [heldReply, idle]; rfl
      rw [none_held, zero_add] at delivered_le
      rw [Multiset.map_cons, Multiset.singleton_add, Multiset.cons_add]
      exact Multiset.cons_le_cons _ delivered_le
  | @answer m held =>
    refine ⟨taken_le, ?_⟩
    have one_held : heldReply serve w = {reply serve m} := by rw [heldReply, held]; rfl
    rw [one_held, Multiset.singleton_add] at delivered_le
    change 0 + (reply serve m ::ₘ w.replies) + w.delivered ≤ _
    rwa [zero_add]
  | restart =>
    refine ⟨taken_le, le_trans ?_ delivered_le⟩
    change 0 + w.replies + w.delivered ≤ heldReply serve w + w.replies + w.delivered
    gcongr
    exact Multiset.zero_le _
  | @loseRequest m others here =>
    refine ⟨le_trans ?_ taken_le, delivered_le⟩
    rw [here]
    change others + w.taken ≤ m ::ₘ others + w.taken
    gcongr
    exact Multiset.le_cons_self _ _
  | @loseReply m others here =>
    refine ⟨taken_le, le_trans ?_ delivered_le⟩
    rw [here]
    change heldReply serve w + others + w.delivered ≤ heldReply serve w + m ::ₘ others + w.delivered
    gcongr
    exact Multiset.le_cons_self _ _

/-- The server only does what it was asked. -/
theorem Accounts.taken_le_sent (h : Accounts serve w) : w.taken ≤ w.sent :=
  (Multiset.le_add_left _ _).trans h.taken_le

/-- A reply on its way answers a request, and not one that has had its reply. -/
theorem Accounts.reply_le (h : Accounts serve w) (here : w.replies = (a, r) ::ₘ others) :
    (a, r) ::ₘ w.delivered ≤ w.sent.map (reply serve) := by
  have served : (a, r) ::ₘ w.delivered ≤ w.taken.map (reply serve) := by
    refine le_trans ?_ h.delivered_le
    rw [here, Multiset.add_cons, Multiset.cons_add]
    exact Multiset.cons_le_cons _ (Multiset.le_add_left _ _)
  exact served.trans (Multiset.map_le_map h.taken_le_sent)

theorem Accounts.taken_of_delivered (h : Accounts serve w) (here : (a, r) ∈ w.delivered) :
    ∃ q, (a, q) ∈ w.taken ∧ serve q = r := by
  have mem := Multiset.mem_of_le ((Multiset.le_add_left _ _).trans h.delivered_le) here
  obtain ⟨⟨a', q⟩, taken, same⟩ := Multiset.mem_map.mp mem
  obtain ⟨rfl, served⟩ := Prod.mk.inj same
  exact ⟨q, taken, served⟩

end

/-! ## What an address waits for -/

section
variable [DecidableEq A]

/-- Of the requests from `a` only `pending` have had no reply. -/
def Answered (serve : Q → R) (w : Wire A Q R) (a : A) (pending : Multiset Q) : Prop :=
  (w.sent.filter (·.1 = a)).map (reply serve) =
    w.delivered.filter (·.1 = a) + pending.map fun q => (a, serve q)

variable {serve : Q → R} {w w' : Wire A Q R} {a b : A} {q : Q} {r : R} {pending : Multiset Q}
  {others : Multiset (A × R)}

theorem answered_none (unsent : ∀ q, (a, q) ∉ w.sent) (accounts : Accounts serve w) :
    Answered serve w a 0 := by
  have none_sent : w.sent.filter (·.1 = a) = 0 := by
    apply Multiset.filter_eq_nil.mpr
    rintro ⟨b, q⟩ mem rfl
    exact unsent q mem
  have none_delivered : w.delivered.filter (·.1 = a) = 0 := by
    apply Multiset.filter_eq_nil.mpr
    rintro ⟨b, r⟩ mem rfl
    obtain ⟨q, taken, -⟩ := accounts.taken_of_delivered mem
    exact unsent q (Multiset.mem_of_le accounts.taken_le_sent taken)
  rw [Answered, none_sent, none_delivered]
  rfl

theorem Answered.send (h : Answered serve w a pending) (q : Q) :
    Answered serve (w.send a q) a (q ::ₘ pending) := by
  unfold Answered at h ⊢
  change ((((a, q) ::ₘ w.sent).filter (·.1 = a)).map (reply serve)) = _
  rw [Multiset.filter_cons_of_pos w.sent (p := fun m : A × Q => m.1 = a) rfl, Multiset.map_cons, h,
    Multiset.map_cons, Multiset.add_cons]
  rfl

theorem Answered.send_other (h : Answered serve w a pending) (ne : b ≠ a) (q : Q) :
    Answered serve (w.send b q) a pending := by
  unfold Answered at h ⊢
  change ((((b, q) ::ₘ w.sent).filter (·.1 = a)).map (reply serve)) = _
  rw [Multiset.filter_cons_of_neg w.sent (p := fun m : A × Q => m.1 = a) ne]
  exact h

theorem Answered.move (h : Answered serve w a pending) (moved : Move serve w w') :
    Answered serve w' a pending := by
  cases moved with
  | take | answer | restart | loseRequest | loseReply => exact h

theorem Answered.deliver_other (h : Answered serve w a pending) (ne : b ≠ a) (r : R) :
    Answered serve (w.deliver b r others) a pending := by
  unfold Answered at h ⊢
  change _ = ((b, r) ::ₘ w.delivered).filter (·.1 = a) + _
  rw [Multiset.filter_cons_of_neg w.delivered (p := fun m : A × R => m.1 = a) ne]
  exact h

/-- Who waits for one reply gets the reply to that request, and waits no more. -/
theorem Answered.deliver (h : Answered serve w a {q}) (accounts : Accounts serve w)
    (here : w.replies = (a, r) ::ₘ others) :
    r = serve q ∧ Answered serve (w.deliver a r others) a 0 := by
  have le := Multiset.filter_le_filter (·.1 = a) (accounts.reply_le here)
  rw [Multiset.filter_cons_of_pos w.delivered (p := fun m : A × R => m.1 = a) rfl,
    Multiset.filter_map] at le
  change _ ≤ (w.sent.filter (·.1 = a)).map (reply serve) at le
  rw [h, ← Multiset.singleton_add, add_comm, Multiset.map_singleton] at le
  have one := Multiset.singleton_inj.mp
    (Multiset.eq_of_le_of_card_le (le_of_add_le_add_left le) (le_refl _))
  obtain ⟨-, rfl⟩ := Prod.mk.inj one
  refine ⟨rfl, ?_⟩
  unfold Answered at h ⊢
  change (w.sent.filter (·.1 = a)).map (reply serve) =
    ((a, serve q) ::ₘ w.delivered).filter (·.1 = a) + _
  rw [Multiset.filter_cons_of_pos w.delivered (p := fun m : A × R => m.1 = a) rfl, h,
    Multiset.map_singleton, Multiset.map_zero, add_zero, add_comm, Multiset.singleton_add]

end

end RequestReply
