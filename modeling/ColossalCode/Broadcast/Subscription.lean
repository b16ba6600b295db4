import Mathlib.Data.List.Basic

/-! One subscription to a bounded broadcast channel: a receiver that falls behind loses the oldest
values, learns of it once, and goes on with those that are still held. -/
namespace Broadcast

/-- What is still held for the receiver, and how many values it has missed since it last looked. -/
structure Subscription (α : Type*) where
  pending : List α
  missed : Nat
  deriving DecidableEq, Repr

inductive Outcome (α : Type*) where
  | item (value : α)
  | lagged (missed : Nat)
  | empty
  | closed
  deriving DecidableEq, Repr

variable {α : Type*} {r : Subscription α} {x : α} {capacity : Nat} {isOpen : Bool}
  {sent taken : List α}

/-- A receiver hears what is sent after it has subscribed. -/
def Subscription.new : Subscription α := ⟨[], 0⟩

/-- A channel with `capacity` places overwrites the oldest value. -/
def Subscription.send (capacity : Nat) (r : Subscription α) (x : α) : Subscription α :=
  if r.pending.length < capacity then { r with pending := r.pending ++ [x] }
  else ⟨r.pending.drop 1 ++ [x], r.missed + 1⟩

/-- One attempt to receive, while there are senders (`isOpen`) or after the last is gone. -/
def Subscription.receive (isOpen : Bool) (r : Subscription α) : Outcome α × Subscription α :=
  if 0 < r.missed then (.lagged r.missed, { r with missed := 0 })
  else
    match r.pending with
    | x :: rest => (.item x, { r with pending := rest })
    | [] => (if isOpen then .empty else .closed, r)

/-- The receiver has had everything that was sent to it, but for what is pending. -/
structure Subscription.Current (r : Subscription α) (sent taken : List α) : Prop where
  missed : r.missed = 0
  pending : taken ++ r.pending = sent

/-- The receiver has nothing to find, not even that it has missed something. -/
def Subscription.Idle (r : Subscription α) : Prop := r.pending = [] ∧ r.missed = 0

instance (r : Subscription α) [DecidableEq α] : Decidable r.Idle :=
  inferInstanceAs (Decidable (_ ∧ _))

theorem Subscription.send_room (h : r.pending.length < capacity) :
    r.send capacity x = { r with pending := r.pending ++ [x] } := if_pos h

theorem Subscription.Current.send (h : r.Current sent taken) (hroom : r.pending.length < capacity) :
    (r.send capacity x).Current (sent ++ [x]) taken := by
  rw [send_room hroom]
  refine ⟨h.missed, ?_⟩
  rw [← h.pending, List.append_assoc]

theorem Subscription.receive_lagged (h : 0 < r.missed) :
    r.receive isOpen = (.lagged r.missed, { r with missed := 0 }) := if_pos h

theorem Subscription.receive_item {rest : List α} (hmissed : r.missed = 0)
    (hpending : r.pending = x :: rest) :
    r.receive isOpen = (.item x, { r with pending := rest }) := by
  simp [receive, hmissed, hpending]

theorem Subscription.receive_idle (h : r.Idle) :
    r.receive isOpen = (if isOpen then .empty else .closed, r) := by
  simp [receive, h.1, h.2]

/-- All that an attempt to receive can come to. -/
theorem Subscription.receive_cases (isOpen : Bool) (r : Subscription α) :
    (0 < r.missed ∧ r.receive isOpen = (.lagged r.missed, { r with missed := 0 })) ∨
    (r.missed = 0 ∧ ∃ x rest, r.pending = x :: rest ∧
      r.receive isOpen = (.item x, { r with pending := rest })) ∨
    (r.Idle ∧ r.receive isOpen = (if isOpen then .empty else .closed, r)) := by
  rcases Nat.eq_zero_or_pos r.missed with hmissed | hmissed
  · right
    cases hpending : r.pending with
    | nil => exact .inr ⟨⟨hpending, hmissed⟩, receive_idle ⟨hpending, hmissed⟩⟩
    | cons x rest => exact .inl ⟨hmissed, x, rest, rfl, receive_item hmissed hpending⟩
  · exact .inl ⟨hmissed, receive_lagged hmissed⟩

theorem Subscription.Current.take {rest : List α} (h : r.Current sent taken)
    (hpending : r.pending = x :: rest) :
    ({ r with pending := rest } : Subscription α).Current sent (taken ++ [x]) := by
  refine ⟨h.missed, ?_⟩
  rw [← h.pending, hpending, List.append_assoc, List.singleton_append]

theorem Subscription.Current.all_taken (h : r.Current sent taken) (hpending : r.pending = []) :
    taken = sent := by
  rw [← h.pending, hpending, List.append_nil]

end Broadcast
