import TapeLang.Event

/-!
# Subscriptions

The registry of listeners keeps subscriptions in the order in which they were made. Each counts how
often its listener has been called.
-/

namespace TapeLang

/-- A listener, what it hears, and how often it has been called. -/
structure Subscription (L : Type) where
  trigger : Trigger
  listener : L
  calls : Nat := 0

/-- The subscriptions in the order in which they were made. -/
abbrev Hooks (L : Type) := Array (Subscription L)

namespace Hooks

variable {L : Type}

/-- Add a subscription behind all others, if the request makes sense. -/
def subscribe (hooks : Hooks L) (r : Request) (l : L) : Except SubscribeError (Hooks L) :=
  match r.trigger with
  | .ok t => .ok (hooks.push ⟨t, l, 0⟩)
  | .error e => .error e

/-- An accepted subscription is the last one. -/
theorem subscribe_eq_ok_iff {hooks hooks' : Hooks L} {r : Request} {l : L} :
    hooks.subscribe r l = .ok hooks' ↔ ∃ t, r.trigger = .ok t ∧ hooks' = hooks.push ⟨t, l, 0⟩ := by
  rw [subscribe]
  cases r.trigger with
  | ok t => simp [eq_comm]
  | error e => simp

/-- Nobody listens to single instructions. -/
def idle (hooks : Hooks L) : Bool :=
  !hooks.any fun sub => sub.trigger.perInstruction

/-- Nobody listens when nobody is there. -/
theorem idle_empty : idle (#[] : Hooks L) = true := by simp [idle]

/-- Note one more call of the listener at an index. -/
def count (hooks : Hooks L) (i : Nat) : Hooks L :=
  hooks.modify i fun sub => { sub with calls := sub.calls + 1 }

end Hooks

end TapeLang
