import Mathlib.Data.List.Basic

/-!
# Broadcast channels

A channel keeps the last `capacity` values that were sent. A receiver has a
position of its own. When the value at its position has been overwritten, it
learns that it lags and goes on at the oldest value that is left.
-/

namespace Broadcast

inductive Received (α : Type)
  | value (a : α)
  | lagged (missed : Nat)
  | closed
  deriving DecidableEq

structure Channel (α : Type) where
  sent : List α := []
  closed : Bool := false

namespace Channel

variable {α : Type} {capacity next next' : Nat} {c : Channel α} {r : Received α}

def send (c : Channel α) (a : α) : Channel α := { c with sent := c.sent ++ [a] }

/-- One `recv` at the position `next`, with the position it leaves. `none` blocks. -/
def recv (capacity : Nat) (c : Channel α) (next : Nat) : Option (Received α × Nat) :=
  if next + capacity < c.sent.length then
    some (.lagged (c.sent.length - capacity - next), c.sent.length - capacity)
  else match c.sent[next]? with
    | some a => some (.value a, next + 1)
    | none => if c.closed then some (.closed, next) else none

theorem recv_value {a : α} (h : c.recv capacity next = some (.value a, next')) :
    c.sent[next]? = some a ∧ next' = next + 1 := by
  unfold recv at h
  split at h
  · cases h
  · split at h
    · cases h
      exact ⟨‹_›, rfl⟩
    · split at h <;> cases h

theorem recv_lagged {missed : Nat} (h : c.recv capacity next = some (.lagged missed, next')) :
    next < next' ∧ next' ≤ c.sent.length := by
  unfold recv at h
  split at h
  · rename_i lags
    cases h
    omega
  · split at h
    · cases h
    · split at h <;> cases h

theorem recv_closed (h : c.recv capacity next = some (.closed, next')) : next' = next := by
  unfold recv at h
  split at h
  · cases h
  · split at h
    · cases h
    · split at h
      · cases h
        rfl
      · cases h

theorem recv_blocks (h : c.recv capacity next = none) : c.sent.length ≤ next := by
  unfold recv at h
  split at h
  · cases h
  · split at h
    · cases h
    · exact List.getElem?_eq_none_iff.mp ‹_›

end Channel

end Broadcast
