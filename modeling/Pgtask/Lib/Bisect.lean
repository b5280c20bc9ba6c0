import Mathlib.Data.List.Basic
import Mathlib.Order.Bounds.Basic

/-!
# Bisection

`last` looks for the largest number in a range that passes a test. The test need
not be monotone, and then the search can end too low: it ends at the right number
exactly when every number at or below it that the search for it tries passes.
-/

namespace Bisect

variable {p : Nat → Bool} {low high m : Nat}

def last (p : Nat → Bool) (low high : Nat) : Nat :=
  if low < high then
    let middle := low + (high - low + 1) / 2
    if p middle then last p middle high else last p low (middle - 1)
  else low
termination_by high - low

/-- The numbers up to `m` that a search for `m` tries. -/
def tried (m low high : Nat) : List Nat :=
  if low < high then
    let middle := low + (high - low + 1) / 2
    if middle ≤ m then middle :: tried m middle high else tried m low (middle - 1)
  else []
termination_by high - low

theorem last_bounds (p : Nat → Bool) (low high : Nat) (h : low ≤ high) :
    low ≤ last p low high ∧ last p low high ≤ high := by
  fun_induction last p low high with
  | case1 low high hlt middle hp ih =>
    have := ih (by omega)
    omega
  | case2 low high hlt middle hp ih =>
    have := ih (by omega)
    omega
  | case3 low high hlt => omega

theorem last_passes (h : p low = true) : p (last p low high) = true := by
  fun_induction last p low high with
  | case1 low high hlt middle hp ih => exact ih hp
  | case2 low high hlt middle hp ih => exact ih h
  | case3 low high hlt => exact h

theorem tried_up (hlt : low < high) (h : low + (high - low + 1) / 2 ≤ m) : tried m low high =
      (low + (high - low + 1) / 2) :: tried m (low + (high - low + 1) / 2) high := by
  conv_lhs => unfold tried
  simp only [if_pos hlt, if_pos h]

theorem tried_down (hlt : low < high) (h : ¬ low + (high - low + 1) / 2 ≤ m) :
    tried m low high = tried m low (low + (high - low + 1) / 2 - 1) := by
  conv_lhs => unfold tried
  simp only [if_pos hlt, if_neg h]

theorem last_succ (h : last p low high < high) : p (last p low high + 1) = false := by
  fun_induction last p low high with
  | case1 low high hlt middle hp ih => exact ih h
  | case2 low high hlt middle hp ih =>
    by_cases hend : last p low (middle - 1) < middle - 1
    · exact ih hend
    · have := last_bounds p low (middle - 1) (by omega)
      have hmiddle : last p low (middle - 1) + 1 = middle := by omega
      rw [hmiddle]
      exact Bool.eq_false_of_not_eq_true hp
  | case3 low high hlt => exact absurd h hlt

theorem le_of_mem_tried {n : Nat} (h : n ∈ tried m low high) : n ≤ m := by
  fun_induction tried m low high with
  | case1 low high hlt middle hle ih =>
    rcases List.mem_cons.mp h with rfl | h
    · exact hle
    · exact ih h
  | case2 low high hlt middle hle ih => exact ih h
  | case3 low high hlt => cases h

theorem last_eq_iff (hlow : low ≤ m) (hhigh : m ≤ high)
    (above : ∀ n, m < n → n ≤ high → p n = false) :
    last p low high = m ↔ ∀ n ∈ tried m low high, p n = true := by
  fun_induction last p low high with
  | case1 low high hlt middle hp ih =>
    have hmiddle : middle ≤ m := by
      by_contra hgt
      rw [above middle (by omega) (by omega)] at hp
      cases hp
    rw [ih hmiddle hhigh above, tried_up hlt hmiddle, List.forall_mem_cons]
    exact (and_iff_right hp).symm
  | case2 low high hlt middle hp ih =>
    by_cases hmiddle : middle ≤ m
    · rw [tried_up hlt hmiddle, List.forall_mem_cons]
      have := last_bounds p low (middle - 1) (by omega)
      constructor
      · intro heq
        omega
      · intro hall
        exact absurd hall.1 hp
    · rw [tried_down hlt hmiddle]
      exact ih hlow (by omega) fun n hn hle => above n hn (by omega)
  | case3 low high hlt =>
    rw [tried, if_neg hlt]
    simp
    omega

end Bisect
