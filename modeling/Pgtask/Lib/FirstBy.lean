import Mathlib.Data.List.Sort

/-!
# ORDER BY and LIMIT

The first rows of a pool in an order, however they were found.
-/

open List

namespace Sql

variable {α β : Type}

structure FirstBy (r : α → α → Bool) (n : Nat) (pool l : List α) : Prop where
  sorted : l.Pairwise fun x y => r x y = true
  first : ∃ rest, (l ++ rest).Perm pool ∧ ∀ x ∈ l, ∀ y ∈ rest, r x y = true
  length : l.length = min n pool.length

theorem FirstBy.subset {r : α → α → Bool} {n : Nat} {pool l : List α} (h : FirstBy r n pool l) {x : α}
    (hx : x ∈ l) : x ∈ pool := by
  obtain ⟨rest, hperm, -⟩ := h.first
  exact hperm.subset (mem_append_left _ hx)

end Sql
