import Mathlib.Data.Finset.BooleanAlgebra
import Mathlib.Data.Finset.Card
import Mathlib.Logic.Relation

/-!
# Search in a finite graph

A stack of nodes to look at and a set of nodes that were looked at. The search
stops at the first goal. It ends on every finite graph, cycles or not, because
no node is looked at twice.
-/

open List

namespace Search

variable {ν : Type} {next : ν → List ν} {goal : ν → Bool} {seen : Finset ν} {pending : List ν} {x : ν}

def Link (next : ν → List ν) (x y : ν) : Prop := y ∈ next x

def Leads (next : ν → List ν) (goal : ν → Bool) (pending : List ν) : Prop :=
  ∃ x ∈ pending, ∃ y, Relation.ReflTransGen (Link next) x y ∧ goal y = true

theorem leads_visit (hx : goal x = false) :
    Leads next goal (x :: pending) ↔ Leads next goal ((next x).reverse ++ pending) := by
  unfold Leads
  simp only [mem_cons, mem_append, mem_reverse]
  constructor
  · rintro ⟨z, rfl | hz, y, way, hy⟩
    · rcases way.cases_head with rfl | ⟨z', link, way⟩
      · simp [hx] at hy
      · exact ⟨z', .inl link, y, way, hy⟩
    · exact ⟨z, .inr hz, y, way, hy⟩
  · rintro ⟨z, link | hz, y, way, hy⟩
    · exact ⟨x, .inl rfl, y, .head link way, hy⟩
    · exact ⟨z, .inr hz, y, way, hy⟩

/-- Nothing that was looked at is a goal, and what it links to was looked at or will be. -/
structure Explored (next : ν → List ν) (goal : ν → Bool) (seen : Finset ν) (pending : List ν) : Prop where
  goalless : ∀ x ∈ seen, goal x = false
  closed : ∀ x ∈ seen, ∀ y ∈ next x, y ∈ seen ∨ y ∈ pending

theorem Explored.leads (explored : Explored next goal seen pending) (hx : x ∈ seen) {y : ν}
    (way : Relation.ReflTransGen (Link next) x y) (hy : goal y = true) : Leads next goal pending := by
  induction way using Relation.ReflTransGen.head_induction_on with
  | refl => simp [explored.goalless y hx] at hy
  | @head x x' link way ih =>
    rcases explored.closed x hx x' link with hseen | hpending
    · exact ih hseen
    · exact ⟨x', hpending, y, way, hy⟩

theorem Explored.pop (explored : Explored next goal seen (x :: pending)) (hx : x ∈ seen) :
    Explored next goal seen pending where
  goalless := explored.goalless
  closed z hz y hy := by
    rcases explored.closed z hz y hy with hy | hy
    · exact .inl hy
    · rcases mem_cons.mp hy with rfl | hy
      · exact .inl hx
      · exact .inr hy

variable [DecidableEq ν]

theorem Explored.visit (explored : Explored next goal seen (x :: pending)) (hx : goal x = false) :
    Explored next goal (insert x seen) ((next x).reverse ++ pending) where
  goalless := by
    simp only [Finset.mem_insert, forall_eq_or_imp]
    exact ⟨hx, explored.goalless⟩
  closed z hz y hy := by
    simp only [Finset.mem_insert, mem_append, mem_reverse] at hz ⊢
    rcases hz with rfl | hz
    · exact .inr (.inl hy)
    · have := explored.closed z hz y hy
      simp only [mem_cons] at this
      tauto

/-- The head of `pending` is the top of the stack. -/
def search [Fintype ν] (next : ν → List ν) (goal : ν → Bool) (seen : Finset ν) (pending : List ν) : Bool :=
  match pending with
  | [] => false
  | x :: pending =>
    if x ∈ seen then search next goal seen pending
    else if goal x then true
    else search next goal (insert x seen) ((next x).reverse ++ pending)
termination_by (seenᶜ.card, pending.length)
decreasing_by
  · exact .right _ (by simp)
  · apply Prod.Lex.left
    apply Finset.card_lt_card
    rw [Finset.compl_ssubset_compl]
    exact Finset.ssubset_insert ‹_›

variable [Fintype ν]

theorem search_explored (explored : Explored next goal seen pending) :
    search next goal seen pending = true ↔ Leads next goal pending := by
  fun_induction search next goal seen pending with
  | case1 => simp [Leads]
  | case2 seen x pending hx ih =>
    rw [ih (explored.pop hx)]
    constructor
    · rintro ⟨z, hz, hgoal⟩
      exact ⟨z, mem_cons_of_mem _ hz, hgoal⟩
    · rintro ⟨z, hz, y, way, hy⟩
      rcases mem_cons.mp hz with rfl | hz
      · exact (explored.pop hx).leads hx way hy
      · exact ⟨z, hz, y, way, hy⟩
  | case3 seen x pending hx hgoal =>
    simp only [true_iff]
    exact ⟨x, mem_cons_self, x, .refl, hgoal⟩
  | case4 seen x pending hx hgoal ih =>
    rw [Bool.not_eq_true] at hgoal
    rw [ih (explored.visit hgoal), leads_visit hgoal]

theorem search_iff (x : ν) :
    search next goal ∅ [x] = true ↔ ∃ y, Relation.ReflTransGen (Link next) x y ∧ goal y = true := by
  rw [search_explored ⟨by simp, by simp⟩]
  simp [Leads]

end Search
