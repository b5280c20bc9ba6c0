import Mathlib.Data.List.Basic

/-!
# Labelled paths

A path is a sequence of labelled steps. What every step keeps, a path keeps.
-/

namespace Labelled

/-- The steps from one state to another, with their labels in order. -/
inductive Path {ℓ σ : Type} (step : ℓ → σ → σ → Prop) : List ℓ → σ → σ → Prop
  | nil (s : σ) : Path step [] s s
  | cons {l : ℓ} {ls : List ℓ} {s s₁ s₂ : σ} (head : step l s s₁) (tail : Path step ls s₁ s₂) :
      Path step (l :: ls) s s₂

namespace Path

variable {ℓ σ : Type} {step : ℓ → σ → σ → Prop}

theorem single {l : ℓ} {s s' : σ} (h : step l s s') : Path step [l] s s' := .cons h (.nil s')

theorem append {ls ls' : List ℓ} {s s1 s2 : σ} (h : Path step ls s s1) (h' : Path step ls' s1 s2) :
    Path step (ls ++ ls') s s2 := by
  induction h with
  | nil => exact h'
  | cons head _ ih => exact .cons head (ih h')

theorem unappend {ls ls' : List ℓ} {s s' : σ} (h : Path step (ls ++ ls') s s') :
    ∃ s1, Path step ls s s1 ∧ Path step ls' s1 s' := by
  induction ls generalizing s with
  | nil => exact ⟨s, .nil s, h⟩
  | cons l ls ih => cases h with
    | cons head tail =>
      obtain ⟨s1, h1, h2⟩ := ih tail
      exact ⟨s1, .cons head h1, h2⟩

theorem keeps {P : σ → Prop} {allowed : ℓ → Prop}
    (step_keeps : ∀ l s s', allowed l → step l s s' → P s → P s') {ls : List ℓ} {s s' : σ}
    (h : Path step ls s s') (hl : ∀ l ∈ ls, allowed l) (hs : P s) : P s' := by
  induction h with
  | nil => exact hs
  | cons head _ ih =>
    rw [List.forall_mem_cons] at hl
    exact ih hl.2 (step_keeps _ _ _ hl.1 head hs)

theorem map {τ : Type} {step' : ℓ → τ → τ → Prop} (f : σ → τ)
    (embed : ∀ l s s', step l s s' → step' l (f s) (f s')) {ls : List ℓ} {s s' : σ}
    (h : Path step ls s s') : Path step' ls (f s) (f s') := by
  induction h with
  | nil => exact .nil _
  | cons head _ ih => exact .cons (embed _ _ _ head) ih

theorem labels {P : ℓ → Prop} (label : ∀ l s s', step l s s' → P l) {ls : List ℓ} {s s' : σ}
    (h : Path step ls s s') : ∀ l ∈ ls, P l := by
  induction h with
  | nil => simp
  | cons head _ ih => exact List.forall_mem_cons.mpr ⟨label _ _ _ head, ih⟩

theorem split {l : ℓ} {ls : List ℓ} {s s' : σ} (h : Path step ls s s') (hl : l ∈ ls) :
    ∃ before after s1 s2, ls = before ++ l :: after ∧ Path step before s s1 ∧ step l s1 s2 ∧
      Path step after s2 s' := by
  induction h with
  | nil => cases hl
  | @cons l' ls s s1 s' head tail ih =>
    rcases List.mem_cons.mp hl with rfl | hl
    · exact ⟨[], ls, s, s1, rfl, .nil s, head, tail⟩
    · obtain ⟨before, after, t1, t2, rfl, first, mid, last⟩ := ih hl
      exact ⟨l' :: before, after, t1, t2, rfl, .cons head first, mid, last⟩

end Path

end Labelled
