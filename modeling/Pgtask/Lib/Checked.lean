import Mathlib.Data.List.Basic

/-!
# Checked computations

Computations in `Except` that have returned, and loops of them.
-/

open List

namespace Checked

variable {ε α β σ : Type}

theorem bind_eq_ok {x : Except ε α} {f : α → Except ε β} {b : β} :
    (x >>= f) = .ok b ↔ ∃ a, x = .ok a ∧ f a = .ok b := by
  cases x with
  | error e => simp [bind, Except.bind]
  | ok a => simp [bind, Except.bind]

theorem bind_ok {x : Except ε α} {f : α → Except ε β} {b : β} (h : (x >>= f) = .ok b) :
    ∃ a, x = .ok a ∧ f a = .ok b :=
  bind_eq_ok.mp h

theorem bind_eq_error {x : Except ε α} {f : α → Except ε β} {err : ε} :
    (x >>= f) = .error err ↔ x = .error err ∨ ∃ a, x = .ok a ∧ f a = .error err := by
  cases x with
  | error e => simp [bind, Except.bind]
  | ok a => simp [bind, Except.bind]

theorem map_eq_ok {x : Except ε α} {f : α → β} {b : β} :
    x.map f = .ok b ↔ ∃ a, x = .ok a ∧ f a = b := by
  cases x with
  | error e => simp [Except.map]
  | ok a => simp [Except.map]

theorem map_eq_error {x : Except ε α} {f : α → β} {err : ε} :
    x.map f = .error err ↔ x = .error err := by
  cases x with
  | error e => simp [Except.map]
  | ok a => simp [Except.map]

/-- The loop rule: `P rest s` holds before each round, with `rest` the rounds still to come. -/
theorem foldlM_rule {f : σ → α → Except ε σ} (P : List α → σ → Prop)
    (round : ∀ a l s s', P (a :: l) s → f s a = .ok s' → P l s') {l : List α} {s s' : σ}
    (h : l.foldlM f s = .ok s') (start : P l s) : P [] s' := by
  induction l generalizing s with
  | nil =>
    cases h
    exact start
  | cons a l ih =>
    obtain ⟨s1, h1, h2⟩ := bind_eq_ok.mp h
    exact ih h2 (round a l s s1 start h1)

/-- The rule of loops that do not raise: every round that finds `P` returns and keeps it. -/
theorem foldlM_returns {f : σ → α → Except ε σ} (P : List α → σ → Prop)
    (round : ∀ a l s, P (a :: l) s → ∃ s', f s a = .ok s' ∧ P l s') {l : List α} {s : σ}
    (start : P l s) : ∃ s', l.foldlM f s = .ok s' ∧ P [] s' := by
  induction l generalizing s with
  | nil => exact ⟨s, rfl, start⟩
  | cons a l ih =>
    obtain ⟨s1, h1, next⟩ := round a l s start
    obtain ⟨s2, h2, last⟩ := ih next
    exact ⟨s2, bind_eq_ok.mpr ⟨s1, h1, h2⟩, last⟩

theorem mapM_eq_ok {f : α → Except ε β} {l : List α} {l' : List β} :
    l.mapM f = .ok l' ↔ List.Forall₂ (fun a b => f a = .ok b) l l' := by
  induction l generalizing l' with
  | nil =>
    constructor
    · rintro ⟨⟩
      exact .nil
    · rintro ⟨⟩
      rfl
  | cons a l ih =>
    rw [mapM_cons, bind_eq_ok]
    constructor
    · rintro ⟨b, hb, h⟩
      obtain ⟨bs, hbs, h⟩ := bind_eq_ok.mp h
      cases h
      exact .cons hb (ih.mp hbs)
    · intro h
      cases h with
      | cons hb hbs => exact ⟨_, hb, bind_eq_ok.mpr ⟨_, ih.mpr hbs, rfl⟩⟩

theorem mapM_eq_map {f : α → Except ε β} {g : α → β} (hf : ∀ a b, f a = .ok b → b = g a)
    {l : List α} {l' : List β} (h : l.mapM f = .ok l') : l' = l.map g := by
  rw [mapM_eq_ok] at h
  induction h with
  | nil => rfl
  | cons hb _ ih => rw [ih, hf _ _ hb, map_cons]

theorem mapM_mem_zip {f : α → Except ε β} {l : List α} {l' : List β} (h : l.mapM f = .ok l') {a : α}
    (ha : a ∈ l) : ∃ b, (a, b) ∈ l.zip l' ∧ f a = .ok b := by
  rw [mapM_eq_ok] at h
  induction h with
  | nil => cases ha
  | cons hb _ ih =>
    rcases mem_cons.mp ha with rfl | ha
    · exact ⟨_, mem_cons_self, hb⟩
    · obtain ⟨b, hmem, hb⟩ := ih ha
      exact ⟨b, mem_cons_of_mem _ hmem, hb⟩

end Checked
