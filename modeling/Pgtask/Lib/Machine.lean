import Mathlib.Data.List.Basic

/-!
# Machines

A machine makes moves, and a move can be impossible in a state. What the moves
of a run keep, the run keeps, also when its moves all meet a condition in the
state in which they are made.
-/

namespace Machine

variable {σ μ : Type} (next : σ → μ → Option σ)

def runs (s : σ) (moves : List μ) : Option σ := moves.foldlM next s

/-- Every move of the run meets a condition in the state in which it is made. -/
def EveryMove (p : σ → μ → Prop) : σ → List μ → Prop
  | _, [] => True
  | s, m :: moves => p s m ∧ match next s m with
    | some s' => EveryMove p s' moves
    | none => True

instance EveryMove.decidable {p : σ → μ → Prop} [∀ s m, Decidable (p s m)] :
    ∀ s moves, Decidable (EveryMove next p s moves)
  | _, [] => isTrue trivial
  | s, m :: moves =>
    have : Decidable (match next s m with
        | some s' => EveryMove next p s' moves
        | none => True) :=
      match next s m with
      | some s' => EveryMove.decidable s' moves
      | none => isTrue trivial
    inferInstanceAs (Decidable (p s m ∧ _))

variable {next} {s s' : σ} {m : μ} {moves : List μ}

theorem runs_cons : runs next s (m :: moves) = (next s m).bind fun s => runs next s moves := rfl

theorem runs_append (moves' : List μ) :
    runs next s (moves ++ moves') = (runs next s moves).bind fun s => runs next s moves' :=
  List.foldlM_append

theorem everyMove_of_forall {p : μ → Prop} (h : ∀ m ∈ moves, p m) :
    EveryMove next (fun _ m => p m) s moves := by
  induction moves generalizing s with
  | nil => trivial
  | cons m moves ih =>
    rw [List.forall_mem_cons] at h
    refine ⟨h.1, ?_⟩
    split
    · exact ih h.2
    · trivial

section Rule

variable {p : σ → μ → Prop} {I : σ → Prop}

theorem runs_rule (keeps : ∀ s m s', p s m → next s m = some s' → I s → I s')
    (every : EveryMove next p s moves) (h : runs next s moves = some s') (start : I s) : I s' := by
  induction moves generalizing s with
  | nil =>
    cases h
    exact start
  | cons m moves ih =>
    obtain ⟨s1, h1, h⟩ := Option.bind_eq_some_iff.mp (runs_cons.symm.trans h)
    obtain ⟨hok, every⟩ := every
    rw [h1] at every
    exact ih every h (keeps s m s1 hok h1 start)

theorem EveryMove.imp {q : σ → μ → Prop} (keeps : ∀ s m s', q s m → next s m = some s' → I s → I s')
    (weaker : ∀ s m, I s → q s m → p s m) (start : I s) (every : EveryMove next q s moves) :
    EveryMove next p s moves := by
  induction moves generalizing s with
  | nil => trivial
  | cons m moves ih =>
    obtain ⟨hq, every⟩ := every
    refine ⟨weaker s m start hq, ?_⟩
    cases hnext : next s m with
    | none => trivial
    | some s1 =>
      rw [hnext] at every
      exact ih (keeps s m s1 hq hnext start) every

theorem runs_iff {P : σ → Prop} (keeps : ∀ s m s', next s m = some s' → I s → I s')
    (step : ∀ s m s', next s m = some s' → I s → (P s' ↔ P s ∧ p s m)) (start : I s)
    (h : runs next s moves = some s') : P s' ↔ P s ∧ EveryMove next p s moves := by
  induction moves generalizing s with
  | nil =>
    cases h
    exact (and_iff_left trivial).symm
  | cons m moves ih =>
    obtain ⟨s1, h1, hrest⟩ := Option.bind_eq_some_iff.mp (runs_cons.symm.trans h)
    rw [ih (keeps s m s1 h1 start) hrest, step s m s1 h1 start, and_assoc]
    simp [EveryMove, h1]

theorem EveryMove.length_le {f : σ → Nat} (keeps : ∀ s m s', p s m → next s m = some s' → I s → I s')
    (falls : ∀ s m s', p s m → next s m = some s' → I s → f s' < f s)
    (every : EveryMove next p s moves) (h : runs next s moves = some s') (start : I s) :
    moves.length ≤ f s := by
  induction moves generalizing s with
  | nil => exact Nat.zero_le _
  | cons m moves ih =>
    obtain ⟨s1, h1, hrest⟩ := Option.bind_eq_some_iff.mp (runs_cons.symm.trans h)
    obtain ⟨hok, every⟩ := every
    rw [h1] at every
    have hlt := falls s m s1 hok h1 start
    have hle := ih every hrest (keeps s m s1 hok h1 start)
    exact Nat.succ_le_of_lt (Nat.lt_of_le_of_lt hle hlt)

end Rule

theorem runs_length_le {f : σ → Nat} (falls : ∀ s s', ∀ m ∈ moves, next s m = some s' → f s' < f s)
    (h : runs next s moves = some s') : moves.length ≤ f s := by
  induction moves generalizing s with
  | nil => exact Nat.zero_le _
  | cons m moves ih =>
    obtain ⟨s1, h1, h⟩ := Option.bind_eq_some_iff.mp (runs_cons.symm.trans h)
    have hlt := falls s s1 m List.mem_cons_self h1
    have hle := ih (fun s s' m hm => falls s s' m (List.mem_cons_of_mem _ hm)) h
    exact Nat.succ_le_of_lt (Nat.lt_of_le_of_lt hle hlt)

end Machine
