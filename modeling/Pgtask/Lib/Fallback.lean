import Mathlib.Data.List.Basic

/-!
# A batch call with single calls to fall back on

Entries are written with one call for all of them. If that call fails, each
entry is written with a call of its own, in order. Every entry comes with the
response that waits for its answer.
-/

open Option

namespace Fallback

variable {σ δ α β ε ρ : Type}

/-- What a client can do with a store in state `σ`. `none`: the client gave up on the call. -/
structure Writer (σ α β ε : Type) where
  many : List α → σ → Option (Except ε (List β) × σ)
  one : α → σ → Option (Except ε β × σ)

/-- A batch answers each entry, or it fails and changes no data. -/
structure Writer.Lawful (w : Writer σ α β ε) (data : σ → δ) : Prop where
  each : ∀ as s bs s', w.many as s = some (.ok bs, s') → bs.length = as.length
  atomic : ∀ as s error s', w.many as s = some (.error error, s') → data s' = data s

structure Writer.Answering (w : Writer σ α β ε) : Prop where
  many : ∀ as s, (w.many as s).isSome
  one : ∀ a s, (w.one a s).isSome

inductive Called (α : Type)
  | many (as : List α)
  | one (a : α)
  deriving DecidableEq

structure Written (α β ε ρ : Type) where
  calls : List (Called α) := []
  responses : List (ρ × Except ε β) := []

namespace Writer

def alone (w : Writer σ α β ε) : List (α × ρ) → σ → Option (Written α β ε ρ × σ)
  | [], s => some ({}, s)
  | (a, response) :: entries, s => do
    let (answer, s) ← w.one a s
    let (written, s) ← w.alone entries s
    some (⟨.one a :: written.calls, (response, answer) :: written.responses⟩, s)

def batch (w : Writer σ α β ε) (entries : List (α × ρ)) (s : σ) : Option (Written α β ε ρ × σ) := do
  let as := entries.map Prod.fst
  let responses := entries.map Prod.snd
  let (answer, s) ← w.many as s
  match answer with
  | .ok bs => some (⟨[.many as], responses.zip (bs.map .ok)⟩, s)
  | .error _ =>
    let (written, s) ← w.alone entries s
    some (⟨.many as :: written.calls, written.responses⟩, s)

/-- The entries are written one after another, each with its own answer. -/
inductive Answers (w : Writer σ α β ε) : List α → σ → List (Except ε β) → σ → Prop
  | nil {s : σ} : w.Answers [] s [] s
  | cons {a : α} {as : List α} {answer : Except ε β} {answers : List (Except ε β)} {s s₁ s' : σ}
      (head : w.one a s = some (answer, s₁)) (tail : w.Answers as s₁ answers s') :
      w.Answers (a :: as) s (answer :: answers) s'

variable {w : Writer σ α β ε} {as as' : List α} {entries : List (α × ρ)} {s s' : σ}
  {answers : List (Except ε β)} {written : Written α β ε ρ}

theorem Answers.length (h : w.Answers as s answers s') : answers.length = as.length := by
  induction h with
  | nil => rfl
  | cons _ _ ih => rw [List.length_cons, List.length_cons, ih]

theorem Answers.append {s1 : σ} {answers' : List (Except ε β)} (h : w.Answers as s answers s1)
    (h' : w.Answers as' s1 answers' s') : w.Answers (as ++ as') s (answers ++ answers') s' := by
  induction h with
  | nil => exact h'
  | cons head _ ih => exact .cons head (ih h')

theorem Answers.split (h : w.Answers (as ++ as') s answers s') :
    ∃ xs ys s1, answers = xs ++ ys ∧ w.Answers as s xs s1 ∧ w.Answers as' s1 ys s' := by
  induction as generalizing s answers with
  | nil => exact ⟨[], answers, s, rfl, .nil, h⟩
  | cons a as ih =>
    cases h with
    | cons head tail =>
      obtain ⟨xs, ys, s1, rfl, first, last⟩ := ih tail
      exact ⟨_ :: xs, ys, s1, rfl, .cons head first, last⟩

/-- Each entry is written by its own call, between those before it and those after it. If that call
changes nothing, the others could have been written without it. -/
theorem Answers.around {a : α} (h : w.Answers (as ++ a :: as') s answers s') :
    ∃ xs answer ys s1 s2, answers = xs ++ answer :: ys ∧ w.Answers as s xs s1 ∧
      w.one a s1 = some (answer, s2) ∧ w.Answers as' s2 ys s' ∧
      (s2 = s1 → w.Answers (as ++ as') s (xs ++ ys) s') := by
  obtain ⟨xs, ys, s1, rfl, first, last⟩ := h.split
  cases last with
  | cons head tail =>
    refine ⟨xs, _, _, s1, _, rfl, first, head, tail, ?_⟩
    rintro rfl
    exact first.append tail

/-! ## What is written -/

theorem alone_spec (h : w.alone entries s = some (written, s')) :
    ∃ answers, w.Answers (entries.map Prod.fst) s answers s' ∧
      written.calls = entries.map (.one ∘ Prod.fst) ∧
      written.responses = (entries.map Prod.snd).zip answers := by
  induction entries generalizing s written with
  | nil =>
    cases h
    exact ⟨[], .nil, rfl, rfl⟩
  | cons entry entries ih =>
    obtain ⟨⟨answer, s1⟩, head, h⟩ := bind_eq_some_iff.mp h
    obtain ⟨⟨rest, s2⟩, hrest, h⟩ := bind_eq_some_iff.mp h
    cases h
    obtain ⟨answers, tail, hcalls, hresponses⟩ := ih hrest
    exact ⟨answer :: answers, .cons head tail, by simp [hcalls], by simp [hresponses]⟩

theorem batch_spec {data : σ → δ} (lawful : w.Lawful data) (h : w.batch entries s = some (written, s')) :
    (∃ bs, w.many (entries.map Prod.fst) s = some (.ok bs, s') ∧ bs.length = entries.length ∧
        written.calls = [.many (entries.map Prod.fst)] ∧
        written.responses = (entries.map Prod.snd).zip (bs.map .ok)) ∨
      ∃ error s0 answers, w.many (entries.map Prod.fst) s = some (.error error, s0) ∧
        data s0 = data s ∧ w.Answers (entries.map Prod.fst) s0 answers s' ∧
        written.calls = .many (entries.map Prod.fst) :: entries.map (.one ∘ Prod.fst) ∧
        written.responses = (entries.map Prod.snd).zip answers := by
  unfold batch at h
  obtain ⟨⟨answer, s1⟩, hmany, hnext⟩ := bind_eq_some_iff.mp h
  cases answer with
  | ok bs =>
    cases hnext
    have hlength := lawful.each _ _ _ _ hmany
    rw [List.length_map] at hlength
    exact .inl ⟨bs, hmany, hlength, rfl, rfl⟩
  | error error =>
    obtain ⟨⟨rest, s2⟩, halone, hdone⟩ := bind_eq_some_iff.mp hnext
    cases hdone
    obtain ⟨answers, hanswers, hcalls, hresponses⟩ := alone_spec halone
    exact .inr ⟨error, s1, answers, hmany, lawful.atomic _ _ _ _ hmany, hanswers, by rw [hcalls],
      hresponses⟩

theorem batch_responses {data : σ → δ} (lawful : w.Lawful data) (h : w.batch entries s = some (written, s')) :
    written.responses.map Prod.fst = entries.map Prod.snd := by
  have hzip : ∀ answers : List (Except ε β), answers.length = entries.length →
      ((entries.map Prod.snd).zip answers).map Prod.fst = entries.map Prod.snd := by
    intro answers hlength
    exact List.map_fst_zip (by simp [hlength])
  rcases batch_spec lawful h with ⟨bs, -, hlength, -, hresponses⟩ |
    ⟨_, _, answers, -, -, hanswers, -, hresponses⟩
  · rw [hresponses, hzip _ (by simp [hlength])]
  · rw [hresponses, hzip _ (by simp [hanswers.length])]

theorem alone_answers (answering : w.Answering) (entries : List (α × ρ)) (s : σ) :
    (w.alone entries s).isSome := by
  induction entries generalizing s with
  | nil => rfl
  | cons entry entries ih =>
    obtain ⟨⟨answer, s1⟩, hone⟩ := isSome_iff_exists.mp (answering.one entry.1 s)
    obtain ⟨⟨written, s2⟩, hrest⟩ := isSome_iff_exists.mp (ih s1)
    simp [alone, hone, hrest]

theorem batch_answers (answering : w.Answering) (entries : List (α × ρ)) (s : σ) :
    (w.batch entries s).isSome := by
  obtain ⟨⟨answer, s1⟩, hmany⟩ :=
    isSome_iff_exists.mp (answering.many (entries.map Prod.fst) s)
  obtain ⟨⟨written, s2⟩, hrest⟩ := isSome_iff_exists.mp (alone_answers answering entries s1)
  cases answer <;> simp [batch, hmany, hrest]

end Writer

end Fallback
