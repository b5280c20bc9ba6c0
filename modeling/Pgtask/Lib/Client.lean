import Mathlib.Data.List.Basic

/-!
# Clients of a shared server

A client is a program that makes calls and goes on with their answers. The
server handles the requests of all its clients one after another, and the run of
one client is read off that common history. A call can also fail: its client
then cannot tell whether the server has handled it.
-/

inductive Client (κ β ε α : Type)
  | ret (a : α)
  | call (c : κ) (next : Except ε β → Client κ β ε α)

namespace Client

variable {κ β ε α γ δ ρ : Type}

def bind : Client κ β ε α → (α → Client κ β ε γ) → Client κ β ε γ
  | .ret a, f => f a
  | .call c next, f => .call c fun r => (next r).bind f

instance : Monad (Client κ β ε) where
  pure := .ret
  bind := .bind

def ask (c : κ) : Client κ β ε (Except ε β) := .call c .ret

/-- After the history `rs`, while the server handles the requests `rs'`, a client returns `a`.
A request `r` makes the call `asks r` and gets `answer rs r`, if it gets an answer. -/
inductive Runs (asks : ρ → κ) (answer : List ρ → ρ → Option β) :
    List ρ → Client κ β ε α → List ρ → α → Prop
  | ret {rs : List ρ} {a : α} : Runs asks answer rs (.ret a) [] a
  /-- The server handles the request of another client. -/
  | other {rs rs' : List ρ} {p : Client κ β ε α} {r : ρ} {a : α}
      (tail : Runs asks answer (rs ++ [r]) p rs' a) : Runs asks answer rs p (r :: rs') a
  | answered {rs rs' : List ρ} {next : Except ε β → Client κ β ε α} {r : ρ} {reply : β} {a : α}
      (got : answer rs r = some reply)
      (tail : Runs asks answer (rs ++ [r]) (next (.ok reply)) rs' a) :
      Runs asks answer rs (.call (asks r) next) (r :: rs') a
  | failed {rs rs' : List ρ} {c : κ} {next : Except ε β → Client κ β ε α} {failure : ε} {a : α}
      (tail : Runs asks answer rs (next (.error failure)) rs' a) :
      Runs asks answer rs (.call c next) rs' a

variable {asks : ρ → κ} {answer : List ρ → ρ → Option β} {rs rs' : List ρ}

/-! ## Inversion -/

theorem Runs.ret_eq {a b : α} (h : Runs asks answer rs (.ret a : Client κ β ε α) rs' b) : b = a := by
  generalize hp : (.ret a : Client κ β ε α) = p at h
  induction h with
  | ret =>
    cases hp
    rfl
  | other _ ih => exact ih hp
  | answered => cases hp
  | failed => cases hp

theorem Runs.call_cases {c : κ} {next : Except ε β → Client κ β ε α} {a : α}
    (h : Runs asks answer rs (.call c next) rs' a) : ∃ others rest, rs' = others ++ rest ∧
      ((∃ r tail reply, rest = r :: tail ∧ asks r = c ∧ answer (rs ++ others) r = some reply ∧
          Runs asks answer (rs ++ others ++ [r]) (next (.ok reply)) tail a) ∨
        ∃ failure, Runs asks answer (rs ++ others) (next (.error failure)) rest a) := by
  generalize hp : Client.call c next = p at h
  induction h with
  | ret => cases hp
  | @other rs rs' _ r _ _ ih =>
    obtain ⟨others, rest, rfl, h⟩ := ih hp
    refine ⟨r :: others, rest, rfl, ?_⟩
    rwa [List.append_cons]
  | @answered rs rs' _ r reply _ hreply tail =>
    cases hp
    exact ⟨[], r :: rs', rfl, .inl ⟨r, rs', reply, rfl, rfl, by simpa using hreply, by simpa using tail⟩⟩
  | @failed rs rs' _ _ failure _ tail =>
    cases hp
    exact ⟨[], rs', rfl, .inr ⟨failure, by simpa using tail⟩⟩

theorem Runs.others {p : Client κ β ε α} {a : α} (others : List ρ)
    (h : Runs asks answer (rs ++ others) p rs' a) : Runs asks answer rs p (others ++ rs') a := by
  induction others generalizing rs with
  | nil => rwa [List.append_nil] at h
  | cons r others ih =>
    rw [List.append_cons] at h
    exact .other (ih h)

theorem Runs.bind_split {p : Client κ β ε α} {f : α → Client κ β ε γ} {b : γ}
    (h : Runs asks answer rs (p.bind f) rs' b) :
    ∃ first last a, rs' = first ++ last ∧ Runs asks answer rs p first a ∧
      Runs asks answer (rs ++ first) (f a) last b := by
  induction p generalizing rs rs' with
  | ret a => exact ⟨[], rs', a, rfl, .ret, by rw [List.append_nil]; exact h⟩
  | call c next ih =>
    obtain ⟨others, rest, rfl, hcall⟩ := Runs.call_cases h
    rcases hcall with ⟨r, tail, reply, rfl, rfl, hreply, h⟩ | ⟨failure, h⟩
    · obtain ⟨first, last, a, rfl, h1, h2⟩ := ih _ h
      refine ⟨others ++ r :: first, last, a, by simp, .others _ (.answered hreply h1), ?_⟩
      simpa using h2
    · obtain ⟨first, last, a, rfl, h1, h2⟩ := ih _ h
      refine ⟨others ++ first, last, a, by simp, .others _ (.failed h1), ?_⟩
      simpa using h2

/-! ## Fallible clients -/

def Returns (asks : ρ → κ) (answer : List ρ → ρ → Option β) (rs : List ρ)
    (p : ExceptT δ (Client κ β ε) α) (rs' : List ρ) (a : α) : Prop :=
  Runs asks answer rs p.run rs' (.ok a)

variable {p : ExceptT δ (Client κ β ε) α}

theorem Returns.pure_eq {a b : α}
    (h : Returns asks answer rs (pure a : ExceptT δ (Client κ β ε) α) rs' b) : b = a := by
  cases Runs.ret_eq h
  rfl

theorem Returns.throw_false {e : δ} {b : α}
    (h : Returns asks answer rs (throw e : ExceptT δ (Client κ β ε) α) rs' b) : False := by
  cases Runs.ret_eq h

theorem Returns.bind_split {f : α → ExceptT δ (Client κ β ε) γ} {b : γ}
    (h : Returns asks answer rs (p >>= f) rs' b) :
    ∃ first last a, rs' = first ++ last ∧ Returns asks answer rs p first a ∧
      Returns asks answer (rs ++ first) (f a) last b := by
  obtain ⟨first, last, x, rfl, h1, h2⟩ := Runs.bind_split (p := p.run) h
  cases x with
  | error e => cases Runs.ret_eq h2
  | ok a => exact ⟨first, last, a, rfl, h1, h2⟩

theorem Returns.of_adapt {δ' : Type} {f : δ → δ'} {a : α}
    (h : Returns asks answer rs (ExceptT.adapt f p) rs' a) :
    ∃ first last, rs' = first ++ last ∧ Returns asks answer rs p first a := by
  obtain ⟨first, last, x, rfl, h1, h2⟩ := Runs.bind_split (p := p.run) h
  have hx := Runs.ret_eq h2
  cases x with
  | error e => cases hx
  | ok b =>
    cases hx
    exact ⟨first, last, rfl, h1⟩

end Client
