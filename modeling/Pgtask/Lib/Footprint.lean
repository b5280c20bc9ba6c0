import Pgtask.Lib.ReadCommitted

/-!
# What transactions touch

`Prog.All` bounds the rows that a program locks and the values that it writes,
whatever it reads. No lock is needed to say what becomes of a row then: a commit
leaves it alone or gives it a value that some program writes.
-/

open List

namespace ReadCommitted

variable {D κ : Type} {ρ : κ → Type} {α β γ ι : Type}

namespace Prog

def All (locks : κ → Prop) (writes : (r : κ) → Option (ρ r) → Prop) : Prog D κ ρ α → Prop
  | .ret _ | .raise => True
  | .read next => ∀ d, (next d).All locks writes
  | .lock r _ next => locks r ∧ ∀ v, (next v).All locks writes
  | .tryLock r _ next => locks r ∧ ∀ v, (next v).All locks writes
  | .write r v next => writes r v ∧ next.All locks writes
  | .insert r v next => locks r ∧ writes r (some v) ∧ ∀ new, (next new).All locks writes

variable {locks : κ → Prop} {writes : (r : κ) → Option (ρ r) → Prop}

theorem All.bind {prog : Prog D κ ρ α} {f : α → Prog D κ ρ β} (h : prog.All locks writes)
    (next : ∀ a, (f a).All locks writes) : (prog >>= f).All locks writes := by
  change (prog.bind f).All locks writes
  induction prog with
  | ret a => exact next a
  | raise => trivial
  | read _ ih => exact fun d => ih d (h d)
  | lock r m _ ih => exact ⟨h.1, fun v => ih v (h.2 v)⟩
  | tryLock r m _ ih => exact ⟨h.1, fun v => ih v (h.2 v)⟩
  | write r v _ ih => exact ⟨h.1, ih h.2⟩
  | insert r v _ ih => exact ⟨h.1, h.2.1, fun new => ih new (h.2.2 new)⟩

@[simp] theorem all_snapshot : (snapshot : Prog D κ ρ D).All locks writes := fun _ => trivial

@[simp] theorem all_lockRow {r : κ} {m : LockMode} :
    (lockRow r m : Prog D κ ρ _).All locks writes ↔ locks r :=
  ⟨And.left, fun h => ⟨h, fun _ => trivial⟩⟩

@[simp] theorem all_tryLockRow {r : κ} {m : LockMode} :
    (tryLockRow r m : Prog D κ ρ _).All locks writes ↔ locks r :=
  ⟨And.left, fun h => ⟨h, fun _ => trivial⟩⟩

@[simp] theorem all_put {r : κ} {v : ρ r} :
    (put r v : Prog D κ ρ Unit).All locks writes ↔ writes r (some v) :=
  ⟨And.left, fun h => ⟨h, trivial⟩⟩

@[simp] theorem all_insertRow {r : κ} {v : ρ r} :
    (insertRow r v : Prog D κ ρ Bool).All locks writes ↔ locks r ∧ writes r (some v) :=
  ⟨fun h => ⟨h.1, h.2.1⟩, fun h => ⟨h.1, h.2, fun _ => trivial⟩⟩

theorem All.forEach {f : β → Prog D κ ρ Unit} {l : List β} (h : ∀ b ∈ l, (f b).All locks writes) :
    (forEach f l).All locks writes := by
  induction l with
  | nil => trivial
  | cons b bs ih =>
    rw [forall_mem_cons] at h
    exact .bind h.1 fun _ => ih h.2

theorem All.collect {f : β → Prog D κ ρ (List γ)} {l : List β}
    (h : ∀ b ∈ l, (f b).All locks writes) : (collect f l).All locks writes := by
  induction l with
  | nil => trivial
  | cons b bs ih =>
    rw [forall_mem_cons] at h
    exact .bind h.1 fun _ => .bind (ih h.2) fun _ => trivial

end Prog

/-! ## Interleavings -/

section Turns

variable [Store D κ ρ] [DecidableEq κ] [Fintype ι] [DecidableEq ι]

theorem interleave_concat (d : D) (progs : ι → Prog D κ ρ α) (turns : List (Turn ι)) (t : Turn ι) :
    interleave d progs (turns ++ [t]) = (interleave d progs turns).turn t :=
  foldl_concat ..

/-- The rule of interleavings: what holds at the start and what every turn keeps. -/
theorem interleave_rule {d : D} {progs : ι → Prog D κ ρ α} {I : System D κ ρ α ι → Prop}
    (start : I (System.start d progs)) (keeps : ∀ s t, I s → I (s.turn t)) (turns : List (Turn ι)) :
    I (interleave d progs turns) :=
  List.foldlRecOn turns System.turn start fun s hs t _ => keeps s t hs

end Turns

theorem get_view_cases [Store D κ ρ] (ws : Writes κ ρ) (d : D) (r : κ) :
    Store.get (view ws d) r = Store.get d r ∨ ⟨r, Store.get (view ws d) r⟩ ∈ ws := by
  classical
  induction ws using List.reverseRecOn with
  | nil => exact .inl rfl
  | append_singleton ws w ih =>
    obtain ⟨s, v⟩ := w
    by_cases hr : r = s
    · subst hr
      rw [get_view_concat]
      exact .inr (mem_append_right _ mem_cons_self)
    · rw [get_view_concat_of_ne _ _ _ hr]
      exact ih.imp_right (mem_append_left _)

section Bounded

variable {locks : κ → Prop} {writes : (r : κ) → Option (ρ r) → Prop}

def Bounded (locks : κ → Prop) (writes : (r : κ) → Option (ρ r) → Prop) (s : System D κ ρ α ι) :
    Prop :=
  ∀ i prog held ws, s.txns i = .active prog held ws →
    prog.All locks writes ∧ ∀ w ∈ ws, writes w.1 w.2

theorem bounded_start {d : D} {progs : ι → Prog D κ ρ α}
    (h : ∀ i, (progs i).All locks writes) : Bounded locks writes (System.start d progs) := by
  intro i prog held ws hi
  cases hi
  exact ⟨h i, nofun⟩

variable [Store D κ ρ] [DecidableEq κ] [Fintype ι] [DecidableEq ι]

theorem Bounded.turn {s : System D κ ρ α ι} (h : Bounded locks writes s) (t : Turn ι) :
    Bounded locks writes (s.turn t) := by
  obtain ⟨i, d, t', hturn, step⟩ := s.turn_step t
  rw [hturn]
  intro j prog held ws hj
  by_cases hji : j = i
  swap
  · exact h j prog held ws (by simpa [hji] using hj)
  subst hji
  simp only [Function.update_self] at hj
  subst hj
  have hi := h j
  generalize s.txns j = txn at step hi
  have more : ∀ {ws : Writes κ ρ} {r : κ} {v : Option (ρ r)}, (∀ w ∈ ws, writes w.1 w.2) →
      writes r v → ∀ w ∈ ws ++ [⟨r, v⟩], writes w.1 w.2 := by
    intro ws r v hws hv w hw
    rcases mem_append.mp hw with hw | hw
    · exact hws w hw
    · rw [mem_singleton.mp hw]
      exact hv
  cases step with
  | wait => exact hi _ _ _ rfl
  | read => exact (hi _ _ _ rfl).imp_left fun h => h _
  | lock | tryLock | skip => exact (hi _ _ _ rfl).imp_left fun h => h.2 _
  | write =>
    obtain ⟨hall, hws⟩ := hi _ _ _ rfl
    exact ⟨hall.2, more hws hall.1⟩
  | found => exact (hi _ _ _ rfl).imp_left fun h => h.2.2 _
  | insert =>
    obtain ⟨hall, hws⟩ := hi _ _ _ rfl
    exact ⟨hall.2.2 _, more hws hall.2.1⟩

theorem Bounded.row {s : System D κ ρ α ι} (h : Bounded locks writes s) (t : Turn ι) (r : κ) :
    Store.get (s.turn t).db r = Store.get s.db r ∨ writes r (Store.get (s.turn t).db r) := by
  obtain ⟨i, d, t', hturn, step⟩ := s.turn_step t
  rw [hturn]
  have hi := h i
  generalize s.txns i = txn at step hi
  cases step with
  | commit a held ws =>
    exact (get_view_cases ws s.db r).imp_right fun hw => (hi _ _ _ rfl).2 _ hw
  | _ => exact .inl rfl

end Bounded

end ReadCommitted
