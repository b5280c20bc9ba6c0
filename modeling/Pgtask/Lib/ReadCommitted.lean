import Mathlib.Data.Fintype.Defs
import Mathlib.Data.List.Induction
import Mathlib.Logic.Relation

/-!
# Transactions under READ COMMITTED

A transaction is a program that reads, locks rows and writes them. It sees what
is committed at the moment it reads, and its own writes. A lock on a row waits
for the transactions that hold a conflicting one and then gives the newest
version of the row. Locks are held to the end, and writes become visible there.

The second half is a proof rule. Each transaction promises what its commit does
to a row under the locks it holds, and may rely on the others to keep the same
promise under locks that do not conflict with its own.
-/

open List

namespace ReadCommitted

/-! ## Row locks -/

/-- The row locks of PostgreSQL, weakest first. -/
inductive LockMode
  | keyShare | share | noKeyUpdate | update
  deriving DecidableEq

def LockMode.conflicts : LockMode → LockMode → Bool
  | .keyShare, .update | .update, .keyShare => true
  | .keyShare, _ | _, .keyShare => false
  | .share, .share => false
  | _, _ => true

def LockMode.writes : LockMode → Bool
  | .noKeyUpdate | .update => true
  | .keyShare | .share => false

class Store (D : Type) (κ : outParam Type) (ρ : outParam (κ → Type)) where
  get : D → (r : κ) → Option (ρ r)
  set : D → (r : κ) → Option (ρ r) → D
  get_set_self (d : D) (r : κ) (v : Option (ρ r)) : get (set d r v) r = v
  get_set_of_ne (d : D) {r s : κ} (v : Option (ρ r)) (h : s ≠ r) : get (set d r v) s = get d s

/-! ## Programs -/

/-- What is left of a transaction that returns an `α`. -/
inductive Prog (D κ : Type) (ρ : κ → Type) (α : Type)
  | ret (a : α)
  | raise
  | read (next : D → Prog D κ ρ α)
  | lock (r : κ) (mode : LockMode) (next : Option (ρ r) → Prog D κ ρ α)
  /-- `SKIP LOCKED`: `none` if another transaction holds a conflicting lock. -/
  | tryLock (r : κ) (mode : LockMode) (next : Option (Option (ρ r)) → Prog D κ ρ α)
  | write (r : κ) (v : Option (ρ r)) (next : Prog D κ ρ α)
  /-- `ON CONFLICT DO NOTHING`: waits for whoever is inserting the row, and tells if it is new. -/
  | insert (r : κ) (v : ρ r) (next : Bool → Prog D κ ρ α)

namespace Prog

variable {D κ : Type} {ρ : κ → Type} {α β γ : Type}

def bind : Prog D κ ρ α → (α → Prog D κ ρ β) → Prog D κ ρ β
  | .ret a, f => f a
  | .raise, _ => .raise
  | .read next, f => .read fun d => (next d).bind f
  | .lock r m next, f => .lock r m fun v => (next v).bind f
  | .tryLock r m next, f => .tryLock r m fun v => (next v).bind f
  | .write r v next, f => .write r v (next.bind f)
  | .insert r v next, f => .insert r v fun new => (next new).bind f

instance : Monad (Prog D κ ρ) where
  pure := .ret
  bind := .bind

def snapshot : Prog D κ ρ D := .read .ret

def lockRow (r : κ) (mode : LockMode) : Prog D κ ρ (Option (ρ r)) := .lock r mode .ret

def tryLockRow (r : κ) (mode : LockMode) : Prog D κ ρ (Option (Option (ρ r))) :=
  .tryLock r mode .ret

def put (r : κ) (v : ρ r) : Prog D κ ρ Unit := .write r (some v) (.ret ())

def insertRow (r : κ) (v : ρ r) : Prog D κ ρ Bool := .insert r v .ret

def remove (r : κ) : Prog D κ ρ Unit := .write r none (.ret ())

def forEach (f : β → Prog D κ ρ Unit) : List β → Prog D κ ρ Unit
  | [] => pure ()
  | b :: bs => do
    f b
    forEach f bs

def collect (f : β → Prog D κ ρ (List γ)) : List β → Prog D κ ρ (List γ)
  | [] => pure []
  | b :: bs => do
    let c ← f b
    let cs ← collect f bs
    pure (c ++ cs)

end Prog

/-! ## Interleavings -/

section Semantics

variable {D κ : Type} {ρ : κ → Type} {α ι : Type}

abbrev Held (κ : Type) := List (κ × LockMode)

abbrev Writes (κ : Type) (ρ : κ → Type) := List ((r : κ) × Option (ρ r))

def view [Store D κ ρ] (ws : Writes κ ρ) (d : D) : D :=
  ws.foldl (fun d w => Store.set d w.1 w.2) d

inductive Txn (D κ : Type) (ρ : κ → Type) (α : Type)
  | active (prog : Prog D κ ρ α) (held : Held κ) (ws : Writes κ ρ)
  | committed (a : α)
  | aborted

def Txn.held : Txn D κ ρ α → Held κ
  | .active _ held _ => held
  | .committed _ | .aborted => []

def Txn.ended : Txn D κ ρ α → Bool
  | .active .. => false
  | .committed _ | .aborted => true

/-- One step of a transaction. `free` says which locks no other transaction stands against. -/
def Txn.advance [Store D κ ρ] (free : κ → LockMode → Bool) (d : D) : Txn D κ ρ α → D × Txn D κ ρ α
  | .active (.ret a) _ ws => (view ws d, .committed a)
  | .active .raise _ _ => (d, .aborted)
  | .active (.read next) held ws => (d, .active (next (view ws d)) held ws)
  | .active (.lock r m next) held ws =>
    if free r m then (d, .active (next (Store.get (view ws d) r)) ((r, m) :: held) ws)
    else (d, .active (.lock r m next) held ws)
  | .active (.tryLock r m next) held ws =>
    if free r m then (d, .active (next (some (Store.get (view ws d) r))) ((r, m) :: held) ws)
    else (d, .active (next none) held ws)
  | .active (.write r v next) held ws => (d, .active next held (ws ++ [⟨r, v⟩]))
  | .active (.insert r v next) held ws =>
    if (Store.get (view ws d) r).isSome then (d, .active (next false) held ws)
    else if free r .update then
      (d, .active (next true) ((r, .update) :: held) (ws ++ [⟨r, some v⟩]))
    else (d, .active (.insert r v next) held ws)
  | .committed a => (d, .committed a)
  | .aborted => (d, .aborted)

structure System (D κ : Type) (ρ : κ → Type) (α ι : Type) where
  db : D
  txns : ι → Txn D κ ρ α

inductive Turn (ι : Type)
  | advance (i : ι)
  /-- The transaction raises an error or is picked as a deadlock victim. -/
  | abort (i : ι)

variable [DecidableEq κ] [Fintype ι] [DecidableEq ι]

def System.free (s : System D κ ρ α ι) (i : ι) (r : κ) (m : LockMode) : Bool :=
  decide (∀ j, j ≠ i → (s.txns j).held.all fun l => !(l.1 = r && l.2.conflicts m))

def System.turn [Store D κ ρ] (s : System D κ ρ α ι) : Turn ι → System D κ ρ α ι
  | .advance i =>
    let next := (s.txns i).advance (s.free i) s.db
    ⟨next.1, Function.update s.txns i next.2⟩
  | .abort i => if (s.txns i).ended then s else ⟨s.db, Function.update s.txns i .aborted⟩

def System.start (d : D) (progs : ι → Prog D κ ρ α) : System D κ ρ α ι :=
  ⟨d, fun i => .active (progs i) [] []⟩

/-- The system after an interleaving. A turn of a blocked transaction changes nothing. -/
def interleave [Store D κ ρ] (d : D) (progs : ι → Prog D κ ρ α) (turns : List (Turn ι)) :
    System D κ ρ α ι :=
  turns.foldl System.turn (System.start d progs)

/-- What one step of a transaction can be. -/
inductive Txn.Step [Store D κ ρ] (free : κ → LockMode → Bool) (d : D) :
    Txn D κ ρ α → D → Txn D κ ρ α → Prop
  /-- It waits for a lock, or it has ended. -/
  | wait (t : Txn D κ ρ α) : Step free d t d t
  | abort (t : Txn D κ ρ α) : Step free d t d .aborted
  | commit (a : α) (held : Held κ) (ws : Writes κ ρ) :
      Step free d (.active (.ret a) held ws) (view ws d) (.committed a)
  | read (next : D → Prog D κ ρ α) (held : Held κ) (ws : Writes κ ρ) :
      Step free d (.active (.read next) held ws) d (.active (next (view ws d)) held ws)
  | lock (r : κ) (m : LockMode) (next : Option (ρ r) → Prog D κ ρ α) (held : Held κ)
      (ws : Writes κ ρ) (granted : free r m = true) :
      Step free d (.active (.lock r m next) held ws) d
        (.active (next (Store.get (view ws d) r)) ((r, m) :: held) ws)
  | tryLock (r : κ) (m : LockMode) (next : Option (Option (ρ r)) → Prog D κ ρ α) (held : Held κ)
      (ws : Writes κ ρ) (granted : free r m = true) :
      Step free d (.active (.tryLock r m next) held ws) d
        (.active (next (some (Store.get (view ws d) r))) ((r, m) :: held) ws)
  | skip (r : κ) (m : LockMode) (next : Option (Option (ρ r)) → Prog D κ ρ α) (held : Held κ)
      (ws : Writes κ ρ) :
      Step free d (.active (.tryLock r m next) held ws) d (.active (next none) held ws)
  | write (r : κ) (v : Option (ρ r)) (next : Prog D κ ρ α) (held : Held κ) (ws : Writes κ ρ) :
      Step free d (.active (.write r v next) held ws) d (.active next held (ws ++ [⟨r, v⟩]))
  | found (r : κ) (v : ρ r) (next : Bool → Prog D κ ρ α) (held : Held κ) (ws : Writes κ ρ)
      (present : (Store.get (view ws d) r).isSome = true) :
      Step free d (.active (.insert r v next) held ws) d (.active (next false) held ws)
  | insert (r : κ) (v : ρ r) (next : Bool → Prog D κ ρ α) (held : Held κ) (ws : Writes κ ρ)
      (absent : Store.get (view ws d) r = none) (granted : free r .update = true) :
      Step free d (.active (.insert r v next) held ws) d
        (.active (next true) ((r, .update) :: held) (ws ++ [⟨r, some v⟩]))

omit [DecidableEq κ] in
theorem Txn.advance_step [Store D κ ρ] (free : κ → LockMode → Bool) (d : D) (t : Txn D κ ρ α) :
    t.Step free d (t.advance free d).1 (t.advance free d).2 := by
  cases t with
  | committed a => exact .wait _
  | aborted => exact .wait _
  | active prog held ws =>
    cases prog with
    | ret a => exact .commit a held ws
    | raise => exact .abort _
    | read next => exact .read next held ws
    | lock r m next =>
      simp only [Txn.advance]
      split
      · exact .lock r m next held ws ‹_›
      · exact .wait _
    | tryLock r m next =>
      simp only [Txn.advance]
      split
      · exact .tryLock r m next held ws ‹_›
      · exact .skip r m next held ws
    | write r v next => exact .write r v next held ws
    | insert r v next =>
      simp only [Txn.advance]
      split
      · exact .found r v next held ws ‹_›
      · rename_i absent
        split
        · exact .insert r v next held ws (by simpa using absent) ‹_›
        · exact .wait _

omit [DecidableEq κ] in
theorem Txn.advance_of_ended [Store D κ ρ] (free : κ → LockMode → Bool) (d : D) {t : Txn D κ ρ α}
    (h : t.ended = true) : t.advance free d = (d, t) := by
  cases t with
  | active => cases h
  | committed | aborted => rfl

theorem System.turn_step [Store D κ ρ] (s : System D κ ρ α ι) (t : Turn ι) :
    ∃ i d t', s.turn t = ⟨d, Function.update s.txns i t'⟩ ∧
      (s.txns i).Step (s.free i) s.db d t' := by
  cases t with
  | advance i => exact ⟨i, _, _, rfl, Txn.advance_step _ _ _⟩
  | abort i =>
    unfold System.turn
    simp only
    split
    · exact ⟨i, s.db, s.txns i, by rw [Function.update_eq_self], .wait _⟩
    · exact ⟨i, s.db, .aborted, rfl, .abort _⟩

theorem System.turn_txn [Store D κ ρ] (s : System D κ ρ α ι) (t : Turn ι) (i : ι) :
    ((s.turn t).txns i = s.txns i ∨ (s.turn t).txns i = .aborted) ∨
      t = .advance i ∧ (s.turn t).txns i = ((s.txns i).advance (s.free i) s.db).2 := by
  cases t with
  | advance j =>
    by_cases h : i = j
    · subst h
      exact .inr ⟨rfl, Function.update_self ..⟩
    · exact .inl (.inl (Function.update_of_ne h ..))
  | abort j =>
    unfold System.turn
    by_cases h : i = j
    · subst h
      simp only
      split
      · exact .inl (.inl rfl)
      · exact .inl (.inr (Function.update_self ..))
    · simp only
      split
      · exact .inl (.inl rfl)
      · exact .inl (.inl (Function.update_of_ne h ..))

end Semantics

/-! ## Locks and views -/

section Rows

variable {D κ : Type} {ρ : κ → Type}

def Writable (held : Held κ) (r : κ) : Prop := ∃ m, (r, m) ∈ held ∧ m.writes = true

def Compatible (held held' : Held κ) : Prop :=
  ∀ r m m', (r, m) ∈ held → (r, m') ∈ held' → m.conflicts m' = false

theorem LockMode.conflicts_comm (m m' : LockMode) : m.conflicts m' = m'.conflicts m := by
  cases m <;> cases m' <;> rfl

theorem Compatible.symm {held held' : Held κ} (h : Compatible held held') : Compatible held' held :=
  fun r m m' hm hm' => by rw [LockMode.conflicts_comm]; exact h r m' m hm' hm

theorem Writable.cons {held : Held κ} {r : κ} {l : κ × LockMode} (h : Writable held r) :
    Writable (l :: held) r :=
  h.imp fun _ hm => ⟨mem_cons_of_mem _ hm.1, hm.2⟩

theorem Writable.alone {held held' : Held κ} {r : κ} (c : Compatible held held')
    (h : Writable held r) : ¬ Writable held' r := by
  rintro ⟨m', hm', hw'⟩
  obtain ⟨m, hm, hw⟩ := h
  have := c r m m' hm hm'
  revert hw hw' this
  cases m <;> cases m' <;> decide

theorem Compatible.exclusive {held held' : Held κ} {r : κ} {m : LockMode} (c : Compatible held held')
    (h : (r, .update) ∈ held) : (r, m) ∉ held' := by
  intro hm
  have := c r _ m h hm
  revert this
  cases m <;> decide

variable [Store D κ ρ]

theorem view_concat (ws : Writes κ ρ) (d : D) (r : κ) (v : Option (ρ r)) :
    view (ws ++ [⟨r, v⟩]) d = Store.set (view ws d) r v := by
  unfold view
  rw [foldl_append]
  rfl

theorem get_view_concat (ws : Writes κ ρ) (d : D) (r : κ) (v : Option (ρ r)) :
    Store.get (view (ws ++ [⟨r, v⟩]) d) r = v := by
  rw [view_concat, Store.get_set_self]

theorem get_view_concat_of_ne (ws : Writes κ ρ) (d : D) {r s : κ} (v : Option (ρ r)) (h : s ≠ r) :
    Store.get (view (ws ++ [⟨r, v⟩]) d) s = Store.get (view ws d) s := by
  rw [view_concat, Store.get_set_of_ne _ _ h]

theorem get_view_of_not_mem {ws : Writes κ ρ} {r : κ} (d : D) (h : r ∉ ws.map Sigma.fst) :
    Store.get (view ws d) r = Store.get d r := by
  induction ws using List.reverseRecOn with
  | nil => rfl
  | append_singleton ws w ih =>
    simp only [map_append, map_cons, map_nil, mem_append, mem_singleton,
      not_or] at h
    rw [get_view_concat_of_ne _ _ _ h.2, ih h.1]

theorem get_view_of_mem {ws : Writes κ ρ} {r : κ} (d d' : D) (h : r ∈ ws.map Sigma.fst) :
    Store.get (view ws d) r = Store.get (view ws d') r := by
  classical
  induction ws using List.reverseRecOn with
  | nil => simp at h
  | append_singleton ws w ih =>
    obtain ⟨s, v⟩ := w
    by_cases hr : r = s
    · subst hr
      rw [get_view_concat, get_view_concat]
    · simp only [map_append, map_cons, map_nil, mem_append, mem_singleton,
        hr, or_false] at h
      rw [get_view_concat_of_ne _ _ _ hr, get_view_concat_of_ne _ _ _ hr, ih h]

end Rows

section Exclusion

variable {D κ : Type} {ρ : κ → Type} {α ι : Type}

theorem free_compatible [DecidableEq κ] [Fintype ι] [DecidableEq ι] {s : System D κ ρ α ι} {i : ι}
    {r : κ} {m : LockMode} {held : Held κ} (granted : s.free i r m = true)
    (same : ∀ j, j ≠ i → Compatible held (s.txns j).held) (j : ι) (hj : j ≠ i) :
    Compatible ((r, m) :: held) (s.txns j).held := by
  intro r' m1 m2 hm1 hm2
  rcases mem_cons.mp hm1 with heq | hm1
  · cases heq
    have := List.all_eq_true.mp (of_decide_eq_true granted j hj) (r, m2) hm2
    rw [LockMode.conflicts_comm]
    simpa using this
  · exact same j hj r' m1 m2 hm1 hm2

end Exclusion

/-! ## Promises -/

/-- What a commit promises: an invariant of the committed database, and for every row it
changes, under the locks it holds, how it changes it. -/
structure Promise (D κ : Type) (ρ : κ → Type) where
  Inv : D → Prop
  change : Held κ → (r : κ) → Option (ρ r) → Option (ρ r) → Prop
  mono : ∀ {held l r old new}, change held r old new → change (l :: held) r old new

namespace Promise

variable {D κ : Type} {ρ : κ → Type} [Store D κ ρ] {α β γ : Type}

def Keeps (p : Promise D κ ρ) (held : Held κ) (d d' : D) : Prop :=
  p.Inv d' ∧ ∀ r, Store.get d' r = Store.get d r ∨
    Writable held r ∧ p.change held r (Store.get d r) (Store.get d' r)

def Other (p : Promise D κ ρ) (held : Held κ) (d d' : D) : Prop :=
  p.Inv d ∧ ∃ held', Compatible held held' ∧ p.Keeps held' d d'

theorem Other.locked {p : Promise D κ ρ} {held : Held κ} {d d' : D} {r : κ}
    (h : p.Other held d d') (hw : Writable held r) : Store.get d' r = Store.get d r := by
  obtain ⟨-, held', compatible, -, rows⟩ := h
  exact (rows r).resolve_right fun h' => hw.alone compatible h'.1

def Rely (p : Promise D κ ρ) (held : Held κ) : D → D → Prop := Relation.ReflTransGen (p.Other held)

/-- Assertions about a transaction: its locks, its writes and the committed database. -/
abbrev Assn (D κ : Type) (ρ : κ → Type) := Held κ → Writes κ ρ → D → Prop

def Stable (p : Promise D κ ρ) (A : Assn D κ ρ) : Prop :=
  ∀ held ws d d', A held ws d → p.Other held d d' → A held ws d'

variable {p : Promise D κ ρ}

theorem Stable.rely {A : Assn D κ ρ} (hA : p.Stable A) {held : Held κ} {ws : Writes κ ρ} {d d' : D}
    (h : p.Rely held d d') (ha : A held ws d) : A held ws d' := by
  induction h with
  | refl => exact ha
  | tail _ step ih => exact hA _ _ _ _ ih step

/-- From here the program ends in `Q`, whatever the others commit in between. -/
def wp (p : Promise D κ ρ) (Q : α → Assn D κ ρ) : Prog D κ ρ α → Assn D κ ρ
  | .ret a => Q a
  | .raise => fun _ _ _ => True
  | .read next => fun held ws d =>
    ∀ d', p.Rely held d d' → p.Inv d' → p.wp Q (next (view ws d')) held ws d'
  | .lock r m next => fun held ws d =>
    ∀ d', p.Rely held d d' → p.Inv d' →
      p.wp Q (next (Store.get (view ws d') r)) ((r, m) :: held) ws d'
  | .tryLock r m next => fun held ws d =>
    ∀ d', p.Rely held d d' → p.Inv d' → p.wp Q (next none) held ws d' ∧
      p.wp Q (next (some (Store.get (view ws d') r))) ((r, m) :: held) ws d'
  | .write r v next => fun held ws d => p.wp Q next held (ws ++ [⟨r, v⟩]) d
  | .insert r v next => fun held ws d =>
    ∀ d', p.Rely held d d' → p.Inv d' →
      ((Store.get (view ws d') r).isSome = true → p.wp Q (next false) held ws d') ∧
      (Store.get (view ws d') r = none →
        p.wp Q (next true) ((r, .update) :: held) (ws ++ [⟨r, some v⟩]) d')

theorem wp_stable {Q : α → Assn D κ ρ} (hQ : ∀ a, p.Stable (Q a)) (prog : Prog D κ ρ α) :
    p.Stable (p.wp Q prog) := by
  induction prog with
  | ret a => exact hQ a
  | raise => exact fun _ _ _ _ _ _ => trivial
  | read next _ => exact fun held ws d d' h step d'' rely => h d'' (.head step rely)
  | lock r m next _ => exact fun held ws d d' h step d'' rely => h d'' (.head step rely)
  | tryLock r m next _ => exact fun held ws d d' h step d'' rely => h d'' (.head step rely)
  | write r v next ih => exact fun held ws d d' h step => ih held _ d d' h step
  | insert r v next _ => exact fun held ws d d' h step d'' rely => h d'' (.head step rely)

/-! ### Rules -/

theorem wp_mono {Q Q' : α → Assn D κ ρ} (h : ∀ a held ws d, Q a held ws d → Q' a held ws d)
    {prog : Prog D κ ρ α} {held : Held κ} {ws : Writes κ ρ} {d : D} (hp : p.wp Q prog held ws d) :
    p.wp Q' prog held ws d := by
  induction prog generalizing held ws d with
  | ret a => exact h a held ws d hp
  | raise => trivial
  | read next ih => exact fun d' rely inv => ih _ (hp d' rely inv)
  | lock r m next ih => exact fun d' rely inv => ih _ (hp d' rely inv)
  | tryLock r m next ih =>
    exact fun d' rely inv => ⟨ih _ (hp d' rely inv).1, ih _ (hp d' rely inv).2⟩
  | write r v next ih => exact ih hp
  | insert r v next ih =>
    exact fun d' rely inv => ⟨fun found => ih _ ((hp d' rely inv).1 found),
      fun free => ih _ ((hp d' rely inv).2 free)⟩

theorem wp_bind {Q : β → Assn D κ ρ} {prog : Prog D κ ρ α} {f : α → Prog D κ ρ β} {held : Held κ}
    {ws : Writes κ ρ} {d : D} (h : p.wp (fun a => p.wp Q (f a)) prog held ws d) :
    p.wp Q (prog >>= f) held ws d := by
  change p.wp Q (prog.bind f) held ws d
  induction prog generalizing held ws d with
  | ret a => exact h
  | raise => trivial
  | read next ih => exact fun d' rely inv => ih _ (h d' rely inv)
  | lock r m next ih => exact fun d' rely inv => ih _ (h d' rely inv)
  | tryLock r m next ih =>
    exact fun d' rely inv => ⟨ih _ (h d' rely inv).1, ih _ (h d' rely inv).2⟩
  | write r v next ih => exact ih h
  | insert r v next ih =>
    exact fun d' rely inv => ⟨fun found => ih _ ((h d' rely inv).1 found),
      fun free => ih _ ((h d' rely inv).2 free)⟩

theorem wp_then {A : α → Assn D κ ρ} {Q : β → Assn D κ ρ} {prog : Prog D κ ρ α}
    {f : α → Prog D κ ρ β} {held : Held κ} {ws : Writes κ ρ} {d : D} (h : p.wp A prog held ws d)
    (next : ∀ a held ws d, A a held ws d → p.wp Q (f a) held ws d) :
    p.wp Q (prog >>= f) held ws d :=
  wp_bind (wp_mono next h)

theorem wp_pure {Q : α → Assn D κ ρ} {a : α} {held : Held κ} {ws : Writes κ ρ} {d : D}
    (h : Q a held ws d) : p.wp Q (pure a) held ws d := h

theorem wp_snapshot {A : Assn D κ ρ} (hA : p.Stable A) {Q : β → Assn D κ ρ} {f : D → Prog D κ ρ β}
    {held : Held κ} {ws : Writes κ ρ} {d : D} (h : A held ws d)
    (next : ∀ d', p.Inv d' → A held ws d' → p.wp Q (f (view ws d')) held ws d') :
    p.wp Q (Prog.snapshot >>= f) held ws d :=
  wp_bind fun d' rely inv => next d' inv (hA.rely rely h)

theorem wp_lockRow {A : Assn D κ ρ} (hA : p.Stable A) {Q : β → Assn D κ ρ} {r : κ} {m : LockMode}
    {f : Option (ρ r) → Prog D κ ρ β} {held : Held κ} {ws : Writes κ ρ} {d : D} (h : A held ws d)
    (next : ∀ d', A held ws d' → p.wp Q (f (Store.get (view ws d') r)) ((r, m) :: held) ws d') :
    p.wp Q (Prog.lockRow r m >>= f) held ws d :=
  wp_bind fun d' rely _ => next d' (hA.rely rely h)

theorem wp_tryLockRow {A : Assn D κ ρ} (hA : p.Stable A) {Q : β → Assn D κ ρ} {r : κ}
    {m : LockMode} {f : Option (Option (ρ r)) → Prog D κ ρ β} {held : Held κ} {ws : Writes κ ρ}
    {d : D} (h : A held ws d) (next : ∀ d', A held ws d' → p.wp Q (f none) held ws d' ∧
      p.wp Q (f (some (Store.get (view ws d') r))) ((r, m) :: held) ws d') :
    p.wp Q (Prog.tryLockRow r m >>= f) held ws d :=
  wp_bind fun d' rely _ => next d' (hA.rely rely h)

theorem wp_put {Q : β → Assn D κ ρ} {r : κ} {v : ρ r} {f : Unit → Prog D κ ρ β} {held : Held κ}
    {ws : Writes κ ρ} {d : D} (h : p.wp Q (f ()) held (ws ++ [⟨r, some v⟩]) d) :
    p.wp Q (Prog.put r v >>= f) held ws d := h

theorem wp_insertRow {A : Assn D κ ρ} (hA : p.Stable A) {Q : β → Assn D κ ρ} {r : κ} {v : ρ r}
    {f : Bool → Prog D κ ρ β} {held : Held κ} {ws : Writes κ ρ} {d : D} (h : A held ws d)
    (next : ∀ d', A held ws d' →
      ((Store.get (view ws d') r).isSome = true → p.wp Q (f false) held ws d') ∧
      (Store.get (view ws d') r = none →
        p.wp Q (f true) ((r, .update) :: held) (ws ++ [⟨r, some v⟩]) d')) :
    p.wp Q (Prog.insertRow r v >>= f) held ws d :=
  wp_bind fun d' rely _ => next d' (hA.rely rely h)

theorem wp_forEach {f : β → Prog D κ ρ Unit} {I : List β → Assn D κ ρ} {l : List β} {held : Held κ}
    {ws : Writes κ ρ} {d : D}
    (step : ∀ b bs held ws d, I (b :: bs) held ws d → p.wp (fun _ => I bs) (f b) held ws d)
    (h : I l held ws d) : p.wp (fun _ => I []) (Prog.forEach f l) held ws d := by
  induction l generalizing held ws d with
  | nil => exact h
  | cons b bs ih => exact wp_then (step b bs held ws d h) fun _ _ _ _ => ih

theorem wp_collect_from {f : β → Prog D κ ρ (List γ)} {I : List γ → List β → Assn D κ ρ}
    {l : List β} {cs : List γ} {held : Held κ} {ws : Writes κ ρ} {d : D}
    (step : ∀ cs b bs held ws d, I cs (b :: bs) held ws d →
      p.wp (fun c => I (cs ++ c) bs) (f b) held ws d) (h : I cs l held ws d) :
    p.wp (fun cs' => I (cs ++ cs') []) (Prog.collect f l) held ws d := by
  induction l generalizing cs held ws d with
  | nil =>
    change I (cs ++ []) [] held ws d
    rw [append_nil]
    exact h
  | cons b bs ih =>
    refine wp_then (step cs b bs held ws d h) fun c held ws d hc => ?_
    refine wp_then (ih hc) fun cs' held ws d hcs => ?_
    change I (cs ++ (c ++ cs')) [] held ws d
    rw [← append_assoc]
    exact hcs

/-- The rule of loops that collect: `I` speaks of the answers so far and the elements to come. -/
theorem wp_collect {f : β → Prog D κ ρ (List γ)} {I : List γ → List β → Assn D κ ρ} {l : List β}
    {held : Held κ} {ws : Writes κ ρ} {d : D}
    (step : ∀ cs b bs held ws d, I cs (b :: bs) held ws d →
      p.wp (fun c => I (cs ++ c) bs) (f b) held ws d)
    (h : I [] l held ws d) : p.wp (fun cs => I cs []) (Prog.collect f l) held ws d :=
  wp_collect_from step h

/-! ### Commits -/

def Lawful (p : Promise D κ ρ) : Assn D κ ρ := fun held ws d =>
  ∀ r ∈ ws.map Sigma.fst,
    Writable held r ∧ p.change held r (Store.get d r) (Store.get (view ws d) r)

theorem lawful_stable : p.Stable p.Lawful := by
  intro held ws d d' h other r hr
  obtain ⟨hw, hc⟩ := h r hr
  rw [other.locked hw, get_view_of_mem d' d hr]
  exact ⟨hw, hc⟩

theorem Lawful.row_cases {held : Held κ} {ws : Writes κ ρ} {d d' : D} (h : p.Lawful held ws d)
    (other : p.Other held d d') (r : κ) :
    Store.get (view ws d) r = Store.get d r ∧ Store.get (view ws d') r = Store.get d' r ∨
      Writable held r ∧ p.change held r (Store.get d r) (Store.get (view ws d) r) ∧
        Store.get (view ws d') r = Store.get (view ws d) r ∧ Store.get d' r = Store.get d r := by
  classical
  by_cases hr : r ∈ ws.map Sigma.fst
  · obtain ⟨hw, hc⟩ := h r hr
    exact .inr ⟨hw, hc, get_view_of_mem d' d hr, other.locked hw⟩
  · exact .inl ⟨get_view_of_not_mem d hr, get_view_of_not_mem d' hr⟩

theorem Lawful.view_locked {held : Held κ} {ws : Writes κ ρ} {d d' : D} (h : p.Lawful held ws d)
    (other : p.Other held d d') {r : κ} (hw : Writable held r) :
    Store.get (view ws d') r = Store.get (view ws d) r := by
  rcases h.row_cases other r with ⟨hv, hv'⟩ | ⟨-, -, hv, -⟩
  · rw [hv, hv', other.locked hw]
  · exact hv

theorem Lawful.cons {held : Held κ} {ws : Writes κ ρ} {d : D} {l : κ × LockMode}
    (h : p.Lawful held ws d) : p.Lawful (l :: held) ws d :=
  fun r hr => ⟨(h r hr).1.cons, p.mono (h r hr).2⟩

theorem Lawful.write {held : Held κ} {ws : Writes κ ρ} {d : D} {r : κ} {v : Option (ρ r)}
    (h : p.Lawful held ws d) (hw : Writable held r) (hc : p.change held r (Store.get d r) v) :
    p.Lawful held (ws ++ [⟨r, v⟩]) d := by
  classical
  intro s hs
  by_cases hr : s = r
  · subst hr
    rw [get_view_concat]
    exact ⟨hw, hc⟩
  · rw [get_view_concat_of_ne _ _ _ hr]
    simp only [map_append, map_cons, map_nil, mem_append, mem_singleton,
      hr, or_false] at hs
    exact h s hs

def Committable (p : Promise D κ ρ) : Assn D κ ρ := fun held ws d =>
  ∀ d', p.Rely held d d' → p.Inv d' → p.Keeps held d' (view ws d')

theorem committable_stable : p.Stable p.Committable :=
  fun _ _ _ _ h step d'' rely => h d'' (.head step rely)

theorem committable_of {A : Assn D κ ρ} (hA : p.Stable A)
    (commits : ∀ held ws d, p.Inv d → A held ws d → p.Lawful held ws d ∧ p.Inv (view ws d))
    {held : Held κ} {ws : Writes κ ρ} {d : D} (h : A held ws d) : p.Committable held ws d := by
  classical
  intro d' rely inv
  obtain ⟨lawful, inv'⟩ := commits held ws d' inv (hA.rely rely h)
  refine ⟨inv', fun r => ?_⟩
  by_cases hr : r ∈ ws.map Sigma.fst
  · exact .inr (lawful r hr)
  · exact .inl (get_view_of_not_mem d' hr)

/-! ### Soundness -/

section Soundness

variable {ι : Type}

structure Sound (p : Promise D κ ρ) (s : System D κ ρ α ι) : Prop where
  inv : p.Inv s.db
  compatible : ∀ i j, i ≠ j → Compatible (s.txns i).held (s.txns j).held
  safe : ∀ i prog held ws, s.txns i = .active prog held ws →
    p.wp (fun _ => p.Committable) prog held ws s.db

theorem sound_start {d : D} {progs : ι → Prog D κ ρ α} (start : p.Inv d)
    (safe : ∀ i, p.wp (fun _ => p.Committable) (progs i) [] [] d) :
    p.Sound (System.start d progs) := by
  refine ⟨start, fun i j _ r m m' hm => ?_, fun i prog held ws heq => ?_⟩
  · cases hm
  · cases heq
    exact safe i

variable [DecidableEq ι]

theorem Sound.replace {s : System D κ ρ α ι} (h : p.Sound s) {i : ι} {t : Txn D κ ρ α}
    (locks : ∀ j, j ≠ i → Compatible t.held (s.txns j).held)
    (safe : ∀ prog held ws, t = .active prog held ws →
      p.wp (fun _ => p.Committable) prog held ws s.db) :
    p.Sound ⟨s.db, Function.update s.txns i t⟩ := by
  refine ⟨h.inv, fun j k hjk => ?_, fun j prog held ws hj => ?_⟩
  · by_cases hj : j = i
    · subst hj
      simpa [Ne.symm hjk] using locks k (Ne.symm hjk)
    · by_cases hk : k = i
      · subst hk
        simpa [hj] using (locks j hj).symm
      · simpa [hj, hk] using h.compatible j k hjk
  · by_cases hji : j = i
    · subst hji
      exact safe prog held ws (by simpa using hj)
    · exact h.safe j prog held ws (by simpa [hji] using hj)

theorem Sound.commit {s : System D κ ρ α ι} (h : p.Sound s) {i : ι} {a : α} {held : Held κ}
    {ws : Writes κ ρ} (hi : s.txns i = .active (.ret a) held ws) :
    p.Sound ⟨view ws s.db, Function.update s.txns i (.committed a)⟩ := by
  have keeps : p.Keeps held s.db (view ws s.db) := h.safe i _ held ws hi s.db .refl h.inv
  refine ⟨keeps.1, fun j k hjk => ?_, fun j prog held' ws' hj => ?_⟩
  · by_cases hj : j = i
    · subst hj
      intro r m m' hm
      simp [Txn.held] at hm
    · by_cases hk : k = i
      · subst hk
        intro r m m' _ hm
        simp [Txn.held] at hm
      · simpa [hj, hk] using h.compatible j k hjk
  · by_cases hji : j = i
    · subst hji
      simp at hj
    · have hj' : s.txns j = .active prog held' ws' := by simpa [hji] using hj
      have compatible := h.compatible j i hji
      rw [hj', hi] at compatible
      exact wp_stable (fun _ => committable_stable) prog held' ws' _ _ (h.safe j prog held' ws' hj')
        ⟨h.inv, held, compatible, keeps⟩

variable [DecidableEq κ] [Fintype ι]

theorem Sound.turn {s : System D κ ρ α ι} (h : p.Sound s) (t : Turn ι) : p.Sound (s.turn t) := by
  obtain ⟨i, d, t', hturn, step⟩ := s.turn_step t
  rw [hturn]
  -- The transaction goes on with these locks. It is still on its way.
  have goes_on : ∀ {prog : Prog D κ ρ α} {held : Held κ} {ws : Writes κ ρ},
      (∀ j, j ≠ i → Compatible held (s.txns j).held) →
      p.wp (fun _ => p.Committable) prog held ws s.db →
      p.Sound ⟨s.db, Function.update s.txns i (.active prog held ws)⟩ := by
    intro prog held ws locks safe
    refine h.replace locks fun prog' held' ws' heq => ?_
    cases heq
    exact safe
  have same : ∀ j, j ≠ i → Compatible (s.txns i).held (s.txns j).held :=
    fun j hj => h.compatible i j (Ne.symm hj)
  have safe : ∀ prog held ws, s.txns i = .active prog held ws →
      p.wp (fun _ => p.Committable) prog held ws s.db := fun prog held ws => h.safe i prog held ws
  generalize hi : s.txns i = txn at step same safe
  cases step with
  | wait =>
    rw [← hi, Function.update_eq_self]
    exact h
  | abort => exact h.replace (fun j _ r m m' hm => absurd hm not_mem_nil) nofun
  | commit a held ws => exact h.commit hi
  | read next held ws => exact goes_on same (safe _ held ws rfl s.db .refl h.inv)
  | lock r m next held ws granted =>
    exact goes_on (free_compatible granted same) (safe _ held ws rfl s.db .refl h.inv)
  | tryLock r m next held ws granted =>
    exact goes_on (free_compatible granted same) (safe _ held ws rfl s.db .refl h.inv).2
  | skip r m next held ws => exact goes_on same (safe _ held ws rfl s.db .refl h.inv).1
  | write r v next held ws => exact goes_on same (safe _ held ws rfl)
  | found r v next held ws present =>
    exact goes_on same ((safe _ held ws rfl s.db .refl h.inv).1 present)
  | insert r v next held ws absent granted =>
    exact goes_on (free_compatible granted same) ((safe _ held ws rfl s.db .refl h.inv).2 absent)

/-- The proof rule: if every transaction, run on its own beside others that keep the promise,
keeps it too, then the invariant holds in every state of every interleaving. -/
theorem interleave_inv {d : D} {progs : ι → Prog D κ ρ α} (start : p.Inv d)
    (safe : ∀ i, p.wp (fun _ => p.Committable) (progs i) [] [] d) (turns : List (Turn ι)) :
    p.Inv (interleave d progs turns).db := by
  have := List.foldlRecOn turns System.turn (sound_start start safe) fun s hs t _ => hs.turn t
  exact this.inv

end Soundness

end Promise

end ReadCommitted
