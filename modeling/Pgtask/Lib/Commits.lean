import Pgtask.Lib.Footprint

/-!
# What is true at a commit

`Promise.Expects` follows each transaction to the assertion it ends with. The
assertion is there when the transaction commits, next to the answer it gives.
-/

namespace ReadCommitted

variable {D κ : Type} {ρ : κ → Type} [Store D κ ρ] {α β ι : Type}

def Txn.answer : Txn D κ ρ α → Option α
  | .committed a => some a
  | .active .. | .aborted => none

omit [Store D κ ρ] in
theorem Txn.answer_eq_some {t : Txn D κ ρ α} {a : α} : t.answer = some a ↔ t = .committed a := by
  cases t <;> simp [Txn.answer]

theorem Txn.advance_commit (free : κ → LockMode → Bool) (d : D) (t : Txn D κ ρ α) :
    (∃ a held ws, t = .active (.ret a) held ws) ∨
      (t.advance free d).1 = d ∧ ∀ a, (t.advance free d).2 = .committed a → t = .committed a := by
  have step := t.advance_step free d
  generalize (t.advance free d).1 = d' at step
  generalize (t.advance free d).2 = t' at step
  cases step with
  | commit a held ws => exact .inl ⟨a, held, ws, rfl⟩
  | wait => exact .inr ⟨rfl, fun _ h => h⟩
  | _ => exact .inr ⟨rfl, nofun⟩

section Turns

variable [DecidableEq κ] [Fintype ι] [DecidableEq ι]

theorem System.turn_commit (s : System D κ ρ α ι) (t : Turn ι) :
    ((s.turn t).db = s.db ∧ ∀ i a, (s.turn t).txns i = .committed a → s.txns i = .committed a) ∨
      ∃ i a held ws, t = .advance i ∧ s.txns i = .active (.ret a) held ws ∧
        s.turn t = ⟨view ws s.db, Function.update s.txns i (.committed a)⟩ := by
  cases t with
  | abort j =>
    refine .inl ?_
    unfold System.turn
    dsimp only
    split
    · exact ⟨rfl, fun _ _ h => h⟩
    · refine ⟨rfl, fun i a h => ?_⟩
      by_cases hi : i = j
      · subst hi
        simp at h
      · simpa [hi] using h
  | advance j =>
    rcases Txn.advance_commit (s.free j) s.db (s.txns j) with ⟨a, held, ws, hj⟩ | ⟨hd, htxn⟩
    · refine .inr ⟨j, a, held, ws, rfl, hj, ?_⟩
      simp only [System.turn, hj, Txn.advance]
    · refine .inl ⟨hd, fun i a h => ?_⟩
      by_cases hi : i = j
      · subst hi
        exact htxn a (by simpa [System.turn] using h)
      · simpa [System.turn, hi] using h

theorem System.turn_keeps_ended (s : System D κ ρ α ι) {t : Turn ι} {i : ι}
    (h : (s.txns i).ended = true) : (s.turn t).txns i = s.txns i := by
  cases t with
  | advance j =>
    by_cases hij : i = j
    · subst hij
      simp [System.turn, Txn.advance_of_ended _ _ h]
    · simp [System.turn, hij]
  | abort j =>
    by_cases hij : i = j
    · subst hij
      simp [System.turn, h]
    · unfold System.turn
      dsimp only
      split
      · rfl
      · simp [hij]

theorem interleave_not_started (d : D) (progs : ι → Prog D κ ρ α) {i : ι} {turns : List (Turn ι)}
    (h : .advance i ∉ turns) : (interleave d progs turns).txns i = .active (progs i) [] [] ∨
      (interleave d progs turns).txns i = .aborted := by
  induction turns using List.reverseRecOn with
  | nil => exact .inl rfl
  | append_singleton turns t ih =>
    simp only [List.mem_append, List.mem_singleton, not_or] at h
    rw [interleave_concat]
    rcases (interleave d progs turns).turn_txn t i with (same | aborted) | ⟨rfl, -⟩
    · rw [same]
      exact ih h.1
    · exact .inr aborted
    · exact absurd rfl h.2

theorem interleave_ended (d : D) (progs : ι → Prog D κ ρ α) {i : ι} {before : List (Turn ι)}
    (h : ((interleave d progs before).txns i).ended = true) (after : List (Turn ι)) :
    (interleave d progs (before ++ after)).txns i = (interleave d progs before).txns i := by
  induction after using List.reverseRecOn with
  | nil => rw [List.append_nil]
  | append_singleton after t ih =>
    have stays := (interleave d progs (before ++ after)).turn_keeps_ended (t := t) (i := i) (ih ▸ h)
    rw [← List.append_assoc, interleave_concat, stays, ih]

theorem interleave_committed {d : D} {progs : ι → Prog D κ ρ α} {i : ι} {a : α}
    {turns : List (Turn ι)} (h : (interleave d progs turns).txns i = .committed a) :
    ∃ before after held ws, turns = before ++ .advance i :: after ∧
      (interleave d progs before).txns i = .active (.ret a) held ws ∧
      (interleave d progs (before ++ [.advance i])).db = view ws (interleave d progs before).db := by
  induction turns using List.reverseRecOn with
  | nil => cases h
  | append_singleton turns t ih =>
    rw [interleave_concat] at h
    rcases (interleave d progs turns).turn_commit t with ⟨-, old⟩ | ⟨j, b, held, ws, rfl, hj, next⟩
    · obtain ⟨before, after, held, ws, rfl, hi, hdb⟩ := ih (old i a h)
      exact ⟨before, after ++ [t], held, ws, by simp, hi, hdb⟩
    · rw [next] at h
      by_cases hij : i = j
      · subst hij
        simp only [Function.update_self, Txn.committed.injEq] at h
        subst h
        exact ⟨turns, [], held, ws, rfl, hj, by rw [interleave_concat, next]⟩
      · obtain ⟨before, after, held, ws, rfl, hi, hdb⟩ := ih (by simpa [hij] using h)
        exact ⟨before, after ++ [.advance j], held, ws, by simp, hi, hdb⟩

end Turns

namespace Promise

variable {p : Promise D κ ρ} {Q : α → Assn D κ ρ} {i : ι}

def Expects (p : Promise D κ ρ) (Q : α → Assn D κ ρ) (s : System D κ ρ α ι) (i : ι) : Prop :=
  ∀ prog held ws, s.txns i = .active prog held ws → p.wp Q prog held ws s.db

variable [DecidableEq κ] [Fintype ι] [DecidableEq ι]

theorem Expects.turn {s : System D κ ρ α ι} (h : p.Expects Q s i) (stable : ∀ a, p.Stable (Q a))
    (sound : p.Sound s) (t : Turn ι) : p.Expects Q (s.turn t) i := by
  obtain ⟨j, d, t', hturn, step⟩ := s.turn_step t
  rw [hturn]
  intro prog held ws hi
  by_cases hij : i = j
  · subst hij
    simp only [Function.update_self] at hi
    subst hi
    unfold Expects at h
    generalize s.txns i = txn at step h
    cases step with
    | wait => exact h _ _ _ rfl
    | read | lock => exact h _ _ _ rfl s.db .refl sound.inv
    | tryLock => exact (h _ _ _ rfl s.db .refl sound.inv).2
    | skip => exact (h _ _ _ rfl s.db .refl sound.inv).1
    | found r v next held ws present => exact (h _ _ _ rfl s.db .refl sound.inv).1 present
    | write r v => exact h (.write r v prog) held _ rfl
    | insert r v next held ws absent => exact (h _ _ _ rfl s.db .refl sound.inv).2 absent
  · have hi' : s.txns i = .active prog held ws := by simpa [hij] using hi
    have safe := sound.safe j
    have compatible := sound.compatible i j hij
    rw [hi'] at compatible
    generalize s.txns j = txn at step safe compatible
    cases step with
    | commit a held' ws' =>
      refine wp_stable stable prog held ws _ _ (h prog held ws hi') ?_
      exact ⟨sound.inv, held', compatible, safe _ _ _ rfl s.db .refl sound.inv⟩
    | _ => exact h prog held ws hi'

theorem Sound.turn_keeps {s : System D κ ρ α ι} (sound : p.Sound s) (t : Turn ι) :
    (s.turn t).db = s.db ∨ ∃ held, p.Keeps held s.db (s.turn t).db := by
  rcases s.turn_commit t with ⟨same, -⟩ | ⟨i, a, held, ws, -, hi, next⟩
  · exact .inl same
  · rw [next]
    exact .inr ⟨held, sound.safe i _ held ws hi s.db .refl sound.inv⟩

section Interleavings

variable {d : D} {progs : ι → Prog D κ ρ α} (start : p.Inv d)
  (safe : ∀ i, p.wp (fun _ => p.Committable) (progs i) [] [] d)

include start safe

theorem interleave_sound (turns : List (Turn ι)) : p.Sound (interleave d progs turns) :=
  interleave_rule (sound_start start safe) (fun _ t h => h.turn t) turns

theorem interleave_expects (stable : ∀ a, p.Stable (Q a)) {before : List (Turn ι)}
    (idle : .advance i ∉ before) (h : p.wp Q (progs i) [] [] (interleave d progs before).db)
    (after : List (Turn ι)) : p.Expects Q (interleave d progs (before ++ after)) i := by
  induction after using List.reverseRecOn with
  | nil =>
    intro prog held ws hi
    rw [List.append_nil] at hi ⊢
    rcases interleave_not_started d progs idle with same | aborted
    · cases same.symm.trans hi
      exact h
    · cases aborted.symm.trans hi
  | append_singleton after t ih =>
    rw [← List.append_assoc, interleave_concat]
    exact ih.turn stable (interleave_sound start safe _) t

end Interleavings

/-! ## Rows that do not matter -/

/-- An assertion that others keep, and that locks and writes of quiet rows keep. -/
structure Frame (p : Promise D κ ρ) (quiet : κ → Prop) (A : Assn D κ ρ) : Prop where
  stable : p.Stable A
  lock : ∀ {held ws d} l, A held ws d → A (l :: held) ws d
  write : ∀ {held ws d} {r : κ} {v : Option (ρ r)}, A held ws d → Writable held r → quiet r →
    A held (ws ++ [⟨r, v⟩]) d

omit [DecidableEq κ] in
theorem Frame.writable {quiet : κ → Prop} {A : Assn D κ ρ} (hA : p.Frame quiet A) (r : κ) :
    p.Frame quiet fun held ws d => A held ws d ∧ Writable held r where
  stable _ _ _ _ h other := ⟨hA.stable _ _ _ _ h.1 other, h.2⟩
  lock l h := ⟨hA.lock l h.1, h.2.cons⟩
  write h hw hr := ⟨hA.write h.1 hw hr, h.2⟩

/-! ## One row -/

/-- What the transaction has done to a row: it has the row locked and `T` relates the committed
version to its own, or it has not touched it. -/
def RowChange (r : κ) (T : Option (ρ r) → Option (ρ r) → Prop) : Assn D κ ρ := fun held ws d =>
  r ∉ ws.map Sigma.fst ∧ (∀ v, T v v) ∨
    Writable held r ∧ T (Store.get d r) (Store.get (view ws d) r)

variable {r : κ} {T T' : Option (ρ r) → Option (ρ r) → Prop} {held : Held κ} {ws : Writes κ ρ} {d : D}

omit [DecidableEq κ] [Fintype ι] [DecidableEq ι]

theorem RowChange.row (h : RowChange r T held ws d) : T (Store.get d r) (Store.get (view ws d) r) := by
  rcases h with ⟨unwritten, same⟩ | ⟨-, h⟩
  · rw [get_view_of_not_mem d unwritten]
    exact same _
  · exact h

theorem RowChange.mono (h : RowChange r T held ws d) (weaker : ∀ old new, T old new → T' old new) :
    RowChange r T' held ws d :=
  h.imp (And.imp_right fun same v => weaker v v (same v)) (And.imp_right (weaker _ _))

theorem RowChange.writable (h : RowChange r T held ws d) {v : Option (ρ r)} (hv : ¬ T v v) :
    Writable held r :=
  (h.resolve_left fun unwritten => hv (unwritten.2 v)).1

theorem rowChange_stable : p.Stable (RowChange r T) := by
  intro held ws d d' h other
  refine h.imp_right fun ⟨hw, h⟩ => ⟨hw, ?_⟩
  have same := other.locked hw
  classical
  by_cases written : r ∈ ws.map Sigma.fst
  · rw [same, get_view_of_mem d' d written]
    exact h
  · rw [get_view_of_not_mem d written] at h
    rw [get_view_of_not_mem d' written, same]
    exact h

theorem RowChange.write {v : Option (ρ r)} (hw : Writable held r) (h : T (Store.get d r) v) :
    RowChange r T held (ws ++ [⟨r, v⟩]) d := by
  refine .inr ⟨hw, ?_⟩
  rw [get_view_concat]
  exact h

theorem RowChange.write_other {s : κ} {v : Option (ρ s)} (h : RowChange r T held ws d) (hs : s ≠ r) :
    RowChange r T held (ws ++ [⟨s, v⟩]) d := by
  refine h.imp (And.imp_left fun unwritten => ?_) (And.imp_right fun h => ?_)
  · simpa [Ne.symm hs] using unwritten
  · rwa [get_view_concat_of_ne _ _ _ (Ne.symm hs)]

theorem RowChange.lock (l : κ × LockMode) (h : RowChange r T held ws d) :
    RowChange r T (l :: held) ws d :=
  h.imp_right (And.imp_left Writable.cons)

theorem wp_untouched {prog : Prog D κ ρ α} (all : prog.All (fun _ => True) fun s _ => s ≠ r)
    (h : RowChange r T held ws d) : p.wp (fun _ => RowChange r T) prog held ws d := by
  induction prog generalizing held ws d with
  | ret => exact h
  | raise => trivial
  | read next ih => exact fun d' rely _ => ih _ (all _) (rowChange_stable.rely rely h)
  | lock s m next ih =>
    exact fun d' rely _ => ih _ (all.2 _) ((rowChange_stable.rely rely h).lock (s, m))
  | tryLock s m next ih =>
    intro d' rely _
    have h' := rowChange_stable.rely rely h
    exact ⟨ih _ (all.2 _) h', ih _ (all.2 _) (h'.lock (s, m))⟩
  | write s v next ih => exact ih all.2 (h.write_other all.1)
  | insert s v next ih =>
    intro d' rely _
    have h' := rowChange_stable.rely rely h
    exact ⟨fun _ => ih _ (all.2.2 _) h',
      fun _ => ih _ (all.2.2 _) ((h'.lock (s, .update)).write_other all.2.1)⟩

end Promise

end ReadCommitted
