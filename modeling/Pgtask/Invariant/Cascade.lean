import Pgtask.Invariant.Waits
import Pgtask.Lib.Spread

/-!
# The cascade

What the triggers of a finished task do to the tasks below it. Which tasks are
cancelled is known before the first trigger fires.
-/

open Sql

namespace Pgtask

variable {db db' : Database} {p : Uuid} {t : Task} {w : ResultWait}

def OwnedBy (db : Database) (id parent : Uuid) : Prop :=
  ∃ t, db.tasks.get? id = some t ∧ t.parentTaskId = some parent

def Live (db : Database) (id : Uuid) : Prop :=
  ∃ t, db.tasks.get? id = some t ∧ t.state.outstanding = true

def Session.Cancelling (s : Session) (id : Uuid) : Prop :=
  ∃ new, .cancelOwnedChildren id new ∈ s.queued

/-- The task is unfinished, and unfinished tasks lead from it to one whose children are about to be
cancelled. -/
def Session.Doomed (s : Session) : Uuid → Prop :=
  Spread.Doomed (OwnedBy s.db) (Live s.db) s.Cancelling

variable {e : Env} {l : Label} {ls : List Label} {s s' : Session} {x : Uuid}

/-! ## Who is cancelled -/

def SameRows (db db' : Database) : Prop :=
  ∀ y, (db'.tasks.get? y).map (fun t => (t.parentTaskId, t.state.outstanding)) =
    (db.tasks.get? y).map fun t => (t.parentTaskId, t.state.outstanding)

theorem SameRows.exists_iff (rows : SameRows db db') (P : Option Uuid × Bool → Prop) (y : Uuid) :
    (∃ t, db.tasks.get? y = some t ∧ P (t.parentTaskId, t.state.outstanding)) ↔
      ∃ t, db'.tasks.get? y = some t ∧ P (t.parentTaskId, t.state.outstanding) := by
  have hmap : ∀ row : Option Task, (∃ t, row = some t ∧ P (t.parentTaskId, t.state.outstanding)) ↔
      ∃ c, row.map (fun t => (t.parentTaskId, t.state.outstanding)) = some c ∧ P c := by
    rintro (- | t) <;> simp
  rw [hmap, hmap, rows y]

theorem SameRows.ownedBy (rows : SameRows db db') : OwnedBy db x p ↔ OwnedBy db' x p :=
  rows.exists_iff (fun c => c.1 = some p) x

theorem SameRows.live (rows : SameRows db db') : Live db x ↔ Live db' x :=
  rows.exists_iff (fun c => c.2 = true) x

theorem SameRows.doomed {queued : Uuid → Prop} (rows : SameRows db db') :
    Spread.Doomed (OwnedBy db) (Live db) queued x ↔ Spread.Doomed (OwnedBy db') (Live db') queued x :=
  Spread.doomed_congr (fun _ _ _ => rows.ownedBy) (fun _ => rows.live) fun _ => Iff.rfl

theorem cancelling_reorder {queue : List Trigger} (perm : queue.Perm s.queued) (p : Uuid) :
    s.Cancelling p ↔ Session.Cancelling { s with queued := queue } p :=
  exists_congr fun _ => perm.symm.mem_iff

theorem Ripple.doomed (h : Ripple e l s s') : s.Doomed x ↔ l = .cancel x ∨ s'.Doomed x := by
  cases h with
  | @cancel _ id parent t new queued row owned unfinished checked =>
    have hid : s.Doomed id := .child ⟨t, row, owned⟩ ⟨t, row, unfinished⟩ ⟨new, queued⟩
    set done := t.cancelledAt e.now (parentFinished parent new.state) with hdone
    have hother : ∀ y, y ≠ id → (s.db.tasks.put id done).get? y = s.db.tasks.get? y :=
      fun y hy => Table.get?_put_of_ne _ _ hy
    have hdead : ¬ done.state.outstanding = true := by
      rw [hdone]
      exact Bool.false_ne_true
    have hself : ∀ c, (s.db.tasks.put id done).get? id = some c → c = done := by
      intro c hc
      rw [Table.get?_put_self] at hc
      exact (Option.some.inj hc).symm
    have hafter : afterUpdate id t done =
        [.cancelOwnedChildren id done, .manageIdempotencyKey id t done, .resolveTaskResult id done] := by
      unfold afterUpdate
      rw [unfinished, hdone]
      rfl
    rw [show (Label.cancel id = Label.cancel x) ↔ x = id from ⟨fun h => by cases h; rfl, fun h => by rw [h]⟩]
    refine Spread.doomed_finish hid ?_ ?_ ?_
    · rintro y p ⟨c, hc, hlive⟩
      have hy : y ≠ id := by
        rintro rfl
        rw [hself c hc] at hlive
        exact hdead hlive
      unfold OwnedBy
      rw [← hother y hy]
      rfl
    · intro y
      constructor
      · rintro ⟨c, hc, hlive⟩
        have hy : y ≠ id := by
          rintro rfl
          rw [hself c hc] at hlive
          exact hdead hlive
        exact ⟨⟨c, (hother y hy).symm.trans hc, hlive⟩, hy⟩
      · rintro ⟨⟨c, hc, hlive⟩, hy⟩
        exact ⟨c, (hother y hy).trans hc, hlive⟩
    · intro p
      unfold Session.Cancelling
      simp only [Session.endAttempt, Session.write, hafter, List.mem_append, exists_or]
      refine or_congr_right ?_
      simp
  | @answer _ k w t new queued row isOpen waiter =>
    simp only [reduceCtorEq, false_or]
    refine SameRows.doomed fun y => ?_
    simp only [Session.deliver, Table.get?_adjust]
    split
    · rename_i hy
      rw [hy, waiter]
      simp only [Option.map_some, Option.some.injEq, Prod.mk.injEq]
      unfold Task.woken
      split
      · rename_i hw
        exact ⟨rfl, by rw [hw]; rfl⟩
      · exact ⟨rfl, rfl⟩
    · rfl
  | @fireCancel _ id new rest queue row finished childless =>
    simp only [reduceCtorEq, false_or]
    refine Spread.doomed_drop ?_ ?_
    · rintro p ⟨c, hc⟩
      exact ⟨c, by rw [queue]; exact List.mem_cons_of_mem _ hc⟩
    · rintro y p ⟨c, hc⟩ hn ⟨u, hu, howner⟩ ⟨u', hu', hlive⟩
      cases hu.symm.trans hu'
      rw [queue] at hc
      rcases List.mem_cons.mp hc with heq | hc
      · cases heq
        rw [outstanding_eq_not, childless y u hu howner] at hlive
        cases hlive
      · exact hn ⟨c, hc⟩
  | @fireManage _ id old new rest queue =>
    simp only [reduceCtorEq, false_or]
    obtain ⟨keys, hdb⟩ := manage_tables e id old new s.db
    refine Spread.doomed_congr (fun y p _ => ?_) (fun y => ?_) fun p => ?_
    · unfold OwnedBy
      rw [hdb]
    · unfold Live
      rw [hdb]
    · unfold Session.Cancelling
      simp [queue]
  | @fireResolve _ id new rest queue =>
    simp only [reduceCtorEq, false_or]
    refine Spread.doomed_congr (fun y p _ => Iff.rfl) (fun y => Iff.rfl) fun p => ?_
    unfold Session.Cancelling
    simp [queue]
  | reorder perm =>
    simp only [reduceCtorEq, false_or]
    exact Spread.doomed_congr (fun _ _ _ => Iff.rfl) (fun _ => Iff.rfl) (cancelling_reorder perm)

theorem Ripples.doomed (h : Ripples e ls s s') : s.Doomed x ↔ .cancel x ∈ ls ∨ s'.Doomed x := by
  induction h with
  | nil => simp
  | cons head _ ih => rw [head.doomed, ih, List.mem_cons, or_assoc, eq_comm]

/-- Once the triggers have fired, exactly the doomed tasks have been cancelled. -/
theorem Ripples.cancelled_iff (h : Ripples e ls s s') (empty : s'.queued = []) :
    .cancel x ∈ ls ↔ s.Doomed x := by
  have hnone : ¬ s'.Doomed x := Spread.not_doomed fun p ⟨new, hnew⟩ => by
    rw [empty] at hnew
    cases hnew
  rw [h.doomed]
  simp [hnone]

/-! ## What becomes of a row -/

theorem woken_terminal {now : Timestamp} (h : t.state.terminal = true) : t.woken now = t := by
  unfold Task.woken
  rw [if_neg]
  intro hw
  rw [hw] at h
  cases h

theorem woken_woken (now : Timestamp) (t : Task) : (t.woken now).woken now = t.woken now :=
  if_neg (woken_not_waiting now t)

theorem Ripple.row (h : Ripple e l s s') (hx : l ≠ .cancel x) :
    s'.db.tasks.get? x = s.db.tasks.get? x ∨ (∃ k, l = .deliverResult k ∧ k.taskId = x) ∧
      s'.db.tasks.get? x = (s.db.tasks.get? x).map (Task.woken e.now) := by
  cases h with
  | @cancel _ id =>
    left
    exact Table.get?_put_of_ne _ _ fun hid => hx (by rw [hid])
  | @answer _ k =>
    simp only [Session.deliver, Table.get?_adjust]
    split
    · rename_i hk
      exact .inr ⟨⟨k, rfl, hk.symm⟩, by rw [hk]⟩
    · exact .inl rfl
  | @fireManage _ id old new =>
    obtain ⟨keys, hdb⟩ := manage_tables e id old new s.db
    left
    rw [hdb]
  | _ => exact .inl rfl

theorem Ripples.row (h : Ripples e ls s s') (hx : .cancel x ∉ ls) :
    s'.db.tasks.get? x = s.db.tasks.get? x ∨ (∃ k, .deliverResult k ∈ ls ∧ k.taskId = x) ∧
      s'.db.tasks.get? x = (s.db.tasks.get? x).map (Task.woken e.now) := by
  induction h with
  | nil => exact .inl rfl
  | @cons l ls s s1 s' head _ ih =>
    rw [List.mem_cons, not_or] at hx
    rcases head.row (Ne.symm hx.1) with h1 | ⟨⟨k, rfl, hk⟩, h1⟩
    · rcases ih hx.2 with h2 | ⟨⟨k, hk, hid⟩, h2⟩
      · exact .inl (h2.trans h1)
      · exact .inr ⟨⟨k, List.mem_cons_of_mem _ hk, hid⟩, h2.trans (by rw [h1])⟩
    · refine .inr ⟨⟨k, List.mem_cons_self, hk⟩, ?_⟩
      rcases ih hx.2 with h2 | ⟨-, h2⟩
      · exact h2.trans h1
      · rw [h2, h1, Option.map_map]
        congr 1
        exact funext fun t => woken_woken e.now t

theorem Ripple.cancel_row (h : Ripple e (.cancel x) s s') :
    ∃ t parent state, s.db.tasks.get? x = some t ∧ t.state.outstanding = true ∧
      t.parentTaskId = some parent ∧
      s'.db.tasks.get? x = some (t.cancelledAt e.now (parentFinished parent state)) := by
  cases h with
  | @cancel _ _ parent t new _ row owned unfinished =>
    exact ⟨t, parent, new.state, row, unfinished, owned, Table.get?_put_self _ _ _⟩

theorem Ripple.keeps (h : Ripple e l s s') : Keeps s s' := by
  intro x t ht hf
  have hx : l ≠ .cancel x := by
    rintro rfl
    obtain ⟨t', -, -, ht', hlive, -⟩ := h.cancel_row
    cases ht.symm.trans ht'
    rw [outstanding_eq_not, hf] at hlive
    cases hlive
  rcases h.row hx with h | ⟨-, h⟩
  · exact h.trans ht
  · rw [h, ht, Option.map_some, woken_terminal hf]

theorem Ripples.keeps (h : Ripples e ls s s') : Keeps s s' := by
  induction h with
  | nil => exact Keeps.refl _
  | cons head _ ih => exact head.keeps.trans ih

theorem Ripples.row_cancelled (h : Ripples e ls s s') (hx : .cancel x ∈ ls) :
    ∃ t t1 parent state, s.db.tasks.get? x = some t ∧ (t1 = t ∨ t1 = t.woken e.now) ∧
      t.state.outstanding = true ∧ t.parentTaskId = some parent ∧
      s'.db.tasks.get? x = some (t1.cancelledAt e.now (parentFinished parent state)) := by
  induction h with
  | nil => cases hx
  | @cons l ls s s1 s' head tail ih =>
    by_cases hl : l = .cancel x
    · subst hl
      obtain ⟨t, parent, state, ht, hlive, howner, ht1⟩ := head.cancel_row
      exact ⟨t, t, parent, state, ht, .inl rfl, hlive, howner, Ripples.keeps tail x _ ht1 rfl⟩
    · obtain ⟨t, t1, parent, state, ht, ht1, hlive, howner, hlast⟩ :=
        ih ((List.mem_cons.mp hx).resolve_left (Ne.symm hl))
      rcases head.row hl with h1 | ⟨-, h1⟩
      · exact ⟨t, t1, parent, state, h1.symm.trans ht, ht1, hlive, howner, hlast⟩
      · rw [ht] at h1
        obtain ⟨t0, ht0, rfl⟩ := Option.map_eq_some_iff.mp h1.symm
        refine ⟨t0, t1, parent, state, ht0, .inr ?_, ?_, ?_, hlast⟩
        · rcases ht1 with rfl | rfl
          · rfl
          · exact woken_woken _ _
        · unfold Task.woken at hlive
          split at hlive
          · rename_i hw
            rw [hw]
            rfl
          · exact hlive
        · unfold Task.woken at howner
          split at howner <;> exact howner

/-! ## Attempts and queues -/

def AttemptState.halted (a : AttemptState) : AttemptState := if a = .running then .cancelled else a

theorem Ripple.attempts (h : Ripple e l s s') (n : Nat) (hx : l ≠ .cancel x) :
    s'.db.attempts.get? (x, n) = s.db.attempts.get? (x, n) := by
  cases h with
  | @cancel _ id _ t =>
    have hne : (x, n) ≠ (id, t.attempt) := fun h => hx (by rw [(Prod.mk.inj h).1])
    simp only [Session.endAttempt, Session.write, Table.get?_adjust, if_neg hne]
  | @fireManage _ id old new =>
    obtain ⟨keys, hdb⟩ := manage_tables e id old new s.db
    rw [hdb]
  | _ => rfl

theorem Ripple.cancel_attempts (h : Ripple e (.cancel x) s s')
    (row : s.db.tasks.get? x = some t) (n : Nat) :
    (s'.db.attempts.get? (x, n)).map Attempt.state = (s.db.attempts.get? (x, n)).map fun a =>
      if n = t.attempt then a.state.halted else a.state := by
  cases h with
  | @cancel _ _ _ t' _ _ row' =>
    cases row.symm.trans row'
    simp only [Session.endAttempt, Session.write, Table.get?_adjust, Prod.mk.injEq, true_and]
    split
    · rename_i hn
      rw [hn, Option.map_map]
      congr 1
      funext a
      unfold AttemptState.halted
      simp only [Function.comp_apply]
      split <;> rfl
    · rfl

theorem Ripples.attempts (h : Ripples e ls s s') (n : Nat) (hx : .cancel x ∉ ls) :
    s'.db.attempts.get? (x, n) = s.db.attempts.get? (x, n) := by
  induction h with
  | nil => rfl
  | cons head _ ih =>
    rw [List.mem_cons, not_or] at hx
    exact (ih hx.2).trans (head.attempts n (Ne.symm hx.1))

theorem Ripples.attempts_cancelled (h : Ripples e ls s s') (hx : .cancel x ∈ ls)
    (row : s.db.tasks.get? x = some t) (n : Nat) :
    (s'.db.attempts.get? (x, n)).map Attempt.state = (s.db.attempts.get? (x, n)).map fun a =>
      if n = t.attempt then a.state.halted else a.state := by
  induction h generalizing t with
  | nil => cases hx
  | @cons l ls s s1 s' head tail ih =>
    by_cases hl : l = .cancel x
    · subst hl
      have hagain : .cancel x ∉ ls := by
        intro hx
        obtain ⟨t1, _, _, _, ht1, -, hlive, -⟩ := Ripples.row_cancelled tail hx
        obtain ⟨t0, _, _, -, -, -, hdone⟩ := head.cancel_row
        cases hdone.symm.trans ht1
        cases hlive
      rw [Ripples.attempts tail n hagain]
      exact head.cancel_attempts row n
    · rw [← head.attempts n hl]
      have hx := (List.mem_cons.mp hx).resolve_left (Ne.symm hl)
      rcases head.row hl with h1 | ⟨-, h1⟩
      · exact ih hx (h1.trans row)
      · rw [row] at h1
        have := ih hx h1
        rwa [show (t.woken e.now).attempt = t.attempt by unfold Task.woken; split <;> rfl] at this

/-! ## Waits -/

variable {k : StepKey}

def ResultWait.cancelledAt (now : Timestamp) (w : ResultWait) : ResultWait :=
  { w with resolvedAt := some now, outcome := some .cancelled }

def Wait.cancelledAt (now : Timestamp) (w : Wait) : Wait :=
  { w with resolvedAt := some now, outcome := some .cancelled }

def ResultWait.answered (now : Timestamp) (child : Task) (w : ResultWait) : ResultWait :=
  { w with resolvedAt := some now, outcome := some child.state.waitOutcome }

def Task.checkpoint (t : Task) : Json := resultCheckpoint t.state.text t.result t.error

theorem Ripple.checkpoints (h : Ripple e l s s') (hk : l ≠ .deliverResult k) :
    s'.db.checkpoints.get? k = s.db.checkpoints.get? k := by
  cases h with
  | @answer _ j =>
    have hne : k ≠ j := fun h => hk (by rw [h])
    simp only [Session.deliver, Table.get?_putNew, if_neg hne]
  | @fireManage _ id old new =>
    obtain ⟨keys, hdb⟩ := manage_tables e id old new s.db
    rw [hdb]
  | _ => rfl

theorem Ripples.checkpoints (h : Ripples e ls s s') (hk : .deliverResult k ∉ ls) :
    s'.db.checkpoints.get? k = s.db.checkpoints.get? k := by
  induction h with
  | nil => rfl
  | cons head _ ih =>
    rw [List.mem_cons, not_or] at hk
    exact (ih hk.2).trans (head.checkpoints (Ne.symm hk.1))

theorem Ripple.resultWaits (h : Ripple e l s s') (hk : l ≠ .deliverResult k) :
    s'.db.resultWaits.get? k = s.db.resultWaits.get? k ∨ ∃ w t, OpenResult s.db k w ∧
      s.db.tasks.get? k.taskId = some t ∧ t.state.terminal = true ∧
      s'.db.resultWaits.get? k = some (w.cancelledAt e.now) := by
  cases h with
  | @answer _ j =>
    have hne : k ≠ j := fun h => hk (by rw [h])
    left
    exact Table.get?_put_of_ne _ _ hne
  | @fireManage _ id old new =>
    obtain ⟨keys, hdb⟩ := manage_tables e id old new s.db
    left
    rw [hdb]
  | @fireResolve _ id new rest queue row finished =>
    simp only [cancelOwnWaits, Table.get?_update]
    cases hw : s.db.resultWaits.get? k with
    | none => exact .inl rfl
    | some w =>
      rw [Option.map_some]
      split
      · rename_i hclosed
        exact .inr ⟨w, new, ⟨hw, hclosed.2⟩, by rw [hclosed.1, row], finished, rfl⟩
      · exact .inl rfl
  | _ => exact .inl rfl

theorem Ripple.waits (h : Ripple e l s s') :
    s'.db.waits.get? k = s.db.waits.get? k ∨ ∃ w t, OpenWait s.db k w ∧
      s.db.tasks.get? k.taskId = some t ∧ t.state.terminal = true ∧
      s'.db.waits.get? k = some (w.cancelledAt e.now) := by
  cases h with
  | @fireManage _ id old new =>
    obtain ⟨keys, hdb⟩ := manage_tables e id old new s.db
    left
    rw [hdb]
  | @fireResolve _ id new rest queue row finished =>
    simp only [cancelOwnWaits, Table.get?_update]
    cases hw : s.db.waits.get? k with
    | none => exact .inl rfl
    | some w =>
      rw [Option.map_some]
      split
      · rename_i hclosed
        exact .inr ⟨w, new, ⟨hw, hclosed.2⟩, by rw [hclosed.1, row], finished, rfl⟩
      · exact .inl rfl
  | _ => exact .inl rfl

theorem Ripples.resultWaits (h : Ripples e ls s s') (hk : .deliverResult k ∉ ls) :
    s'.db.resultWaits.get? k = s.db.resultWaits.get? k ∨ ∃ w t, OpenResult s.db k w ∧
      s'.db.tasks.get? k.taskId = some t ∧ t.state.terminal = true ∧
      s'.db.resultWaits.get? k = some (w.cancelledAt e.now) := by
  induction h with
  | nil => exact .inl rfl
  | @cons l ls s s1 s' head tail ih =>
    rw [List.mem_cons, not_or] at hk
    rcases head.resultWaits (Ne.symm hk.1) with h1 | ⟨w, t, hopen, ht, hf, h1⟩
    · rcases ih hk.2 with h2 | ⟨w, t, hopen, ht, hf, h2⟩
      · exact .inl (h2.trans h1)
      · exact .inr ⟨w, t, ⟨h1.symm.trans hopen.1, hopen.2⟩, ht, hf, h2⟩
    · refine .inr ⟨w, t, hopen, Ripples.keeps tail _ _ (head.keeps _ _ ht hf) hf, hf, ?_⟩
      rcases ih hk.2 with h2 | ⟨w', t', hopen', -⟩
      · exact h2.trans h1
      · cases h1.symm.trans hopen'.1
        cases hopen'.2

theorem Ripples.waits (h : Ripples e ls s s') :
    s'.db.waits.get? k = s.db.waits.get? k ∨ ∃ w t, OpenWait s.db k w ∧
      s'.db.tasks.get? k.taskId = some t ∧ t.state.terminal = true ∧
      s'.db.waits.get? k = some (w.cancelledAt e.now) := by
  induction h with
  | nil => exact .inl rfl
  | @cons l ls s s1 s' head tail ih =>
    rcases head.waits (k := k) with h1 | ⟨w, t, hopen, ht, hf, h1⟩
    · rcases ih with h2 | ⟨w, t, hopen, ht, hf, h2⟩
      · exact .inl (h2.trans h1)
      · exact .inr ⟨w, t, ⟨h1.symm.trans hopen.1, hopen.2⟩, ht, hf, h2⟩
    · refine .inr ⟨w, t, hopen, Ripples.keeps tail _ _ (head.keeps _ _ ht hf) hf, hf, ?_⟩
      rcases ih with h2 | ⟨w', t', hopen', -⟩
      · exact h2.trans h1
      · cases h1.symm.trans hopen'.1
        cases hopen'.2

theorem Ripples.closed (h : Ripples e ls s s') (hk : ∀ w, ¬ OpenResult s.db k w) :
    .deliverResult k ∉ ls ∧ s'.db.resultWaits.get? k = s.db.resultWaits.get? k := by
  induction h with
  | nil => exact ⟨List.not_mem_nil, rfl⟩
  | @cons l ls s s1 s' head tail ih =>
    have hl : l ≠ .deliverResult k := by
      rintro rfl
      cases head with
      | answer _ row isOpen => exact hk _ ⟨row, isOpen⟩
    have hsame : s1.db.resultWaits.get? k = s.db.resultWaits.get? k := by
      rcases head.resultWaits hl with h1 | ⟨w, t, hopen, -⟩
      · exact h1
      · exact absurd hopen (hk w)
    obtain ⟨hnot, hlast⟩ := ih fun w hw => hk w ⟨hsame.symm.trans hw.1, hw.2⟩
    exact ⟨by rw [List.mem_cons, not_or]; exact ⟨Ne.symm hl, hnot⟩, hlast.trans hsame⟩

/-! ## Who is answered -/

theorem Ripple.waitInv (h : Ripple e l s s') (inv : WaitInv s) : WaitInv s' :=
  effect_keeps_waits h.effect inv

theorem Ripples.waitInv (h : Ripples e ls s s') (inv : WaitInv s) : WaitInv s' := by
  induction h with
  | nil => exact inv
  | cons head _ ih => exact ih (head.waitInv inv)

theorem Ripple.settled (h : Ripple e l s s') (hs : s.Settled) : s'.Settled := by
  have hold : ∀ u ∈ s.queued, u.Settled s'.db := fun u hu => (hs u hu).keeps h.keeps
  cases h with
  | cancel _ row _ unfinished => exact settled_write hs row unfinished
  | answer => exact hold
  | fireCancel queue => exact fun u hu => hold u (by rw [queue]; exact List.mem_cons_of_mem _ hu)
  | fireManage queue => exact fun u hu => hold u (by rw [queue]; exact List.mem_cons_of_mem _ hu)
  | fireResolve queue => exact fun u hu => hold u (by rw [queue]; exact List.mem_cons_of_mem _ hu)
  | reorder perm => exact fun u hu => hold u (perm.mem_iff.mp hu)

theorem Ripple.ownedBy (h : Ripple e l s s') : OwnedBy s'.db x p ↔ OwnedBy s.db x p := by
  unfold OwnedBy
  by_cases hl : l = .cancel x
  · subst hl
    obtain ⟨t, parent, state, ht, -, -, hlast⟩ := h.cancel_row
    rw [ht, hlast]
    simp [Task.cancelledAt]
  · rcases h.row hl with h1 | ⟨-, h1⟩
    · rw [h1]
    · rw [h1]
      cases s.db.tasks.get? x with
      | none => simp
      | some t =>
        simp only [Option.map_some, Option.some.injEq, exists_eq_left']
        unfold Task.woken
        split <;> rfl

theorem Ripples.ownedBy (h : Ripples e ls s s') : OwnedBy s'.db x p ↔ OwnedBy s.db x p := by
  induction h with
  | nil => exact Iff.rfl
  | cons head _ ih => exact ih.trans head.ownedBy

theorem Ripple.waiting (h : Ripple e l s s') (row : s'.db.tasks.get? x = some t)
    (waiting : t.state = .waiting) : s.db.tasks.get? x = some t := by
  have hl : l ≠ .cancel x := by
    rintro rfl
    obtain ⟨t0, _, _, -, -, -, hlast⟩ := h.cancel_row
    cases row.symm.trans hlast
    cases waiting
  rcases h.row hl with h1 | ⟨-, h1⟩
  · exact h1.symm.trans row
  · rw [row] at h1
    obtain ⟨t0, -, rfl⟩ := Option.map_eq_some_iff.mp h1.symm
    exact absurd waiting (woken_not_waiting _ _)

theorem Ripple.queued {u : Trigger} (h : Ripple e l s s') (settled : s.Settled) (hu : u ∈ s'.queued) :
    u ∈ s.queued ∨ ∃ parent p, OwnedBy s.db u.task parent ∧ s.db.tasks.get? parent = some p ∧
      p.state.terminal = true := by
  cases h with
  | @cancel _ id parent t new queued row owned =>
    rcases List.mem_append.mp hu with hu | hu
    · exact .inl hu
    · have htask : u.task = id := by
        unfold afterUpdate at hu
        split at hu
        · simp only [List.mem_cons, List.not_mem_nil, or_false] at hu
          rcases hu with rfl | rfl | rfl <;> rfl
        · split at hu
          · rw [List.mem_singleton.mp hu]
            rfl
          · cases hu
      rw [htask]
      obtain ⟨hrow, hdone, -⟩ := settled _ queued
      exact .inr ⟨parent, new, ⟨t, row, owned⟩, hrow, hdone⟩
  | answer => exact .inl hu
  | fireCancel queue | fireManage queue | fireResolve queue =>
    exact .inl (by rw [queue]; exact List.mem_cons_of_mem _ hu)
  | reorder perm => exact .inl (perm.mem_iff.mp hu)

theorem Ripples.queued {u : Trigger} (h : Ripples e ls s s') (settled : s.Settled) (hu : u ∈ s'.queued) :
    u ∈ s.queued ∨ ∃ parent p, OwnedBy s'.db u.task parent ∧ s'.db.tasks.get? parent = some p ∧
      p.state.terminal = true := by
  induction h with
  | nil => exact .inl hu
  | @cons l ls s s1 s' head tail ih =>
    rcases ih (head.settled settled) hu with hq | hdone
    · rcases head.queued settled hq with hq | ⟨parent, p, howner, hp, hdone⟩
      · exact .inl hq
      · exact .inr ⟨parent, p, (Ripples.ownedBy (.cons head tail)).mpr howner,
          Ripples.keeps tail _ _ (head.keeps _ _ hp hdone) hdone, hdone⟩
    · exact .inr hdone

theorem Ripple.openResult (h : Ripple e l s s') (hopen : OpenResult s'.db k w) :
    OpenResult s.db k w := by
  have hl : l ≠ .deliverResult k := by
    rintro rfl
    cases h with
    | answer =>
      cases hopen.1.symm.trans (Table.get?_put_self _ _ _)
      cases hopen.2
  rcases h.resultWaits hl with hsame | ⟨w', _, -, -, -, hclosed⟩
  · exact ⟨hsame.symm.trans hopen.1, hopen.2⟩
  · cases hclosed.symm.trans hopen.1
    cases hopen.2

theorem WaitInv.orphan {p : Task} {parent : Uuid} (inv : WaitInv s)
    (hopen : OpenResult s.db k w) (row : s.db.tasks.get? k.taskId = some t)
    (waiting : t.state = .waiting) (owner : OwnedBy s.db w.resultTaskId parent)
    (hp : s.db.tasks.get? parent = some p) (finished : p.state.terminal = true) : False := by
  obtain ⟨c, hc, howner, -⟩ := (inv.results k w hopen).2.2 t row waiting
  obtain ⟨c', hc', howner'⟩ := owner
  cases hc.symm.trans hc'
  cases howner.symm.trans howner'
  cases row.symm.trans hp
  rw [waiting] at finished
  cases finished

theorem Ripples.answered (h : Ripples e ls s s') (inv : WaitInv s) (settled : s.Settled)
    (hk : .deliverResult k ∈ ls) :
    ∃ w t new, OpenResult s.db k w ∧ s.db.tasks.get? k.taskId = some t ∧ t.state = .waiting ∧
      .resolveTaskResult w.resultTaskId new ∈ s.queued ∧ OwnedBy s.db w.resultTaskId k.taskId ∧
      Holds (checkpointChecks k new.checkpoint) ∧ s'.db.checkpoints.get? k = some new.checkpoint ∧
      s'.db.resultWaits.get? k = some (w.answered e.now new) := by
  induction h with
  | nil => cases hk
  | @cons l ls s s1 s' head tail ih =>
    by_cases hl : l = .deliverResult k
    · subst hl
      cases head with
      | @answer _ _ w t new queued row isOpen waiter unfinished child finished fits =>
        obtain ⟨hparked, hfree, hwatch⟩ := inv.results k w ⟨row, isOpen⟩
        obtain ⟨t', ht', hstate⟩ := hparked
        cases waiter.symm.trans ht'
        have hwaiting : t.state = .waiting := by
          rcases hstate with hw | ⟨hterm, -⟩
          · exact hw
          · rw [outstanding_eq_not, hterm] at unfinished
            cases unfinished
        obtain ⟨c, hc, howner, -⟩ := hwatch t waiter hwaiting
        obtain ⟨hnot, hlast⟩ := Ripples.closed (k := k) tail (by
          rintro w' ⟨hw', hopen⟩
          cases hw'.symm.trans (Table.get?_put_self _ _ _)
          cases hopen)
        refine ⟨w, t, new, ⟨row, isOpen⟩, waiter, hwaiting, queued, ⟨c, hc, howner⟩, fits, ?_, ?_⟩
        · rw [Ripples.checkpoints tail hnot]
          simp only [Session.deliver, Table.get?_putNew, if_pos, hfree, Option.getD_none]
          rfl
        · rw [hlast]
          exact Table.get?_put_self _ _ _
    · obtain ⟨w, t, new, hopen, ht, hwaiting, queued, howner, hrest⟩ := ih (head.waitInv inv)
        (head.settled settled) ((List.mem_cons.mp hk).resolve_left (Ne.symm hl))
      have hopen0 := head.openResult hopen
      have ht0 := head.waiting ht hwaiting
      refine ⟨w, t, new, hopen0, ht0, hwaiting, ?_, head.ownedBy.mp howner, hrest⟩
      rcases head.queued settled queued with hq | ⟨parent, p, hparent, hp, hdone⟩
      · exact hq
      · exact (inv.orphan hopen0 ht0 hwaiting hparent hp hdone).elim

theorem Ripples.unanswered {new : Task} (h : Ripples e ls s s') (inv : WaitInv s)
    (settled : s.Settled) (empty : s'.queued = []) (hopen : OpenResult s.db k w)
    (queued : .resolveTaskResult w.resultTaskId new ∈ s.queued) (hk : .deliverResult k ∉ ls) :
    ∃ t, s'.db.tasks.get? k.taskId = some t ∧ t.state.terminal = true := by
  rcases h.resultWaits hk with hsame | ⟨_, t, -, ht, hf, -⟩
  · have inv' := h.waitInv inv
    have idle : ∀ id, ¬ Owed s' id := by
      rintro id ⟨new, hnew⟩
      rw [empty] at hnew
      cases hnew
    obtain ⟨⟨t, ht, hstate⟩, -, hwatch⟩ := inv'.results k w ⟨hsame.trans hopen.1, hopen.2⟩
    rcases hstate with hwaiting | ⟨-, howed⟩
    · obtain ⟨c, hc, -, hlive | howed⟩ := hwatch t ht hwaiting
      · obtain ⟨hrow, hdone, -⟩ := settled _ queued
        rw [Option.some.inj (hc.symm.trans (h.keeps _ _ hrow hdone)), outstanding_eq_not, hdone] at hlive
        cases hlive
      · exact absurd howed (idle _)
    · exact absurd howed (idle _)
  · exact ⟨t, ht, hf⟩

theorem Ripples.waiting (h : Ripples e ls s s') (row : s'.db.tasks.get? x = some t)
    (waiting : t.state = .waiting) : s.db.tasks.get? x = some t := by
  induction h with
  | nil => exact row
  | cons head _ ih => exact head.waiting (ih row) waiting

theorem Ripples.openResult (h : Ripples e ls s s') (hopen : OpenResult s'.db k w) :
    OpenResult s.db k w := by
  induction h with
  | nil => exact hopen
  | cons head _ ih => exact head.openResult (ih hopen)

end Pgtask
