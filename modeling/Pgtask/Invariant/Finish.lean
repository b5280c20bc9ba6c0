import Pgtask.Invariant.Progress

/-!
# The end of one task

A statement that finishes one task, and what its triggers need in order to fire:
a checkpoint that fits for whoever waits for the task and is not cancelled with
it.
-/

open Sql Checked

namespace Pgtask

variable {x : Uuid}

/-- The task is unfinished, and unfinished tasks lead from it to a child of `id`. -/
def Under (db : Database) (id : Uuid) : Uuid → Prop := Spread.Doomed (OwnedBy db) (Live db) (· = id)

/-- The step waits for the result of the task, and its own task outlives the other. -/
def Awaited (db : Database) (id : Uuid) (k : StepKey) : Prop :=
  ∃ w t, OpenResult db k w ∧ w.resultTaskId = id ∧ db.tasks.get? k.taskId = some t ∧ t.state = .waiting ∧
    ¬ Under db id k.taskId

def Session.finish (s : Session) (id : Uuid) (t new : Task) (f : Attempt → Attempt) : Session :=
  (s.write id t new).endAttempt (id, t.attempt) f

variable {e : Env} {s : Session} {id : Uuid} {t new : Task} {f : Attempt → Attempt}

theorem finish_queued (id : Uuid) (f : Attempt → Attempt) (idle : s.queued = []) (unfinished : t.state.outstanding = true)
    (finished : new.state.terminal = true) : (s.finish id t new f).queued =
      [.cancelOwnedChildren id new, .manageIdempotencyKey id t new, .resolveTaskResult id new] := by
  simp [Session.finish, Session.endAttempt, Session.write, idle, afterUpdate, unfinished, finished]

theorem finish_get?_of_ne (hx : x ≠ id) :
    (s.finish id t new f).db.tasks.get? x = s.db.tasks.get? x :=
  Table.get?_put_of_ne _ _ hx

theorem finish_get?_self : (s.finish id t new f).db.tasks.get? id = some new := Table.get?_put_self _ _ _

theorem finish_doomed {queue : List Trigger} (finished : new.state.terminal = true)
    (only : ∀ p, (∃ c, .cancelOwnedChildren p c ∈ queue) ↔ p = id) :
    Session.Doomed { s.finish id t new f with queued := queue } x ↔ x ≠ id ∧ Under s.db id x := by
  have hdead : new.state.outstanding = false := by rw [outstanding_eq_not, finished]; rfl
  have hother : ∀ y, Live (s.finish id t new f).db y → y ≠ id := by
    rintro y ⟨c, hc, hlive⟩ rfl
    rw [finish_get?_self] at hc
    cases hc
    rw [hdead] at hlive
    cases hlive
  have hlive : ∀ y, Live (s.finish id t new f).db y ↔ Live s.db y ∧ y ≠ id := by
    intro y
    by_cases hy : y = id
    · exact ⟨fun h => absurd hy (hother y h), fun h => absurd hy h.2⟩
    · unfold Live
      rw [finish_get?_of_ne hy]
      exact (and_iff_left hy).symm
  have hlink : ∀ y p, Live (s.finish id t new f).db y → (OwnedBy (s.finish id t new f).db y p ↔ OwnedBy s.db y p) := by
    intro y p alive
    unfold OwnedBy
    rw [finish_get?_of_ne (hother y alive)]
  refine Iff.trans ?_ (Spread.doomed_start rfl hlink hlive)
  exact Spread.doomed_congr (fun _ _ _ => Iff.rfl) (fun _ => Iff.rfl) only

theorem cancelling_first {rest : List Trigger} (hrest : ∀ p c, .cancelOwnedChildren p c ∉ rest) (p : Uuid) :
    (∃ c, .cancelOwnedChildren p c ∈ .cancelOwnedChildren id new :: rest) ↔ p = id := by
  constructor
  · rintro ⟨c, hc⟩
    rcases List.mem_cons.mp hc with heq | hc
    · cases heq
      rfl
    · exact absurd hc (hrest p c)
  · rintro rfl
    exact ⟨new, List.mem_cons_self⟩

theorem finish_doomed_iff (idle : s.queued = []) (unfinished : t.state.outstanding = true)
    (finished : new.state.terminal = true) : (s.finish id t new f).Doomed x ↔ x ≠ id ∧ Under s.db id x := by
  have hqueue := finish_queued id f idle unfinished finished
  have only : ∀ p, (∃ c, .cancelOwnedChildren p c ∈ (s.finish id t new f).queued) ↔ p = id := by
    rw [hqueue]
    exact cancelling_first (by simp)
  exact finish_doomed finished only

theorem finish_resolve {before after : List Trigger} {c : Task} (idle : s.queued = [])
    (unfinished : t.state.outstanding = true) (finished : new.state.terminal = true)
    (h : (s.finish id t new f).queued = before ++ .resolveTaskResult x c :: after) :
    before = [.cancelOwnedChildren id new, .manageIdempotencyKey id t new] ∧ x = id ∧ c = new := by
  rw [finish_queued id f idle unfinished finished] at h
  match before, h with
  | [_, _], h =>
    simp only [List.cons_append, List.nil_append, List.cons.injEq, Trigger.resolveTaskResult.injEq] at h
    exact ⟨by rw [← h.1, ← h.2.1], h.2.2.1.1.symm, h.2.2.1.2.symm⟩
  | [_, _, _], h => simp at h
  | _ :: _ :: _ :: _ :: _, h => simp at h

structure Session.Finishes (s : Session) (id : Uuid) (t new : Task) (f : Attempt → Attempt) : Prop where
  idle : s.queued = []
  row : s.db.tasks.get? id = some t
  unfinished : t.state.outstanding = true
  finished : new.state.terminal = true
  parent : new.parentTaskId = t.parentTaskId
  waits : WaitInv s
  checks : ChecksInv (s.finish id t new f).db

variable {k : StepKey}

theorem Session.Finishes.settled (h : s.Finishes id t new f) : (s.finish id t new f).Settled :=
  (settled_write (settled_of_empty h.idle) h.row h.unfinished).congr rfl rfl

theorem Session.Finishes.owed (h : s.Finishes id t new f) : Owed (s.finish id t new f) id :=
  owed_write h.unfinished h.finished

theorem Session.Finishes.waitInv (h : s.Finishes id t new f) : WaitInv (s.finish id t new f) := by
  refine h.waits.write ⟨rfl, rfl, rfl, rfl⟩ h.row rfl (fun _ => mem_write) (fun p hp => h.parent.trans hp) ?_ ?_ ?_
  · intro hw
    have hdone := h.finished
    rw [hw] at hdone
    cases hdone
  · exact fun _ => .inr ⟨h.finished, h.owed⟩
  · exact fun _ => .inr h.owed

theorem WaitInv.awaited_ne (inv : WaitInv s) (h : Awaited s.db id k) : k.taskId ≠ id := by
  obtain ⟨w, waiter, hopen, rfl, hwaiter, hwaiting, hout⟩ := h
  intro heq
  obtain ⟨c, hc, howner, -⟩ := (inv.results k w hopen).2.2 waiter hwaiter hwaiting
  rw [← heq] at hc
  cases hwaiter.symm.trans hc
  refine hout (.child ⟨waiter, hwaiter, howner⟩ ⟨waiter, hwaiter, ?_⟩ heq)
  rw [hwaiting]
  rfl

/-- The triggers fire if and only if the result fits into the checkpoint of each step that waits
for it. -/
theorem finish_returns_iff (h : s.Finishes id t new f) :
    (∃ s', fireTriggers e (s.finish id t new f) = .ok s') ↔
      ∀ k, Awaited s.db id k → Holds (checkpointChecks k new.checkpoint) := by
  constructor
  · rintro ⟨s', hs'⟩ k hk
    have hne := h.waits.awaited_ne hk
    obtain ⟨w, waiter, hopen, rfl, hwaiter, hwaiting, hout⟩ := hk
    obtain ⟨⟨ls, path⟩, -, hempty⟩ := drain_spec h.settled hs'
    have hqueue := finish_queued w.resultTaskId f h.idle h.unfinished h.finished
    have hqueued : .resolveTaskResult w.resultTaskId new ∈ (s.finish w.resultTaskId t new f).queued := by
      rw [hqueue]
      simp
    have hanswered : .deliverResult k ∈ ls := by
      by_contra hk
      obtain ⟨c, hc, hdone⟩ := Ripples.unanswered path h.waitInv h.settled hempty hopen hqueued hk
      have hkept : .cancel k.taskId ∉ ls := by
        rw [Ripples.cancelled_iff path hempty, finish_doomed_iff h.idle h.unfinished h.finished]
        exact fun hdoomed => hout hdoomed.2
      have hrow : (s.finish w.resultTaskId t new f).db.tasks.get? k.taskId = some waiter :=
        (finish_get?_of_ne hne).trans hwaiter
      rcases Ripples.row path hkept with hsame | ⟨-, hwoken⟩
      · cases hc.symm.trans (hsame.trans hrow)
        rw [hwaiting] at hdone
        cases hdone
      · rw [hrow] at hwoken
        cases hc.symm.trans hwoken
        unfold Task.woken at hdone
        rw [if_pos hwaiting] at hdone
        cases hdone
    obtain ⟨w', _, c, hopen', -, -, hresolve, -, fits, -⟩ := Ripples.answered path h.waitInv h.settled hanswered
    cases hopen.1.symm.trans hopen'.1
    rw [hqueue] at hresolve
    simp only [List.mem_cons, reduceCtorEq, false_or, Trigger.resolveTaskResult.injEq, true_and, List.not_mem_nil,
      or_false] at hresolve
    rwa [hresolve] at fits
  · intro fits
    refine fireTriggers_returns ⟨h.settled, h.waitInv, h.checks, ?_⟩
    intro before after k w waiter c hsplit hopen hwaiter hwaiting
    obtain ⟨rfl, hid, rfl⟩ := finish_resolve h.idle h.unfinished h.finished hsplit
    have hne : k.taskId ≠ id := by
      intro heq
      rw [heq, finish_get?_self] at hwaiter
      cases hwaiter
      have hdone := h.finished
      rw [hwaiting] at hdone
      cases hdone
    rw [finish_get?_of_ne hne] at hwaiter
    rw [finish_doomed h.finished (cancelling_first (by simp))]
    by_cases hunder : Under s.db id k.taskId
    · exact .inl ⟨hne, hunder⟩
    · exact .inr (fits k ⟨w, waiter, hopen, hid, hwaiter, hwaiting, hunder⟩)

/-! ## What the triggers leave -/

theorem Ripples.live {ls : List Label} {s' : Session} (path : Ripples e ls s s') :
    Live s'.db x ↔ Live s.db x ∧ .cancel x ∉ ls := by
  by_cases hx : .cancel x ∈ ls
  · obtain ⟨_, t1, _, _, -, -, -, -, hlast⟩ := Ripples.row_cancelled path hx
    refine ⟨?_, fun h => absurd hx h.2⟩
    rintro ⟨c, hc, hlive⟩
    cases hc.symm.trans hlast
    cases hlive
  · rw [and_iff_left hx]
    unfold Live
    rcases Ripples.row path hx with hsame | ⟨-, hwoken⟩
    · rw [hsame]
    · rw [hwoken]
      cases s.db.tasks.get? x with
      | none => simp
      | some t => simp [Task.woken_outstanding]

variable {s' : Session}

theorem Ripples.there {ls : List Label} (path : Ripples e ls s s') :
    (s'.db.tasks.get? x).isSome = (s.db.tasks.get? x).isSome := by
  by_cases hx : .cancel x ∈ ls
  · obtain ⟨_, _, _, _, hrow, -, -, -, hlast⟩ := Ripples.row_cancelled path hx
    rw [hrow, hlast]
    rfl
  · rcases Ripples.row path hx with hsame | ⟨-, hwoken⟩
    · rw [hsame]
    · rw [hwoken, Option.isSome_map]

theorem finish_live (h : s.Finishes id t new f) (fired : fireTriggers e (s.finish id t new f) = .ok s') :
    Live s'.db x ↔ Live s.db x ∧ x ≠ id ∧ ¬ Under s.db id x := by
  obtain ⟨⟨ls, path⟩, -, hempty⟩ := drain_spec h.settled fired
  rw [Ripples.live path, Ripples.cancelled_iff path hempty, finish_doomed_iff h.idle h.unfinished h.finished]
  by_cases hx : x = id
  · subst hx
    have hdead : ¬ Live (s.finish x t new f).db x := by
      rintro ⟨c, hc, hlive⟩
      rw [finish_get?_self] at hc
      cases hc
      rw [outstanding_eq_not, h.finished] at hlive
      cases hlive
    exact ⟨fun hl => absurd hl.1 hdead, fun hl => absurd rfl hl.2.1⟩
  · unfold Live
    rw [finish_get?_of_ne hx]
    simp [hx]

theorem finish_ownedBy {p : Uuid} (h : s.Finishes id t new f)
    (fired : fireTriggers e (s.finish id t new f) = .ok s') : OwnedBy s'.db x p ↔ OwnedBy s.db x p := by
  obtain ⟨⟨ls, path⟩, -, -⟩ := drain_spec h.settled fired
  rw [Ripples.ownedBy path]
  unfold OwnedBy
  by_cases hx : x = id
  · subst hx
    rw [finish_get?_self, h.row]
    simp [h.parent]
  · rw [finish_get?_of_ne hx]

theorem finish_there (h : s.Finishes id t new f) (fired : fireTriggers e (s.finish id t new f) = .ok s') :
    (s'.db.tasks.get? x).isSome = (s.db.tasks.get? x).isSome := by
  obtain ⟨⟨ls, path⟩, -, -⟩ := drain_spec h.settled fired
  rw [Ripples.there path]
  by_cases hx : x = id
  · subst hx
    rw [finish_get?_self, h.row]
    rfl
  · rw [finish_get?_of_ne hx]

/-! ## A parent that waits for its child -/

def pairRun (capacity : Option Int) : List Request :=
  [⟨0, .putQueue "default" ⟨604800, 2592000, capacity, 300⟩⟩,
   ⟨0, .enqueue { taskName := some "parent", payload := some .null }⟩,
   ⟨0, .claim "default" (Uuid.ofNat 100) ["parent"] [1] 1 60000⟩,
   ⟨0, .spawnTask ⟨Uuid.ofNat 1, 1, Uuid.ofNat 2⟩ "child" 0 { taskName := some "child", payload := some .null }⟩,
   ⟨0, .claim "default" (Uuid.ofNat 100) ["child"] [1] 1 60000⟩]

def waitingRun : List Request :=
  pairRun none ++ [⟨0, .waitForResult ⟨Uuid.ofNat 1, 1, Uuid.ofNat 2⟩ "result" 0 (Uuid.ofNat 3) (some 1000)⟩]

def childLease : Lease := ⟨Uuid.ofNat 3, 1, Uuid.ofNat 4⟩

theorem not_under_root {db : Database} (row : db.tasks.get? x = some t) (root : t.parentTaskId = none) :
    ¬ Under db id x := by
  intro h
  cases h with
  | child owner | under owner =>
    obtain ⟨c, hc, howner⟩ := owner
    cases row.symm.trans hc
    rw [root] at howner
    cases howner

theorem waitingRun_awaited :
    Awaited (run countingServer waitingRun).db (Uuid.ofNat 3) ⟨Uuid.ofNat 1, 1, "result", 0⟩ := by
  have hwait : ((run countingServer waitingRun).db.resultWaits.get? ⟨Uuid.ofNat 1, 1, "result", 0⟩).any
      (fun w => w.resultTaskId = Uuid.ofNat 3 && w.resolvedAt.isNone) = true := by decide +kernel
  have hrow : ((run countingServer waitingRun).db.tasks.get? (Uuid.ofNat 1)).any
      (fun t => t.state = .waiting && t.parentTaskId.isNone) = true := by decide +kernel
  obtain ⟨w, hw, hopen⟩ := (Option.any_eq_true _ _).mp hwait
  obtain ⟨t, ht, hwaiting⟩ := (Option.any_eq_true _ _).mp hrow
  simp only [Bool.and_eq_true, decide_eq_true_eq, Option.isNone_iff_eq_none] at hopen hwaiting
  exact ⟨w, t, ⟨hw, hopen.2⟩, hopen.1, ht, hwaiting.1, not_under_root ht hwaiting.2⟩

end Pgtask
