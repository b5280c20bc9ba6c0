import Pgtask.Invariant.Finish

/-!
# What a call leaves of the tasks

A call that finishes tasks is a statement and then the triggers of that statement.
Each task stays as it is, is woken by the end of a child, or is cancelled, except
those whose attempt the statement itself has ended.
-/

open Sql Checked List

namespace Pgtask

variable {e : Env} {l : Label} {s s₁ s₂ s' : Session} {db db₁ db' : Database} {acted stopped gone : Uuid → Prop}

def Cut (db db' : Database) (x : Uuid) (t : Task) : Prop :=
  (∃ t', db'.tasks.get? x = some t' ∧ t'.state = .cancelled) ∧
    ∀ n, (db'.attempts.get? (x, n)).map Attempt.state = (db.attempts.get? (x, n)).map fun a =>
      if n = t.attempt then a.state.halted else a.state

/-- What became of the tasks between two points of a call that ends the attempts of `acted`. Who is
woken has waited for a task in `gone`. -/
structure Change (e : Env) (acted gone : Uuid → Prop) (db db' : Database) : Prop where
  there : ∀ x, (db'.tasks.get? x).isSome = (db.tasks.get? x).isSome
  owned : ∀ x p, OwnedBy db' x p ↔ OwnedBy db x p
  live : ∀ x, Live db' x → Live db x
  ended : ∀ x t, db.tasks.get? x = some t → t.state.terminal = true →
    db'.tasks.get? x = some t ∧ ∀ n, db'.attempts.get? (x, n) = db.attempts.get? (x, n)
  cancelled : ∀ x t, db.tasks.get? x = some t → t.state.outstanding = true → ¬ acted x → ¬ Live db' x →
    Cut db db' x t
  spared : ∀ x t, db.tasks.get? x = some t → ¬ acted x → Live db' x →
    (∀ n, db'.attempts.get? (x, n) = db.attempts.get? (x, n)) ∧
      (db'.tasks.get? x = some t ∨ db'.tasks.get? x = some (t.woken e.now) ∧
        ∃ k w, k.taskId = x ∧ OpenResult db k w ∧ gone w.resultTaskId)
  waits : ∀ k, db'.waits.get? k = db.waits.get? k ∨
    ∃ w, OpenWait db k w ∧ ¬ Live db' k.taskId ∧ db'.waits.get? k = some (w.cancelledAt e.now)
  opened : ∀ k w, OpenResult db' k w → OpenResult db k w

theorem not_live_of_terminal {x : Uuid} {t : Task} (row : db.tasks.get? x = some t)
    (finished : t.state.terminal = true) : ¬ Live db x := by
  rintro ⟨c, hc, hlive⟩
  cases row.symm.trans hc
  rw [outstanding_eq_not, finished] at hlive
  cases hlive

theorem Change.mono {acted' gone' : Uuid → Prop} (h : Change e acted gone db db') (hacted : ∀ x, acted x → acted' x)
    (hover : ∀ x, gone x → gone' x) : Change e acted' gone' db db' :=
  { h with
    cancelled := fun x t row alive hx => h.cancelled x t row alive fun ha => hx (hacted x ha)
    spared := fun x t row hx alive => by
      obtain ⟨hattempts, hrow⟩ := h.spared x t row (fun ha => hx (hacted x ha)) alive
      refine ⟨hattempts, hrow.imp_right ?_⟩
      rintro ⟨hwoken, k, w, hk, hopen, hchild⟩
      exact ⟨hwoken, k, w, hk, hopen, hover _ hchild⟩ }

theorem Change.refl (db : Database) : Change e acted gone db db where
  there _ := rfl
  owned _ _ := Iff.rfl
  live _ := id
  ended _ _ row _ := ⟨row, fun _ => rfl⟩
  cancelled _ t row alive _ dead := absurd ⟨t, row, alive⟩ dead
  spared _ _ row _ _ := ⟨fun _ => rfl, .inl row⟩
  waits _ := .inl rfl
  opened _ _ := id

theorem Change.trans (h : Change e acted gone db db₁) (h' : Change e acted gone db₁ db') :
    Change e acted gone db db' where
  there x := (h'.there x).trans (h.there x)
  owned x p := (h'.owned x p).trans (h.owned x p)
  live x hx := h.live x (h'.live x hx)
  ended x t row finished := by
    obtain ⟨row1, hattempts⟩ := h.ended x t row finished
    obtain ⟨row', hattempts'⟩ := h'.ended x t row1 finished
    exact ⟨row', fun n => (hattempts' n).trans (hattempts n)⟩
  cancelled x t row alive hx dead := by
    by_cases halive : Live db₁ x
    · -- The second part cancels the task, which the first one has at most woken.
      obtain ⟨hattempts, hrow⟩ := h.spared x t row hx halive
      obtain ⟨t1, row1, alive1, hsame⟩ : ∃ t1, db₁.tasks.get? x = some t1 ∧ t1.state.outstanding = true ∧
          t1.attempt = t.attempt := by
        rcases hrow with hrow | ⟨hrow, -⟩
        · exact ⟨t, hrow, alive, rfl⟩
        · refine ⟨_, hrow, woken_outstanding alive, ?_⟩
          unfold Task.woken
          split <;> rfl
      obtain ⟨hcancelled, hhalted⟩ := h'.cancelled x t1 row1 alive1 hx dead
      refine ⟨hcancelled, fun n => ?_⟩
      rw [hhalted n, hattempts n, hsame]
    · obtain ⟨⟨t1, row1, hcancelled⟩, hhalted⟩ := h.cancelled x t row alive hx halive
      obtain ⟨row', hattempts⟩ := h'.ended x t1 row1 (by rw [hcancelled]; rfl)
      refine ⟨⟨t1, row', hcancelled⟩, fun n => ?_⟩
      rw [hattempts n, hhalted n]
  spared x t row hx alive := by
    obtain ⟨hattempts, hrow⟩ := h.spared x t row hx (h'.live x alive)
    rcases hrow with row1 | ⟨row1, k, w, hk, hopen, hchild⟩
    · obtain ⟨hattempts', hrow'⟩ := h'.spared x t row1 hx alive
      refine ⟨fun n => (hattempts' n).trans (hattempts n), hrow'.imp_right ?_⟩
      rintro ⟨row', k, w, hk, hopen, hchild⟩
      exact ⟨row', k, w, hk, h.opened k w hopen, hchild⟩
    · obtain ⟨hattempts', hrow'⟩ := h'.spared x _ row1 hx alive
      refine ⟨fun n => (hattempts' n).trans (hattempts n), .inr ⟨?_, k, w, hk, hopen, hchild⟩⟩
      rcases hrow' with row' | ⟨row', -⟩
      · exact row'
      · rw [row', woken_woken]
  waits k := by
    rcases h.waits k with hsame | ⟨w, hopen, hdead, hclosed⟩
    · rcases h'.waits k with hsame' | ⟨w, hopen, hdead, hclosed⟩
      · exact .inl (hsame'.trans hsame)
      · exact .inr ⟨w, ⟨hsame.symm.trans hopen.1, hopen.2⟩, hdead, hclosed⟩
    · refine .inr ⟨w, hopen, fun hlive => hdead (h'.live _ hlive), ?_⟩
      rcases h'.waits k with hsame' | ⟨w', hopen', -⟩
      · exact hsame'.trans hclosed
      · cases hclosed.symm.trans hopen'.1
        cases hopen'.2
  opened k w hopen := h.opened k w (h'.opened k w hopen)

theorem Change.audit (h : Change e acted gone db db') (audit : List Audit) :
    Change e acted gone db { db' with administratorAudit := audit } :=
  ⟨h.there, h.owned, h.live, h.ended, h.cancelled, h.spared, h.waits, h.opened⟩

/-! ## The triggers -/

theorem Ripples.change {ls : List Label} (path : Ripples e ls s s') (inv : WaitInv s) (settled : s.Settled) :
    Change e (fun _ => False) (fun x => ¬ Live s'.db x) s.db s'.db where
  there _ := Ripples.there path
  owned _ _ := Ripples.ownedBy path
  live _ hx := ((Ripples.live path).mp hx).1
  ended x t row finished := by
    have hx : .cancel x ∉ ls := by
      intro hx
      obtain ⟨t', _, _, _, row', -, alive, -⟩ := Ripples.row_cancelled path hx
      exact not_live_of_terminal row finished ⟨t', row', alive⟩
    exact ⟨Ripples.keeps path x t row finished, fun n => Ripples.attempts path n hx⟩
  cancelled x t row alive _ dead := by
    have hx : .cancel x ∈ ls := by
      by_contra hx
      exact dead ((Ripples.live path).mpr ⟨⟨t, row, alive⟩, hx⟩)
    obtain ⟨_, _, _, _, -, -, -, -, hlast⟩ := Ripples.row_cancelled path hx
    exact ⟨⟨_, hlast, rfl⟩, fun n => Ripples.attempts_cancelled path hx row n⟩
  spared x t row _ alive := by
    obtain ⟨-, hx⟩ := (Ripples.live path).mp alive
    refine ⟨fun n => Ripples.attempts path n hx, ?_⟩
    rcases Ripples.row path hx with hsame | ⟨⟨k, hk, hid⟩, hwoken⟩
    · exact .inl (hsame.trans row)
    · rw [row, Option.map_some] at hwoken
      obtain ⟨w, _, new, hopen, -, -, hqueued, -⟩ := Ripples.answered path inv settled hk
      obtain ⟨hrow, hdone, -⟩ := settled _ hqueued
      exact .inr ⟨hwoken, k, w, hid, hopen, not_live_of_terminal (Ripples.keeps path _ _ hrow hdone) hdone⟩
  waits k := by
    refine (Ripples.waits path).imp_right ?_
    rintro ⟨w, t, hopen, ht, hdone, hclosed⟩
    exact ⟨w, hopen, not_live_of_terminal ht hdone, hclosed⟩
  opened _ _ := Ripples.openResult path

/-! ## The statement -/

/-- A statement that ends the attempts of `acted` and cancels tasks of `stopped` has written its
rows, and its triggers are queued. -/
structure Stated (e : Env) (acted stopped : Uuid → Prop) (s s₁ : Session) : Prop
    extends Change e acted (fun _ => False) s.db s₁.db where
  same : SameWaits s.db s₁.db
  settled : s₁.Settled
  waitInv : WaitInv s₁
  cancelling : ∀ p, s₁.Cancelling p ↔ Live s.db p ∧ ¬ Live s₁.db p
  fallen : ∀ x, Live s.db x → ¬ Live s₁.db x → acted x ∨ stopped x

theorem Stated.start (idle : s.queued = []) (inv : WaitInv s) : Stated e acted stopped s s where
  toChange := .refl _
  same := ⟨rfl, rfl, rfl, rfl⟩
  settled := settled_of_empty idle
  waitInv := inv
  cancelling p := by
    unfold Session.Cancelling
    simp [idle]
  fallen _ alive dead := absurd alive dead

def Label.states (acted stopped : Uuid → Prop) : Label → Prop
  | .complete id | .fail id => acted id
  | .cancel id => stopped id
  | _ => False

theorem Effect.states (effect : Effect e l s s') (hl : l.states acted stopped) :
    ∃ id t new f, s' = s.finish id t new f ∧ s.db.tasks.get? id = some t ∧ t.state.outstanding = true ∧
      new.parentTaskId = t.parentTaskId ∧
      (acted id ∨ stopped id ∧ new.state = .cancelled ∧ ∀ a : Attempt, (f a).state = a.state.halted) := by
  cases effect with
  | complete row running => exact ⟨_, _, _, _, rfl, row, running_outstanding running, rfl, .inl hl⟩
  | fail row running => exact ⟨_, _, _, _, rfl, row, running_outstanding running, rfl, .inl hl⟩
  | cancel row unfinished =>
    refine ⟨_, _, _, _, rfl, row, unfinished, rfl, .inr ⟨hl, rfl, fun a => ?_⟩⟩
    unfold AttemptState.halted
    split <;> rfl
  | _ => cases hl

section Write

variable {id x : Uuid} {t new : Task} {f : Attempt → Attempt}

theorem finish_alive_iff (row : s.db.tasks.get? id = some t) (unfinished : t.state.outstanding = true) :
    Live (s.finish id t new f).db x ↔ Live s.db x ∧ ¬ (x = id ∧ new.state.terminal = true) := by
  unfold Live
  by_cases hx : x = id
  · subst hx
    rw [finish_get?_self, row]
    simp only [Option.some.injEq, exists_eq_left', unfinished, outstanding_eq_not new.state, true_and, Bool.not_eq_true',
      Bool.not_eq_true]
  · rw [finish_get?_of_ne hx]
    simp [hx]

theorem finish_attempts_of_ne (hx : x ≠ id) (n : Nat) :
    (s.finish id t new f).db.attempts.get? (x, n) = s.db.attempts.get? (x, n) := by
  have hne : (x, n) ≠ (id, t.attempt) := fun h => hx (Prod.mk.inj h).1
  simp only [Session.finish, Session.endAttempt, Session.write, Table.get?_adjust, if_neg hne]

theorem finish_change (row : s.db.tasks.get? id = some t) (unfinished : t.state.outstanding = true)
    (parent : new.parentTaskId = t.parentTaskId)
    (kind : acted id ∨ new.state = .cancelled ∧ ∀ a : Attempt, (f a).state = a.state.halted) :
    Change e acted gone s.db (s.finish id t new f).db where
  there x := by
    by_cases hx : x = id
    · subst hx
      rw [finish_get?_self, row]
      rfl
    · rw [finish_get?_of_ne hx]
  owned x p := by
    unfold OwnedBy
    by_cases hx : x = id
    · subst hx
      rw [finish_get?_self, row]
      simp [parent]
    · rw [finish_get?_of_ne hx]
  live x hx := ((finish_alive_iff row unfinished).mp hx).1
  ended x c hc finished := by
    have hx : x ≠ id := by
      rintro rfl
      exact not_live_of_terminal hc finished ⟨t, row, unfinished⟩
    exact ⟨(finish_get?_of_ne hx).trans hc, finish_attempts_of_ne hx⟩
  cancelled x c hc alive hx dead := by
    have hid : x = id ∧ new.state.terminal = true := by
      by_contra hid
      exact dead ((finish_alive_iff row unfinished).mpr ⟨⟨c, hc, alive⟩, hid⟩)
    obtain ⟨rfl, -⟩ := hid
    cases row.symm.trans hc
    obtain ⟨hcancelled, hhalted⟩ := kind.resolve_left hx
    refine ⟨⟨new, finish_get?_self, hcancelled⟩, fun n => ?_⟩
    simp only [Session.finish, Session.endAttempt, Session.write, Table.get?_adjust, Prod.mk.injEq, true_and]
    split
    · rename_i hn
      rw [hn, Option.map_map]
      congr 1
      funext a
      exact hhalted a
    · rfl
  spared x c hc hx alive := by
    have hid : x ≠ id := by
      rintro rfl
      obtain ⟨hcancelled, -⟩ := kind.resolve_left hx
      exact ((finish_alive_iff row unfinished).mp alive).2 ⟨rfl, by rw [hcancelled]; rfl⟩
    exact ⟨finish_attempts_of_ne hid, .inl ((finish_get?_of_ne hid).trans hc)⟩
  waits _ := .inl rfl
  opened _ _ hopen := hopen

theorem mem_finish_queued {u : Trigger} (unfinished : t.state.outstanding = true) :
    u ∈ (s.finish id t new f).queued ↔ u ∈ s.queued ∨ new.state.terminal = true ∧
      (u = .cancelOwnedChildren id new ∨ u = .manageIdempotencyKey id t new ∨ u = .resolveTaskResult id new) := by
  have hold : t.state.terminal = false := by simpa [outstanding_eq_not] using unfinished
  unfold Session.finish Session.endAttempt Session.write afterUpdate
  by_cases hn : new.state.terminal = true
  · simp [unfinished, hn]
  · simp [hold, hn]

end Write

theorem Stated.step (h : Stated e acted stopped s s₁) (effect : Effect e l s₁ s₂) (hl : l.states acted stopped) :
    Stated e acted stopped s s₂ := by
  have waitInv := effect_keeps_waits effect h.waitInv
  obtain ⟨id, t, new, f, rfl, row, unfinished, parent, kind⟩ := effect.states hl
  have alive : Live s.db id := h.live id ⟨t, row, unfinished⟩
  refine ⟨h.toChange.trans (finish_change row unfinished parent (kind.imp_right And.right)), ?_, ?_, waitInv, ?_, ?_⟩
  · exact ⟨h.same.waits, h.same.resultWaits, h.same.checkpoints, h.same.signals⟩
  · exact (settled_write h.settled row unfinished).congr rfl rfl
  · intro p
    have hqueued : (s₁.finish id t new f).Cancelling p ↔
        s₁.Cancelling p ∨ p = id ∧ new.state.terminal = true := by
      unfold Session.Cancelling
      simp only [mem_finish_queued unfinished, exists_or, Trigger.cancelOwnedChildren.injEq, reduceCtorEq, or_false]
      refine or_congr_right ?_
      constructor
      · rintro ⟨_, hn, rfl, -⟩
        exact ⟨rfl, hn⟩
      · rintro ⟨rfl, hn⟩
        exact ⟨new, hn, rfl, rfl⟩
    rw [hqueued, h.cancelling, finish_alive_iff row unfinished]
    constructor
    · rintro (⟨hp, hdead⟩ | ⟨rfl, hn⟩)
      · exact ⟨hp, fun hlive => hdead hlive.1⟩
      · exact ⟨alive, fun hlive => hlive.2 ⟨rfl, hn⟩⟩
    · rintro ⟨hp, hdead⟩
      by_cases hlive : Live s₁.db p
      · exact .inr (by_contra fun hn => hdead ⟨hlive, hn⟩)
      · exact .inl ⟨hp, hlive⟩
  · intro x hx hdead
    by_cases hlive : Live s₁.db x
    · have hid : x = id ∧ new.state.terminal = true := by
        by_contra hn
        exact hdead ((finish_alive_iff row unfinished).mpr ⟨hlive, hn⟩)
      rw [hid.1]
      exact kind.imp_right And.left
    · exact h.fallen x hx hlive

theorem stated_of_effects {ls : List Label} (path : Effects e ls s s₁) (hls : ∀ l ∈ ls, l.states acted stopped)
    (idle : s.queued = []) (inv : WaitInv s) : Stated e acted stopped s s₁ :=
  path.keeps (P := fun s₁ => Stated e acted stopped s s₁)
    (fun l _ _ (hl : l.states acted stopped) effect h => h.step effect hl) hls (.start idle inv)

/-! ## The statement and its triggers -/

def Down (db db' : Database) : Prop :=
  ∀ x p, Live db x → OwnedBy db x p → Live db p → ¬ Live db' p → ¬ Live db' x

theorem Down.trans (h : Down db db₁) (change : Change e acted gone db db₁) (h' : Down db₁ db')
    (change' : Change e acted gone db₁ db') : Down db db' := by
  intro x p alive owner hp hdead hx
  have alive1 := change'.live x hx
  by_cases hp1 : Live db₁ p
  · exact h' x p alive1 ((change.owned x p).mpr owner) hp1 hdead hx
  · exact h x p alive owner hp hp1 alive1

theorem Down.under {p y : Uuid} (h : Down db db') (alive : Live db p) (hdead : ¬ Live db' p)
    (hy : Under db p y) : ¬ Live db' y := by
  unfold Under at hy
  induction hy with
  | child owner hlive start => exact h _ _ hlive owner (start ▸ alive) (start ▸ hdead)
  | under owner hlive up ih => exact h _ _ hlive owner up.alive ih

/-- A statement, up to `s₁`, and its triggers. -/
structure Burst (e : Env) (acted stopped : Uuid → Prop) (s s₁ s' : Session) : Prop where
  stated : Stated e acted stopped s s₁
  triggers : ∃ ls, Ripples e ls s₁ s'
  idle : s'.queued = []

theorem Burst.change (h : Burst e acted stopped s s₁ s') : Change e acted (fun x => ¬ Live s'.db x) s.db s'.db := by
  obtain ⟨ls, path⟩ := h.triggers
  have statement : Change e acted (fun x => ¬ Live s'.db x) s.db s₁.db :=
    h.stated.toChange.mono (fun _ => id) fun _ => False.elim
  have triggers := Ripples.change path h.stated.waitInv h.stated.settled
  exact statement.trans (triggers.mono (fun _ => False.elim) fun _ => id)

theorem Burst.down (h : Burst e acted stopped s s₁ s') : Down s.db s'.db := by
  intro x p alive owner hp hdead hx
  obtain ⟨ls, path⟩ := h.triggers
  obtain ⟨alive1, hspared⟩ := (Ripples.live path).mp hx
  have owner1 := (h.stated.owned x p).mpr owner
  rw [Ripples.cancelled_iff path h.idle] at hspared
  -- The parent was finished by the statement, or it is cancelled by a trigger.
  by_cases hp1 : Live s₁.db p
  · have hdoomed : s₁.Doomed p := by
      rw [← Ripples.cancelled_iff path h.idle]
      by_contra hnot
      exact hdead ((Ripples.live path).mpr ⟨hp1, hnot⟩)
    exact hspared (.under owner1 alive1 hdoomed)
  · exact hspared (.child owner1 alive1 ((h.stated.cancelling p).mpr ⟨hp, hp1⟩))

theorem Burst.fallen (h : Burst e acted stopped s s₁ s') {x : Uuid} (alive : Live s.db x) (dead : ¬ Live s'.db x) :
    ∃ p, (acted p ∨ stopped p) ∧ Live s.db p ∧ ¬ Live s'.db p ∧ (x = p ∨ Under s.db p x) := by
  obtain ⟨ls, path⟩ := h.triggers
  have hdead : ∀ y, ¬ Live s₁.db y → ¬ Live s'.db y := fun y hy hlive => hy ((Ripples.live path).mp hlive).1
  by_cases hx : Live s₁.db x
  · have hdoomed : s₁.Doomed x := by
      rw [← Ripples.cancelled_iff path h.idle]
      by_contra hnot
      exact dead ((Ripples.live path).mpr ⟨hx, hnot⟩)
    have hroot : ∃ p, s₁.Cancelling p ∧ Under s.db p x := by
      unfold Session.Doomed at hdoomed
      clear dead hx alive
      induction hdoomed with
      | child owner hlive start =>
        exact ⟨_, start, .child ((h.stated.owned _ _).mp owner) (h.stated.live _ hlive) rfl⟩
      | under owner hlive _ ih =>
        obtain ⟨p, hp, hunder⟩ := ih
        exact ⟨p, hp, .under ((h.stated.owned _ _).mp owner) (h.stated.live _ hlive) hunder⟩
    obtain ⟨p, hp, hunder⟩ := hroot
    obtain ⟨alive', dead'⟩ := (h.stated.cancelling p).mp hp
    exact ⟨p, h.stated.fallen p alive' dead', alive', hdead p dead', .inr hunder⟩
  · exact ⟨x, h.stated.fallen x alive hx, alive, dead, .inl rfl⟩

theorem Burst.results (h : Burst e acted stopped s s₁ s') {k : StepKey} {w : ResultWait} (hopen : OpenResult s.db k w) :
    (s'.db.resultWaits.get? k = some w ∧ s'.db.checkpoints.get? k = none) ∨
    (s'.db.resultWaits.get? k = some (w.cancelledAt e.now) ∧ s'.db.checkpoints.get? k = none ∧
      ¬ Live s'.db k.taskId) ∨
    ∃ c, s'.db.tasks.get? w.resultTaskId = some c ∧ c.state.terminal = true ∧ ¬ Live s₁.db w.resultTaskId ∧
      s'.db.resultWaits.get? k = some (w.answered e.now c) ∧ s'.db.checkpoints.get? k = some c.checkpoint := by
  obtain ⟨ls, path⟩ := h.triggers
  have hopen1 : OpenResult s₁.db k w := ⟨by rw [h.stated.same.resultWaits]; exact hopen.1, hopen.2⟩
  have hfree := (h.stated.waitInv.results k w hopen1).2.1
  by_cases hk : .deliverResult k ∈ ls
  · obtain ⟨w', _, c, hopen', -, -, hqueued, -, -, hcheckpoint, hlast⟩ :=
      Ripples.answered path h.stated.waitInv h.stated.settled hk
    cases hopen1.1.symm.trans hopen'.1
    obtain ⟨hrow, hdone, -⟩ := h.stated.settled _ hqueued
    exact .inr (.inr ⟨c, Ripples.keeps path _ _ hrow hdone, hdone, not_live_of_terminal hrow hdone, hlast,
      hcheckpoint⟩)
  · have hcheckpoint := (Ripples.checkpoints path hk).trans hfree
    rcases Ripples.resultWaits path hk with hsame | ⟨w', t, hopen', ht, hdone, hclosed⟩
    · exact .inl ⟨hsame.trans hopen1.1, hcheckpoint⟩
    · cases hopen1.1.symm.trans hopen'.1
      exact .inr (.inl ⟨hclosed, hcheckpoint, not_live_of_terminal ht hdone⟩)

theorem burst_of_statement {ls : List Label} (statement : Effects e ls s s₁) (hls : ∀ l ∈ ls, l.states acted stopped)
    (idle : s.queued = []) (inv : WaitInv s) (fired : fireTriggers e s₁ = .ok s') :
    Burst e acted stopped s s₁ s' := by
  have stated := stated_of_effects statement hls idle inv
  obtain ⟨triggers, -, hempty⟩ := drain_spec stated.settled fired
  exact ⟨stated, triggers, hempty⟩

theorem burst_nothing (idle : s.queued = []) (inv : WaitInv s) : Burst e acted stopped s s s :=
  ⟨.start idle inv, ⟨[], .nil _⟩, idle⟩

/-! ## Calls -/

def Holder (db : Database) (lease : Lease) (x : Uuid) : Prop :=
  ∃ t, db.tasks.get? x = some t ∧ lease.owns x t = true

theorem holder_of_fenced {lease : Lease} {t : Task}
    (h : fenced db lease.taskId lease.attempt lease.leaseToken = some t) : Holder db lease lease.taskId := by
  obtain ⟨row, running, hattempt, htoken⟩ := fenced_eq_some.mp h
  exact ⟨t, row, by simp [Lease.owns, running, hattempt, htoken]⟩

def Call.acts (e : Env) (db : Database) : Call → Uuid → Prop
  | .completeTask lease _, x | .failTask lease _ _, x => Holder db lease x
  | .completeTasks cs, x => ∃ c ∈ cs, Holder db c.lease x
  | .failTasks fs, x => ∃ f ∈ fs, Holder db f.lease x
  | .recoverExpired queueName n, x => ∃ t, (x, t) ∈ expiredLeases e db queueName n.toNat
  | _, _ => False

def Call.cancels : Call → Uuid → Prop
  | .cancelTask id, x | .adminCancelTask id _, x => x = id
  | _, _ => False

theorem forFenced_holder {α β : Type} {lease : α → Lease} {lost : β}
    {act : α → Task → Session → Result (β × Session)} (served : β → Bool) (hlost : served lost = false)
    (stops : ∀ a t b s s', act a t s = .ok (b, s') → Stops (lease a).taskId s s') {as : List α} {bs : List β} {x : Uuid}
    (h : forFenced lease lost act as s = .ok (bs, s')) (hx : x ∈ servedIds lease served as bs) :
    ∃ a ∈ as, Holder s.db (lease a) x := by
  induction as generalizing s bs with
  | nil => simp [servedIds] at hx
  | cons a as ih =>
    unfold forFenced at h
    split at h
    · obtain ⟨⟨bs', s₁⟩, h1, h⟩ := bind_ok h
      cases h
      have hids : servedIds lease served (a :: as) (lost :: bs') = servedIds lease served as bs' := by
        simp [servedIds, hlost]
      rw [hids] at hx
      obtain ⟨a', ha', holder⟩ := ih h1 hx
      exact ⟨a', mem_cons_of_mem _ ha', holder⟩
    · rename_i t hf
      obtain ⟨⟨b, s₁⟩, h1, h⟩ := bind_ok h
      obtain ⟨⟨bs', s₂⟩, h2, h⟩ := bind_ok h
      cases h
      obtain ⟨new, htasks, hstopped⟩ := stops a t b s s₁ h1
      by_cases hhead : x = (lease a).taskId
      · exact ⟨a, mem_cons_self, hhead ▸ holder_of_fenced hf⟩
      · have htail : x ∈ servedIds lease served as bs' := by
          unfold servedIds at hx ⊢
          rw [List.zip_cons_cons, filterMap_cons] at hx
          split at hx
          · exact hx
          · rename_i y hy
            refine (mem_cons.mp hx).resolve_left fun heq => hhead ?_
            split at hy
            · exact heq.trans (Option.some.inj hy).symm
            · cases hy
        obtain ⟨a', ha', t', row', howns⟩ := ih h2 htail
        rw [htasks, Table.get?_put_of_ne _ _ hhead] at row'
        exact ⟨a', mem_cons_of_mem _ ha', t', row', howns⟩

def Call.finishes : Call → Bool
  | .completeTask .. | .completeTasks _ | .failTask .. | .failTasks _ | .recoverExpired .. | .cancelTask _
  | .adminCancelTask .. => true
  | _ => false

theorem cancelTask_burst (acted : Uuid → Prop) {id : Uuid} {r : Option (String × String)} (idle : s.queued = []) (inv : WaitInv s)
    (h : cancelTask e id s = .ok (r, s')) : ∃ s₁, Burst e acted (· = id) s s₁ s' := by
  unfold cancelTask at h
  split at h
  · cases h
    exact ⟨s, burst_nothing idle inv⟩
  · rename_i t ht
    rw [Option.filter_eq_some_iff] at ht
    obtain ⟨s₁, h1, h⟩ := bind_ok h
    obtain ⟨s₂, h2, h⟩ := bind_ok h
    cases h
    obtain ⟨checked, rfl⟩ := cancelRow_spec h1
    exact ⟨_, burst_of_statement (.single (.cancel ht.1 ht.2 checked)) (by simp [Label.states]) idle inv h2⟩

theorem exec_burst {c : Call} {r : Reply} (idle : s.queued = []) (inv : WaitInv s) (hc : c.finishes = true)
    (h : exec e c s = .ok (r, s')) : ∃ s₁ s₂ audit, Burst e (c.acts e s.db) c.cancels s s₁ s₂ ∧
      s' = { s₂ with db := { s₂.db with administratorAudit := audit } } := by
  cases c with
  | completeTask lease result =>
    obtain ⟨a, h, -⟩ := reply_ok h
    unfold completeTask at h
    split at h
    · cases h
      exact ⟨_, _, _, burst_nothing idle inv, rfl⟩
    · rename_i t hf
      obtain ⟨row, running, -, -⟩ := fenced_eq_some.mp hf
      obtain ⟨s₁, h1, h⟩ := bind_ok h
      obtain ⟨s₂, h2, h⟩ := bind_ok h
      cases h
      have effect := (completeRow_spec row running (settled_of_empty idle) h1).1
      refine ⟨_, _, _, burst_of_statement (.single effect) ?_ idle inv h2, rfl⟩
      rw [forall_mem_singleton]
      exact holder_of_fenced hf
  | completeTasks cs =>
    obtain ⟨a, h, -⟩ := reply_ok h
    unfold completeTasks at h
    split at h
    · obtain ⟨⟨rs, s₁⟩, h1, h⟩ := bind_ok h
      obtain ⟨s₂, h2, h⟩ := bind_ok h
      cases h
      obtain ⟨path, -⟩ := completeRows_spec (settled_of_empty idle) h1
      refine ⟨_, _, _, burst_of_statement path ?_ idle inv h2, rfl⟩
      intro l hl
      obtain ⟨x, hx, rfl⟩ := List.mem_map.mp hl
      exact forFenced_holder id rfl completeRequest_stops h1 hx
    · cases h
  | failTask lease error ms =>
    obtain ⟨a, h, -⟩ := reply_ok h
    unfold failTask at h
    split at h
    · cases h
      exact ⟨_, _, _, burst_nothing idle inv, rfl⟩
    · rename_i t hf
      obtain ⟨row, running, -, -⟩ := fenced_eq_some.mp hf
      obtain ⟨⟨state, s₁⟩, h1, h⟩ := bind_ok h
      obtain ⟨s₂, h2, h⟩ := bind_ok h
      cases h
      have effect := (failRow_spec row running (settled_of_empty idle) h1).1
      refine ⟨_, _, _, burst_of_statement (.single effect) ?_ idle inv h2, rfl⟩
      rw [forall_mem_singleton]
      exact holder_of_fenced hf
  | failTasks fs =>
    obtain ⟨a, h, -⟩ := reply_ok h
    unfold failTasks at h
    split at h
    · obtain ⟨⟨rs, s₁⟩, h1, h⟩ := bind_ok h
      obtain ⟨s₂, h2, h⟩ := bind_ok h
      cases h
      obtain ⟨path, -⟩ := failRows_spec (settled_of_empty idle) h1
      refine ⟨_, _, _, burst_of_statement path ?_ idle inv h2, rfl⟩
      intro l hl
      obtain ⟨x, hx, rfl⟩ := List.mem_map.mp hl
      exact forFenced_holder Option.isSome rfl failRequest_stops h1 hx
    · cases h
  | recoverExpired queueName n =>
    obtain ⟨a, h, -⟩ := reply_ok h
    obtain ⟨s₁, path, -, fired⟩ := recoverExpired_statement idle h
    refine ⟨_, _, _, burst_of_statement path ?_ idle inv fired, rfl⟩
    intro l hl
    obtain ⟨x, hx, rfl⟩ := List.mem_map.mp hl
    exact ⟨x.2, hx⟩
  | cancelTask id =>
    obtain ⟨a, h, -⟩ := reply_ok h
    obtain ⟨s₁, burst⟩ := cancelTask_burst (Call.acts e s.db (.cancelTask id)) idle inv h
    exact ⟨_, _, _, burst, rfl⟩
  | adminCancelTask id actor =>
    obtain ⟨a, h, -⟩ := reply_ok h
    unfold adminCancelTask at h
    obtain ⟨name, -, h⟩ := bind_ok h
    obtain ⟨⟨found, s₂⟩, h2, h⟩ := bind_ok h
    cases h
    obtain ⟨s₁, burst⟩ := cancelTask_burst (Call.acts e s.db (.adminCancelTask id actor)) idle inv h2
    cases found with
    | none => exact ⟨_, _, _, burst, rfl⟩
    | some names => exact ⟨_, _, _, burst, rfl⟩
  | _ => cases hc

end Pgtask
