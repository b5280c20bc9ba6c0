import Pgtask.Invariant.Aftermath

/-!
# The sweep of result timeouts

`recover_result_wait_timeouts` fetches its rows before the first round of its loop.
A round cancels the child of its wait with everybody under it, and among those may
be the task of a row that is still to come. The later round does not look again: it
writes the checkpoint of a finished task and changes the outcome of a closed wait.
-/

open Sql Checked List Option Table

namespace Pgtask

variable {e : Env} {s s' : Session} {k : StepKey} {w : ResultWait}

def dueResultWaits (e : Env) (db : Database) (n : Nat) : List (StepKey × ResultWait) :=
  ((db.resultWaits.select fun _ w => due e.now w.timeoutAt w.resolvedAt).insertionSort
    fun x y => byTimeout (x.2.timeoutAt, x.1.taskId) (y.2.timeoutAt, y.1.taskId)).take n

/-! ## Who waits -/

theorem WaitInv.pair (inv : WaitInv s) (idle : s.queued = []) (hopen : OpenResult s.db k w) :
    ∃ t c, s.db.tasks.get? k.taskId = some t ∧ t.state = .waiting ∧ s.db.tasks.get? w.resultTaskId = some c ∧
      c.parentTaskId = some k.taskId ∧ c.state.outstanding = true := by
  have hidle : ∀ id, ¬ Owed s id := by
    rintro id ⟨new, hnew⟩
    rw [idle] at hnew
    cases hnew
  obtain ⟨⟨t, ht, hstate⟩, -, hwatch⟩ := inv.results k w hopen
  have hwaiting := hstate.resolve_right fun h => hidle _ h.2
  obtain ⟨c, hc, howner, hlive⟩ := hwatch t ht hwaiting
  exact ⟨t, c, ht, hwaiting, hc, howner, hlive.resolve_right (hidle _)⟩

theorem resultTimeout_size : resultTimeout.octetLength ≤ 1048576 := by decide +kernel

theorem timeoutError_size (parent : Uuid) : (timeoutError parent).octetLength ≤ 262144 := by
  have hparent := quoted_size_le parent.text
  rw [Uuid.text_length] at hparent
  have htype : (quoted "type" ++ ": " ++ quoted "result_wait_timeout").utf8ByteSize = 29 := by decide +kernel
  have hid : (quoted "parent_task_id" ++ ": ").utf8ByteSize = 18 := by decide +kernel
  have hopening : "\x7b".utf8ByteSize = 1 := by decide +kernel
  have hclosing : "\x7d".utf8ByteSize = 1 := by decide +kernel
  have hcomma : ", ".utf8ByteSize = 2 := by decide +kernel
  unfold Json.octetLength timeoutError
  simp only [Json.text, Json.fieldTexts, String.intercalate_cons_cons, String.intercalate_singleton,
    String.utf8ByteSize_append] at *
  omega

/-! ## A round on an open row -/

structure TimedOut (e : Env) (k : StepKey) (w : ResultWait) (s s' : Session) : Prop where
  idle : s'.queued = []
  waits : WaitInv s'
  checks : ChecksInv s'.db
  live : ∀ x, Live s'.db x ↔ Live s.db x ∧ x ≠ w.resultTaskId ∧ ¬ Under s.db w.resultTaskId x
  owned : ∀ x p, OwnedBy s'.db x p ↔ OwnedBy s.db x p
  there : ∀ x, (s'.db.tasks.get? x).isSome = (s.db.tasks.get? x).isSome
  change : Change e (fun _ => False) (fun x => ¬ Live s'.db x) s.db s'.db
  checkpoint : s'.db.checkpoints.get? k = some ((s.db.checkpoints.get? k).getD resultTimeout)
  checkpoints : ∀ j, j ≠ k → s'.db.checkpoints.get? j = s.db.checkpoints.get? j
  closed : s'.db.resultWaits.get? k = some { w with resolvedAt := some e.now, outcome := some .timeout }
  others : ∀ j, j ≠ k → s'.db.resultWaits.get? j = s.db.resultWaits.get? j ∨
    ∃ v, OpenResult s.db j v ∧ ¬ Live s'.db j.taskId ∧ s'.db.resultWaits.get? j = some (v.cancelledAt e.now)

def Session.timeOut (e : Env) (k : StepKey) (w : ResultWait) (s : Session) : Session :=
  { s.deliver e.now k resultTimeout with
    db := { (s.deliver e.now k resultTimeout).db with
      resultWaits := s.db.resultWaits.put k { w with resolvedAt := some e.now, outcome := some .timeout } } }

theorem timeOut_rows : SameRows s.db (s.timeOut e k w).db := by
  intro x
  simp only [Session.timeOut, Session.deliver, get?_adjust]
  split
  · rename_i hx
    subst hx
    rw [Option.map_map]
    congr 1
    funext t
    simp only [Function.comp_apply, Task.woken_outstanding, Prod.mk.injEq, and_true]
    unfold Task.woken
    split <;> rfl
  · rfl

theorem timeOut_there (x : Uuid) :
    ((s.timeOut e k w).db.tasks.get? x).isSome = (s.db.tasks.get? x).isSome := by
  have := congrArg Option.isSome (timeOut_rows (e := e) (s := s) (k := k) (w := w) x)
  rwa [isSome_map, isSome_map] at this

theorem timeOut_change {acted gone : Uuid → Prop} (why : ∀ t, s.db.tasks.get? k.taskId = some t → t.state = .waiting →
    OpenResult s.db k w ∧ gone w.resultTaskId) : Change e acted gone s.db (s.timeOut e k w).db := by
  have hrow : ∀ x t, s.db.tasks.get? x = some t → (s.timeOut e k w).db.tasks.get? x = some t ∨
      (s.timeOut e k w).db.tasks.get? x = some (t.woken e.now) ∧ x = k.taskId ∧ t.state = .waiting := by
    intro x t row
    simp only [Session.timeOut, Session.deliver, get?_adjust]
    split
    · rename_i hx
      subst hx
      rw [row, map_some]
      by_cases hw : t.state = .waiting
      · exact .inr ⟨rfl, rfl, hw⟩
      · exact .inl (by rw [Task.woken, if_neg hw])
    · exact .inl row
  refine ⟨timeOut_there, fun _ _ => timeOut_rows.ownedBy.symm, fun _ => timeOut_rows.live.mpr, ?_, ?_, ?_,
    fun _ => .inl rfl, ?_⟩
  · intro x t row finished
    rcases hrow x t row with hsame | ⟨-, -, hw⟩
    · exact ⟨hsame, fun _ => rfl⟩
    · rw [hw] at finished
      cases finished
  · intro x t row alive _ dead
    exact absurd (timeOut_rows.live.mp ⟨t, row, alive⟩) dead
  · intro x t row _ _
    refine ⟨fun _ => rfl, (hrow x t row).imp_right ?_⟩
    rintro ⟨hwoken, rfl, hw⟩
    obtain ⟨hopen, hover⟩ := why t row hw
    exact ⟨hwoken, k, w, rfl, hopen, hover⟩
  · rintro j v ⟨hv, hopen⟩
    by_cases hj : j = k
    · subst hj
      cases hv.symm.trans (get?_put_self _ _ _)
      cases hopen
    · exact ⟨(get?_put_of_ne _ _ hj).symm.trans hv, hopen⟩

theorem timeOut_fits (checks : ChecksInv s.db) (row : s.db.resultWaits.get? k = some w) :
    Holds (checkpointChecks k resultTimeout) := by
  have hkey := checks.resultWaits k w row
  exact Holds.checkpoint (fun c hc => hkey c (mem_append_left _ hc)) resultTimeout_size

theorem timeOut_unwatched (inv : WaitInv (s.timeOut e k w)) (idle : s.queued = []) {c : Task}
    (hc : (s.timeOut e k w).db.tasks.get? w.resultTaskId = some c) (owner : c.parentTaskId = some k.taskId)
    {j : StepKey} {v : ResultWait} (hopen : OpenResult (s.timeOut e k w).db j v) : v.resultTaskId ≠ w.resultTaskId := by
  intro htarget
  obtain ⟨u, c', hu, hwaiting, hc', howner', -⟩ := inv.pair idle hopen
  rw [htarget] at hc'
  cases hc.symm.trans hc'
  have hid : j.taskId = k.taskId := some.inj (howner'.symm.trans owner)
  simp only [Session.timeOut, Session.deliver, get?_adjust, hid, if_pos] at hu
  obtain ⟨u0, -, rfl⟩ := map_eq_some_iff.mp hu
  exact woken_not_waiting _ _ hwaiting

theorem timeOut_open (idle : s.queued = []) (waits : WaitInv s) (checks : ChecksInv s.db)
    (hopen : OpenResult s.db k w) : ∃ s', timeOutResultWait e s (k, w) = .ok s' ∧ TimedOut e k w s s' := by
  obtain ⟨t, c, ht, hwaiting, hc, howner, hlive⟩ := waits.pair idle hopen
  -- The wait is answered.
  obtain ⟨s1, h1⟩ := resolveResultWait_returns (e := e) w .timeout checks ht (timeOut_fits checks hopen.1)
  obtain rfl : s1 = s.timeOut e k w := (resolveResultWait_spec h1).2
  have effect : Effect e (.deliverResult k) s (s.timeOut e k w) :=
    .deliverResult hopen.1 hopen.2 (.inl ⟨rfl, rfl⟩)
  have waits1 := effect_keeps_waits effect waits
  have checks1 := effect_keeps_checks effect checks
  have hne : w.resultTaskId ≠ k.taskId := by
    have := checks.resultWaits k w hopen.1 ("result_waits_check", decide (k.taskId ≠ w.resultTaskId))
      (mem_append_right _ mem_cons_self)
    exact (of_decide_eq_true this).symm
  have hc1 : (s.timeOut e k w).db.tasks.get? w.resultTaskId = some c := by
    simp only [Session.timeOut, Session.deliver, get?_adjust, if_neg hne]
    exact hc
  -- The child is cancelled, and its triggers fire.
  obtain ⟨s2, h2⟩ := cancelRow_returns (e := e) checks1 hc1 hlive (timeoutError_size k.taskId)
  obtain ⟨checked, hs2⟩ := cancelRow_spec h2
  obtain ⟨f, rfl, hhalted⟩ : ∃ f, s2 = (s.timeOut e k w).finish w.resultTaskId c
      (c.cancelledAt e.now (timeoutError k.taskId)) f ∧ ∀ a : Attempt, (f a).state = a.state.halted := by
    refine ⟨_, hs2, fun a => ?_⟩
    unfold AttemptState.halted
    split <;> rfl
  have hfin : (s.timeOut e k w).Finishes w.resultTaskId c (c.cancelledAt e.now (timeoutError k.taskId)) f := by
    refine ⟨idle, hc1, hlive, rfl, rfl, waits1, ?_⟩
    rw [hs2]
    exact effect_keeps_checks (.cancel hc1 hlive checked) checks1
  obtain ⟨s', hs'⟩ := (finish_returns_iff (e := e) hfin).mpr (by
    rintro j ⟨v, -, hj, htarget, -⟩
    exact absurd htarget (timeOut_unwatched waits1 idle hc1 howner hj))
  refine ⟨s', bind_eq_ok.mpr ⟨_, h1, ?_⟩, ?_⟩
  · unfold cancelUnfinished
    rw [hc1, filter_some, if_pos hlive]
    exact bind_eq_ok.mpr ⟨_, h2, hs'⟩
  · obtain ⟨⟨ls, path⟩, -, hempty⟩ := drain_spec hfin.settled hs'
    have hqueue := finish_queued w.resultTaskId f hfin.idle hfin.unfinished hfin.finished
    have hsilent : ∀ j, .deliverResult j ∉ ls := by
      intro j hj
      obtain ⟨v, _, new, hopen', -, -, hresolve, -⟩ := Ripples.answered path hfin.waitInv hfin.settled hj
      refine timeOut_unwatched waits1 idle hc1 howner hopen' ?_
      rw [hqueue] at hresolve
      simp only [mem_cons, reduceCtorEq, false_or, Trigger.resolveTaskResult.injEq, not_mem_nil,
        or_false] at hresolve
      exact hresolve.1
    have hlast : s'.db.resultWaits.get? k =
        some { w with resolvedAt := some e.now, outcome := some .timeout } := by
      have hput : ((s.timeOut e k w).finish w.resultTaskId c (c.cancelledAt e.now (timeoutError k.taskId)) f).db.resultWaits.get? k =
          some { w with resolvedAt := some e.now, outcome := some .timeout } := get?_put_self _ _ _
      refine (Ripples.closed path ?_).2.trans hput
      rintro v ⟨hv, hv'⟩
      cases hput.symm.trans hv
      cases hv'
    refine ⟨hempty, Ripples.waitInv path hfin.waitInv, Ripples.checks path hfin.checks, ?_, ?_, ?_, ?_, ?_, ?_, hlast, ?_⟩
    · intro x
      rw [finish_live hfin hs', ← (timeOut_rows (e := e) (k := k) (w := w)).live, Under, Under,
        ← (timeOut_rows (e := e) (k := k) (w := w)).doomed]
    · intro x p
      rw [finish_ownedBy hfin hs', ← (timeOut_rows (e := e) (k := k) (w := w)).ownedBy]
    · intro x
      rw [finish_there hfin hs', timeOut_there]
    · have hdead : ¬ Live s'.db w.resultTaskId := fun hlive => ((finish_live hfin hs').mp hlive).2.1 rfl
      have statement : Change e (fun _ => False) (fun x => ¬ Live s'.db x) (s.timeOut e k w).db
          ((s.timeOut e k w).finish w.resultTaskId c (c.cancelledAt e.now (timeoutError k.taskId)) f).db :=
        finish_change hc1 hlive rfl (.inr ⟨rfl, hhalted⟩)
      exact (timeOut_change fun _ _ _ => ⟨hopen, hdead⟩).trans
        (statement.trans (Ripples.change path hfin.waitInv hfin.settled))
    · rw [Ripples.checkpoints path (hsilent k)]
      change (s.db.checkpoints.putNew k resultTimeout).get? k = _
      rw [get?_putNew, if_pos rfl]
    · intro j hj
      rw [Ripples.checkpoints path (hsilent j)]
      change (s.db.checkpoints.putNew k resultTimeout).get? j = _
      rw [get?_putNew, if_neg hj]
    · intro j hj
      have hput : ((s.timeOut e k w).finish w.resultTaskId c (c.cancelledAt e.now (timeoutError k.taskId)) f).db.resultWaits.get? j =
          s.db.resultWaits.get? j := get?_put_of_ne _ _ hj
      rcases Ripples.resultWaits path (hsilent j) with hsame | ⟨v, u, hv, hu, hdone, hclosed⟩
      · exact .inl (hsame.trans hput)
      · refine .inr ⟨v, ⟨hput.symm.trans hv.1, hv.2⟩, ?_, hclosed⟩
        rintro ⟨u', hu', hlive'⟩
        cases hu.symm.trans hu'
        rw [outstanding_eq_not, hdone] at hlive'
        cases hlive'

/-! ## A round on a row that an earlier round has closed -/

theorem timeOut_stale {c : ResultWait} {t : Task} (idle : s.queued = []) (waits : WaitInv s) (checks : ChecksInv s.db)
    (row : s.db.resultWaits.get? k = some c) (target : c.resultTaskId = w.resultTaskId) (closed : c.resolvedAt ≠ none)
    (waiter : s.db.tasks.get? k.taskId = some t) (ended : t.state.terminal = true)
    (dead : ∀ x, Live s.db x → x ≠ w.resultTaskId ∧ ¬ Under s.db w.resultTaskId x) :
    ∃ s', timeOutResultWait e s (k, w) = .ok s' ∧ TimedOut e k w s s' := by
  obtain ⟨s1, h1⟩ := resolveResultWait_returns (e := e) w .timeout checks waiter (timeOut_fits checks row)
  obtain rfl : s1 = s.timeOut e k w := (resolveResultWait_spec h1).2
  have hdone : timeOutResultWait e s (k, w) = .ok (s.timeOut e k w) := by
    refine bind_eq_ok.mpr ⟨_, h1, ?_⟩
    unfold cancelUnfinished
    have hnone : ((s.timeOut e k w).db.tasks.get? w.resultTaskId).filter (fun t => t.state.outstanding) = none := by
      rw [filter_eq_none_iff]
      intro c hc hlive
      exact (dead w.resultTaskId (timeOut_rows.live.mpr ⟨c, hc, hlive⟩)).1 rfl
    rw [hnone]
  have hawake : ∀ u, s.db.tasks.get? k.taskId = some u → u.state ≠ .waiting := by
    intro u hu hw
    cases waiter.symm.trans hu
    rw [hw] at ended
    cases ended
  obtain ⟨⟨ls, path, hls⟩, hq⟩ := timeOutResultWait_spec idle ⟨c, row, target, .inr ⟨closed, hawake⟩⟩ hdone
  refine ⟨_, hdone, hq, ?_, ?_, ?_, fun x p => timeOut_rows.ownedBy.symm, timeOut_there,
    timeOut_change fun u hu hw => absurd hw (hawake u hu), ?_, ?_, ?_, ?_⟩
  · exact path.keeps (fun _ _ _ _ h => effect_keeps_waits h) hls waits
  · exact path.keeps (P := fun s => ChecksInv s.db) (fun _ _ _ _ h => effect_keeps_checks h) hls checks
  · intro x
    rw [← timeOut_rows.live]
    exact ⟨fun h => ⟨h, dead x h⟩, And.left⟩
  · change (s.db.checkpoints.putNew k resultTimeout).get? k = _
    rw [get?_putNew, if_pos rfl]
  · intro j hj
    change (s.db.checkpoints.putNew k resultTimeout).get? j = _
    rw [get?_putNew, if_neg hj]
  · exact get?_put_self _ _ _
  · intro j hj
    exact .inl (get?_put_of_ne _ _ hj)

/-! ## The loop -/

variable {db : Database} {dead : Uuid → Prop} {x : StepKey × ResultWait} {rest : List (StepKey × ResultWait)}

structure WaitPair (db : Database) (x : StepKey × ResultWait) : Prop where
  isOpen : OpenResult db x.1 x.2
  waiter : Live db x.1.taskId
  child : Live db x.2.resultTaskId
  owner : OwnedBy db x.2.resultTaskId x.1.taskId

theorem WaitInv.waitPair (inv : WaitInv s) (idle : s.queued = []) (hopen : OpenResult s.db k w) :
    WaitPair s.db (k, w) := by
  obtain ⟨t, c, ht, hwaiting, hc, howner, hlive⟩ := inv.pair idle hopen
  exact ⟨hopen, ⟨t, ht, by rw [hwaiting]; rfl⟩, ⟨c, hc, hlive⟩, ⟨c, hc, howner⟩⟩

/-- The loop has come here from `db`: the tasks in `dead` are those it has cancelled. -/
structure MidSweep (db : Database) (dead : Uuid → Prop) (rest : List (StepKey × ResultWait)) (s : Session) : Prop where
  idle : s.queued = []
  waits : WaitInv s
  checks : ChecksInv s.db
  live : ∀ y, Live s.db y ↔ Live db y ∧ ¬ dead y
  owned : ∀ y p, OwnedBy s.db y p ↔ OwnedBy db y p
  there : ∀ y, (s.db.tasks.get? y).isSome = (db.tasks.get? y).isSome
  down : ∀ y p, Live db y → OwnedBy db y p → dead p → dead y
  spared : ∀ x ∈ rest, ¬ dead x.1.taskId → OpenResult s.db x.1 x.2
  stale : ∀ x ∈ rest, dead x.1.taskId →
    ∃ c, s.db.resultWaits.get? x.1 = some c ∧ c.resultTaskId = x.2.resultTaskId ∧ c.resolvedAt ≠ none

theorem MidSweep.start (idle : s.queued = []) (waits : WaitInv s) (checks : ChecksInv s.db)
    (opened : ∀ x ∈ rest, OpenResult s.db x.1 x.2) : MidSweep s.db (fun _ => False) rest s where
  idle := idle
  waits := waits
  checks := checks
  live _ := (and_iff_left not_false).symm
  owned _ _ := Iff.rfl
  there _ := rfl
  down _ _ _ _ := False.elim
  spared x hx _ := opened x hx
  stale _ _ := False.elim

def deadWith (db : Database) (dead : Uuid → Prop) (child : Uuid) (y : Uuid) : Prop :=
  dead y ∨ y = child ∨ Under db child y

theorem MidSweep.under (h : MidSweep db dead rest s) {p y : Uuid} (hp : dead p) (hy : Under db p y) : dead y := by
  unfold Under at hy
  induction hy with
  | child owner alive start => exact h.down _ _ alive owner (start ▸ hp)
  | under owner alive _ ih => exact h.down _ _ alive owner ih

theorem MidSweep.under_iff (h : MidSweep db dead rest s) {p y : Uuid} :
    Under s.db p y ∨ dead y ↔ Under db p y ∨ dead y :=
  Spread.doomed_rest h.down (fun y p _ => h.owned y p) h.live

theorem MidSweep.returns (h : MidSweep db dead (x :: rest) s) (pair : WaitPair db x) :
    ∃ s', timeOutResultWait e s x = .ok s' ∧ TimedOut e x.1 x.2 s s' := by
  by_cases hx : dead x.1.taskId
  · obtain ⟨c, hc, htarget, hclosed⟩ := h.stale x mem_cons_self hx
    obtain ⟨t, ht⟩ : ∃ t, s.db.tasks.get? x.1.taskId = some t := by
      obtain ⟨t, ht, -⟩ := pair.waiter
      rw [← isSome_iff_exists, h.there, ht]
      rfl
    have hended : t.state.terminal = true := by
      by_contra hlive
      have alive : Live s.db x.1.taskId := ⟨t, ht, by rw [outstanding_eq_not]; simpa using hlive⟩
      exact ((h.live _).mp alive).2 hx
    have hchild : dead x.2.resultTaskId := h.down _ _ pair.child pair.owner hx
    refine timeOut_stale h.idle h.waits h.checks hc htarget hclosed ht hended fun y hy => ?_
    obtain ⟨-, hspared⟩ := (h.live y).mp hy
    refine ⟨fun heq => hspared (heq ▸ hchild), fun hunder => ?_⟩
    rcases h.under_iff.mp (.inl hunder) with hunder | hdead
    · exact hspared (h.under hchild hunder)
    · exact hspared hdead
  · exact timeOut_open h.idle h.waits h.checks (h.spared x mem_cons_self hx)

theorem MidSweep.step (h : MidSweep db dead (x :: rest) s) (round : TimedOut e x.1 x.2 s s')
    (nodup : ((x :: rest).map Prod.fst).Nodup) (pairs : ∀ y ∈ rest, WaitPair db y) :
    MidSweep db (deadWith db dead x.2.resultTaskId) rest s' := by
  have hne : ∀ y ∈ rest, y.1 ≠ x.1 := by
    intro y hy heq
    rw [map_cons, nodup_cons] at nodup
    exact nodup.1 (List.mem_map.mpr ⟨y, hy, heq⟩)
  have hlive : ∀ y, Live s'.db y ↔ Live db y ∧ ¬ deadWith db dead x.2.resultTaskId y := by
    intro y
    have hunder := h.under_iff (p := x.2.resultTaskId) (y := y)
    rw [round.live, h.live]
    unfold deadWith
    constructor
    · rintro ⟨⟨alive, hspared⟩, hne, hout⟩
      refine ⟨alive, ?_⟩
      rintro (hdead | heq | hin)
      · exact hspared hdead
      · exact hne heq
      · exact (hunder.mpr (.inl hin)).elim hout hspared
    · rintro ⟨alive, hspared⟩
      refine ⟨⟨alive, fun hdead => hspared (.inl hdead)⟩, fun heq => hspared (.inr (.inl heq)), fun hin => ?_⟩
      rcases hunder.mp (.inl hin) with hin | hdead
      · exact hspared (.inr (.inr hin))
      · exact hspared (.inl hdead)
  refine ⟨round.idle, round.waits, round.checks, hlive, ?_, ?_, ?_, ?_, ?_⟩
  · exact fun y p => (round.owned y p).trans (h.owned y p)
  · exact fun y => (round.there y).trans (h.there y)
  · rintro y p alive owner (hp | rfl | hp)
    · exact .inl (h.down y p alive owner hp)
    · exact .inr (.inr (.child owner alive rfl))
    · exact .inr (.inr (.under owner alive hp))
  · intro y hy hspared
    have hopen := h.spared y (mem_cons_of_mem _ hy) fun hdead => hspared (.inl hdead)
    rcases round.others y.1 (hne y hy) with hsame | ⟨_, -, hdone, -⟩
    · exact ⟨hsame.trans hopen.1, hopen.2⟩
    · exact absurd ((hlive _).mpr ⟨(pairs y hy).waiter, hspared⟩) hdone
  · intro y hy hdead
    by_cases hbefore : dead y.1.taskId
    · obtain ⟨c, hc, htarget, hclosed⟩ := h.stale y (mem_cons_of_mem _ hy) hbefore
      rcases round.others y.1 (hne y hy) with hsame | ⟨v, hopen, -, -⟩
      · exact ⟨c, hsame.trans hc, htarget, hclosed⟩
      · cases hc.symm.trans hopen.1
        exact absurd hopen.2 hclosed
    · have hopen := h.spared y (mem_cons_of_mem _ hy) hbefore
      rcases round.others y.1 (hne y hy) with hsame | ⟨v, hv, -, hclosed⟩
      · -- The wait would still be open, but its task has finished.
        have hlast := round.waits.waitPair round.idle ⟨hsame.trans hopen.1, hopen.2⟩
        exact absurd hdead ((hlive _).mp hlast.waiter).2
      · cases hopen.1.symm.trans hv.1
        exact ⟨_, hclosed, rfl, nofun⟩

theorem TimedOut.down (round : TimedOut e k w s s') : Down s.db s'.db := by
  intro y p alive owner hp hdead hy
  obtain ⟨-, -, hout⟩ := (round.live y).mp hy
  rw [round.live] at hdead
  by_cases hchild : p = w.resultTaskId
  · exact hout (.child owner alive hchild)
  · refine hout (.under owner alive ?_)
    by_contra hup
    exact hdead ⟨hp, hchild, hup⟩

structure SweepDone (e : Env) (rows : List (StepKey × ResultWait)) (s s' : Session) : Prop where
  idle : s'.queued = []
  waits : WaitInv s'
  change : Change e (fun _ => False) (fun x => ¬ Live s'.db x) s.db s'.db
  down : Down s.db s'.db
  fallen : ∀ y, Live s.db y → ¬ Live s'.db y →
    ∃ x ∈ rows, y = x.2.resultTaskId ∨ Under s.db x.2.resultTaskId y
  fetched : ∀ x ∈ rows, ¬ Live s'.db x.2.resultTaskId ∧
    s'.db.checkpoints.get? x.1 = some ((s.db.checkpoints.get? x.1).getD resultTimeout) ∧
    s'.db.resultWaits.get? x.1 = some { x.2 with resolvedAt := some e.now, outcome := some .timeout }
  others : ∀ j, j ∉ rows.map Prod.fst → s'.db.checkpoints.get? j = s.db.checkpoints.get? j ∧
    (s'.db.resultWaits.get? j = s.db.resultWaits.get? j ∨
      ∃ v, OpenResult s.db j v ∧ ¬ Live s'.db j.taskId ∧ s'.db.resultWaits.get? j = some (v.cancelledAt e.now))

theorem MidSweep.done (h : MidSweep db dead rest s) (nodup : (rest.map Prod.fst).Nodup)
    (pairs : ∀ x ∈ rest, WaitPair db x) :
    ∃ s', rest.foldlM (timeOutResultWait e) s = .ok s' ∧ SweepDone e rest s s' := by
  induction rest generalizing dead s with
  | nil =>
    refine ⟨s, rfl, h.idle, h.waits, .refl _, ?_, ?_, by simp, fun _ _ => ⟨rfl, .inl rfl⟩⟩
    · exact fun x p _ _ hp hdead => absurd hp hdead
    · exact fun y hy hdead => absurd hy hdead
  | cons x rest ih =>
    rw [forall_mem_cons] at pairs
    obtain ⟨s1, h1, round⟩ := h.returns (e := e) pairs.1
    rw [map_cons, nodup_cons] at nodup
    obtain ⟨s', h', last⟩ := ih (h.step round (by rwa [map_cons, nodup_cons]) pairs.2) nodup.2 pairs.2
    have hdead : ∀ y, ¬ Live s1.db y → ¬ Live s'.db y := fun y hy hlive => hy (last.change.live y hlive)
    have change : Change e (fun _ => False) (fun x => ¬ Live s'.db x) s.db s1.db :=
      round.change.mono (fun _ => id) hdead
    refine ⟨s', bind_eq_ok.mpr ⟨s1, h1, h'⟩, last.idle, last.waits, change.trans last.change,
      round.down.trans change last.down last.change, ?_, ?_, ?_⟩
    · intro y hy hend
      by_cases hlive : Live s1.db y
      · obtain ⟨z, hz, hfall⟩ := last.fallen y hlive hend
        refine ⟨z, mem_cons_of_mem _ hz, hfall.imp_right fun hunder => ?_⟩
        exact hunder.mono (fun a p _ => (round.owned a p).mp) change.live fun _ _ _ _ => id
      · rw [round.live, not_and_or] at hlive
        refine ⟨x, mem_cons_self, ?_⟩
        by_contra hn
        rw [not_or] at hn
        exact hlive.elim (absurd hy) fun hlive => hlive hn
    · rw [forall_mem_cons]
      constructor
      · have hchild : ¬ Live s1.db x.2.resultTaskId := fun hlive => ((round.live _).mp hlive).2.1 rfl
        obtain ⟨hcheckpoint, hwait⟩ := last.others x.1 nodup.1
        refine ⟨hdead _ hchild, hcheckpoint.trans round.checkpoint, ?_⟩
        rcases hwait with hsame | ⟨v, hopen, -⟩
        · exact hsame.trans round.closed
        · cases round.closed.symm.trans hopen.1
          cases hopen.2
      · intro y hy
        have hne : y.1 ≠ x.1 := fun heq => nodup.1 (heq ▸ List.mem_map_of_mem hy)
        obtain ⟨hchild, hcheckpoint, hwait⟩ := last.fetched y hy
        rw [round.checkpoints _ hne] at hcheckpoint
        exact ⟨hchild, hcheckpoint, hwait⟩
    · intro j hj
      rw [map_cons, mem_cons, not_or] at hj
      obtain ⟨hcheckpoint, hwait⟩ := last.others j hj.2
      refine ⟨hcheckpoint.trans (round.checkpoints j hj.1), ?_⟩
      rcases round.others j hj.1 with hsame | ⟨v, hopen, hdone, hclosed⟩
      · rw [hsame] at hwait
        refine hwait.imp_right ?_
        rintro ⟨v, hopen, hrest⟩
        exact ⟨v, ⟨hsame.symm.trans hopen.1, hopen.2⟩, hrest⟩
      · refine .inr ⟨v, hopen, hdead _ hdone, ?_⟩
        rcases hwait with hsame | ⟨v', hopen', -⟩
        · exact hsame.trans hclosed
        · cases hclosed.symm.trans hopen'.1
          cases hopen'.2

/-- At each point of the loop the task of the next row is unfinished, and its wait is open. -/
def SweepClean (e : Env) : List (StepKey × ResultWait) → Session → Prop
  | [], _ => True
  | x :: rest, s => Live s.db x.1.taskId ∧ OpenResult s.db x.1 x.2 ∧
    ∃ s', timeOutResultWait e s x = .ok s' ∧ SweepClean e rest s'

def Apart (db : Database) (x y : StepKey × ResultWait) : Prop :=
  y.1.taskId ≠ x.2.resultTaskId ∧ ¬ Under db x.2.resultTaskId y.1.taskId

theorem MidSweep.clean_iff (h : MidSweep db dead rest s) (nodup : (rest.map Prod.fst).Nodup)
    (pairs : ∀ x ∈ rest, WaitPair db x) :
    SweepClean e rest s ↔ (∀ x ∈ rest, ¬ dead x.1.taskId) ∧ rest.Pairwise (Apart db) := by
  induction rest generalizing dead s with
  | nil => simp [SweepClean]
  | cons x rest ih =>
    rw [forall_mem_cons] at pairs
    obtain ⟨s', hs', round⟩ := h.returns (e := e) pairs.1
    have next := ih (h.step round nodup pairs.2) (nodup_cons.mp nodup).2 pairs.2
    have hclean : SweepClean e (x :: rest) s ↔
        Live s.db x.1.taskId ∧ OpenResult s.db x.1 x.2 ∧ SweepClean e rest s' := by
      rw [SweepClean, hs']
      simp only [Except.ok.injEq, exists_eq_left']
    have hhead : Live s.db x.1.taskId ∧ OpenResult s.db x.1 x.2 ↔ ¬ dead x.1.taskId := by
      constructor
      · exact fun hx => ((h.live _).mp hx.1).2
      · exact fun hx => ⟨(h.live _).mpr ⟨pairs.1.waiter, hx⟩, h.spared x mem_cons_self hx⟩
    have hrest : (∀ y ∈ rest, ¬ deadWith db dead x.2.resultTaskId y.1.taskId) ↔
        (∀ y ∈ rest, ¬ dead y.1.taskId) ∧ ∀ y ∈ rest, Apart db x y := by
      simp only [deadWith, Apart, not_or, ← forall_and]
    rw [hclean, ← and_assoc, hhead, next, hrest, pairwise_cons, forall_mem_cons]
    simp only [and_assoc]

theorem dueResultWaits_open {n : Nat} (hx : x ∈ dueResultWaits e db n) : OpenResult db x.1 x.2 := by
  obtain ⟨hrow, hp⟩ := mem_select.mp (show (x.1, x.2) ∈ _ from mem_take_sorted hx)
  simp only [due, Bool.and_eq_true, isNone_iff_eq_none] at hp
  exact ⟨hrow, hp.1⟩

theorem dueResultWaits_nodup (db : Database) (n : Nat) : ((dueResultWaits e db n).map Prod.fst).Nodup :=
  nodup_take_sorted _ (nodup_select _ _)

theorem recoverResultWaitTimeouts_eq (n : Nat) : recoverResultWaitTimeouts e n s =
      ((dueResultWaits e s.db n).foldlM (timeOutResultWait e) s).map ((dueResultWaits e s.db n).length, ·) := by
  unfold recoverResultWaitTimeouts limit
  rw [if_neg (by omega)]
  simp only [bind, Except.bind, Int.toNat_natCast]
  rw [← dueResultWaits]
  cases (dueResultWaits e s.db n).foldlM (timeOutResultWait e) s <;> rfl

theorem recoverResultWaitTimeouts_done (idle : s.queued = []) (waits : WaitInv s) (checks : ChecksInv s.db) (n : Nat) :
    ∃ s', recoverResultWaitTimeouts e n s = .ok ((dueResultWaits e s.db n).length, s') ∧
      SweepDone e (dueResultWaits e s.db n) s s' := by
  have start := MidSweep.start idle waits checks fun _ hx => dueResultWaits_open (e := e) (n := n) hx
  obtain ⟨s', hs', done⟩ := start.done (e := e) (dueResultWaits_nodup _ n) fun x hx =>
    waits.waitPair idle (dueResultWaits_open hx)
  refine ⟨s', ?_, done⟩
  rw [recoverResultWaitTimeouts_eq, hs']
  rfl

/-- The loop works on open waits of unfinished tasks only, if and only if no task that one of its
rounds cancels waits in a later one. -/
theorem sweep_clean_iff (server : Server) (rs : List Request) (now : Timestamp) (n : Nat) :
    SweepClean (server.envAt now) (dueResultWaits (server.envAt now) (run server rs).db n) (run server rs).session ↔
      (dueResultWaits (server.envAt now) (run server rs).db n).Pairwise (Apart (run server rs).db) := by
  have waits := run_waits server rs
  have start := MidSweep.start (s := (run server rs).session) rfl waits (run_checks server rs) fun _ hx =>
    dueResultWaits_open (e := server.envAt now) (n := n) hx
  refine (start.clean_iff (dueResultWaits_nodup _ n) fun x hx => waits.waitPair rfl (dueResultWaits_open hx)).trans ?_
  simp

/-! ## A chain of waits -/

def chainRun : List Request :=
  pairRun none ++
    [⟨0, .spawnTask childLease "child" 0 { taskName := some "grandchild", payload := some .null }⟩,
     ⟨0, .waitForResult childLease "result" 0 (Uuid.ofNat 5) (some 2000)⟩,
     ⟨0, .waitForResult ⟨Uuid.ofNat 1, 1, Uuid.ofNat 2⟩ "result" 0 (Uuid.ofNat 3) (some 1000)⟩]

def chainSweep : Request := ⟨2000000, .recoverResultWaitTimeouts 10⟩

theorem chain_due :
    (dueResultWaits (countingServer.envAt 2000000) (run countingServer chainRun).db 10).map
        (fun x => (x.1.taskId, x.2.resultTaskId)) =
      [(Uuid.ofNat 1, Uuid.ofNat 3), (Uuid.ofNat 3, Uuid.ofNat 5)] := by
  decide +kernel

theorem not_clean_of_chain {server : Server} {rs : List Request} {now : Timestamp} {n : Nat}
    {parent child grandchild : Uuid}
    (chain : (dueResultWaits (server.envAt now) (run server rs).db n).map (fun x => (x.1.taskId, x.2.resultTaskId)) =
      [(parent, child), (child, grandchild)]) :
    ¬ SweepClean (server.envAt now) (dueResultWaits (server.envAt now) (run server rs).db n)
      (run server rs).session := by
  obtain ⟨x, rest, hrows, hx, hrest⟩ := map_eq_cons_iff.mp chain
  obtain ⟨y, rest, rfl, hy, -⟩ := map_eq_cons_iff.mp hrest
  have hopen : OpenResult (run server rs).db x.1 x.2 :=
    dueResultWaits_open (e := server.envAt now) (n := n) (by rw [hrows]; exact mem_cons_self)
  obtain ⟨s', hs', round⟩ := timeOut_open (e := server.envAt now) rfl (run_waits server rs) (run_checks server rs) hopen
  rw [hrows]
  rintro ⟨-, -, s1, hs1, hlive, -⟩
  cases hs'.symm.trans hs1
  have hchild : y.1.taskId = x.2.resultTaskId := (Prod.mk.inj hy).1.trans (Prod.mk.inj hx).2.symm
  exact ((round.live _).mp hlive).2.1 hchild

theorem chain_not_clean : ¬ SweepClean (countingServer.envAt 2000000)
        (dueResultWaits (countingServer.envAt 2000000) (run countingServer chainRun).db 10)
        (run countingServer chainRun).session ∧
      ((run countingServer (chainRun ++ [chainSweep])).db.tasks.get? (Uuid.ofNat 3)).map Task.state =
        some .cancelled ∧
      ((run countingServer (chainRun ++ [chainSweep])).db.resultWaits.get? ⟨Uuid.ofNat 3, 1, "result", 0⟩).map
        ResultWait.outcome = some (some .timeout) ∧
      (run countingServer (chainRun ++ [chainSweep])).db.checkpoints.get? ⟨Uuid.ofNat 3, 1, "result", 0⟩ =
        some resultTimeout := by
  exact ⟨not_clean_of_chain chain_due, by decide +kernel⟩

end Pgtask
