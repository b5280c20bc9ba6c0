import Pgtask.Invariant.Timeouts

/-!
# Answers to result waits

What one call makes of a result wait that is open: it stays open, it is closed
without a checkpoint because its task has finished, or it is answered with the
columns of the finished child or with a timeout that cancels the child.
-/

open Sql Checked

namespace Pgtask

variable {e : Env} {l : Label} {s s' : Session} {db db' : Database} {k : StepKey} {w : ResultWait} {server : Server}

/-! ## Calls that finish nobody -/

/-- The effects that neither finish a task nor touch an open result wait. -/
def Label.quiet : Label → Bool
  | .complete _ | .fail _ | .cancel _ | .deliverResult _ | .staleTimeout _ | .fireCancel _ | .fireResolve _
  | .reorder => false
  | _ => true

theorem Call.kinds (c : Call) :
    c.finishes = true ∨ (∃ n, c = .recoverResultWaitTimeouts n) ∨ ∀ l, c.effects l → l.quiet = true := by
  cases c with
  | completeTask | completeTasks | failTask | failTasks | recoverExpired | cancelTask | adminCancelTask =>
    exact .inl rfl
  | recoverResultWaitTimeouts n => exact .inr (.inl ⟨n, rfl⟩)
  | _ =>
    refine .inr (.inr fun l hl => ?_)
    cases l <;> first
      | rfl
      | simp [Call.effects, Label.enqueues, Label.spawns, Label.freshlySpawns, Label.waits, Label.bookkeeping,
          Label.materializes] at hl

theorem Effect.quiet_live {x : Uuid} (effect : Effect e l s s') (hl : l.quiet = true) (alive : Live s.db x) :
    Live s'.db x := by
  obtain ⟨t, row, ho⟩ := alive
  have step := effect.row x
  rw [row] at step
  obtain ⟨t', row', -, hgoes⟩ := step.goes_on ho
  refine ⟨t', row', hgoes.resolve_right ?_⟩
  rintro ⟨-, -, rfl | rfl | rfl⟩ <;> cases hl

theorem Effect.quiet_open (effect : Effect e l s s') (hl : l.quiet = true) (inv : WaitInv s)
    (hopen : OpenResult s.db k w) : OpenResult s'.db k w := by
  refine ⟨?_, hopen.2⟩
  cases effect with
  | @parkResult _ j _ t _ row running =>
    -- Who runs has no open wait.
    have hne : k ≠ j := by
      rintro rfl
      exact not_parked_running row running (inv.results k w hopen).1
    exact (Table.get?_put_of_ne _ _ hne).trans hopen.1
  | @delete _ id t row finished childless idle =>
    obtain ⟨keys, hd⟩ := deleteTask_spec e s.db id t
    have pair := inv.waitPair idle hopen
    have hother : ∀ x, Live s.db x → x ≠ id := by
      rintro x alive rfl
      exact not_live_of_terminal row finished alive
    rw [hd, Table.get?_delete_eq_some, Bool.or_eq_false_iff, decide_eq_false_iff_not, decide_eq_false_iff_not]
    exact ⟨hopen.1, hother _ pair.waiter, hother _ pair.child⟩
  | @fireManage _ id old new =>
    obtain ⟨keys, hdb⟩ := manage_tables e id old new s.db
    rw [hdb]
    exact hopen.1
  | deliverResult | staleTimeout | fireResolve => cases hl
  | _ => exact hopen.1

theorem quiet_path {ls : List Label} (path : Effects e ls s s') (hls : ∀ l ∈ ls, l.quiet = true) (inv : WaitInv s)
    (hopen : OpenResult s.db k w) : OpenResult s'.db k w ∧ WaitInv s' :=
  path.keeps (P := fun s => OpenResult s.db k w ∧ WaitInv s)
    (fun l _ _ (hl : l.quiet = true) effect h => ⟨effect.quiet_open hl h.2 h.1, effect_keeps_waits effect h.2⟩) hls
    ⟨hopen, inv⟩

/-! ## One step -/

def Cancels (db db' : Database) (x : Uuid) : Prop :=
  Live db x ∧ ∃ t, db'.tasks.get? x = some t ∧ t.state = .cancelled

def Call.timesOut (e : Env) (db : Database) : Call → Uuid → Prop
  | .recoverResultWaitTimeouts n, x => ∃ row ∈ dueResultWaits e db n.toNat, row.2.resultTaskId = x
  | _, _ => False

def Call.targets (e : Env) (db : Database) (c : Call) (x : Uuid) : Prop :=
  (c.acts e db x ∨ c.cancels x) ∨ c.timesOut e db x

inductive Answer (e : Env) (call : Call) (db db' : Database) (k : StepKey) (w : ResultWait) : Prop
  | stays (row : db'.resultWaits.get? k = some w) (absent : db'.checkpoints.get? k = none)
  | cut (row : db'.resultWaits.get? k = some (w.cancelledAt e.now)) (absent : db'.checkpoints.get? k = none)
      (ended : ¬ Live db' k.taskId)
  | result {c : Task} (row : db'.resultWaits.get? k = some (w.answered e.now c))
      (child : db'.tasks.get? w.resultTaskId = some c) (finished : c.state.terminal = true)
      (written : db'.checkpoints.get? k = some c.checkpoint) (target : call.targets e db w.resultTaskId)
  | timeout (row : db'.resultWaits.get? k = some { w with resolvedAt := some e.now, outcome := some .timeout })
      (written : db'.checkpoints.get? k = some resultTimeout) (target : call.targets e db w.resultTaskId)
      (ended : ∀ x, x = w.resultTaskId ∨ Under db w.resultTaskId x → Cancels db db' x)

theorem Change.cancels {gone : Uuid → Prop} {x : Uuid} (change : Change e (fun _ => False) gone db db') (alive : Live db x)
    (dead : ¬ Live db' x) : Cancels db db' x := by
  obtain ⟨t, row, ho⟩ := alive
  exact ⟨⟨t, row, ho⟩, (change.cancelled x t row ho id dead).1⟩

theorem SweepDone.answer {n : Nat} (done : SweepDone e (dueResultWaits e s.db n) s s') (idle : s.queued = [])
    (inv : WaitInv s) (hopen : OpenResult s.db k w) :
    Answer e (.recoverResultWaitTimeouts n) s.db s'.db k w := by
  have hfree := (inv.results k w hopen).2.1
  by_cases hk : k ∈ (dueResultWaits e s.db n).map Prod.fst
  · obtain ⟨⟨_, w'⟩, hx, rfl⟩ := List.mem_map.mp hk
    cases hopen.1.symm.trans (dueResultWaits_open hx).1
    obtain ⟨hdead, hwritten, hrow⟩ := done.fetched _ hx
    rw [hfree, Option.getD_none] at hwritten
    have alive := (inv.waitPair idle hopen).child
    refine .timeout hrow hwritten (.inr ⟨_, hx, rfl⟩) ?_
    rintro x (rfl | hunder)
    · exact done.change.cancels alive hdead
    · exact done.change.cancels (Spread.Doomed.alive hunder) (done.down.under alive hdead hunder)
  · obtain ⟨hcheckpoint, hsame | ⟨v, hv, hdead, hclosed⟩⟩ := done.others k hk
    · exact .stays (hsame.trans hopen.1) (hcheckpoint.trans hfree)
    · cases hopen.1.symm.trans hv.1
      exact .cut hclosed (hcheckpoint.trans hfree) hdead

theorem openResult_step (server : Server) (rs : List Request) (r : Request) (hopen : OpenResult (run server rs).db k w) :
    Answer (server.envAt r.now) r.call (run server rs).db (step server (run server rs) r).2.db k w := by
  have inv := run_waits server rs
  have hfree := (inv.results k w hopen).2.1
  rcases step_spec server (run server rs) r with ⟨reply, s', hexec, hs', -, ls, path, hls⟩ | ⟨error, -, hw⟩
  swap
  · rw [hw]
    exact .stays hopen.1 hfree
  rcases r.call.kinds with hfinishes | ⟨n, hcall⟩ | hquiet
  · obtain ⟨s1, s2, audit, burst, hlast⟩ := exec_burst rfl inv hfinishes hexec
    have hdb : (step server (run server rs) r).2.db = { s2.db with administratorAudit := audit } := by
      rw [← World.session_db, ← hs', hlast]
    rw [hdb]
    rcases burst.results hopen with ⟨hrow, habsent⟩ | ⟨hrow, habsent, hdead⟩ | ⟨c, hc, hdone, hended, hrow, hwritten⟩
    · exact .stays hrow habsent
    · exact .cut hrow habsent hdead
    · have alive := (inv.waitPair rfl hopen).child
      exact .result hrow hc hdone hwritten (.inl (burst.stated.fallen _ alive hended))
  · rw [hcall] at hexec
    obtain ⟨count, hrecover, -⟩ := reply_ok hexec
    obtain ⟨n, rfl⟩ : ∃ m : Nat, n = m := by
      obtain ⟨m, hm, -⟩ := bind_ok hrecover
      exact Int.eq_ofNat_of_zero_le (limit_ok hm).2
    obtain ⟨s1, hdone, done⟩ := recoverResultWaitTimeouts_done (e := server.envAt r.now) rfl inv (run_checks server rs) n
    cases hrecover.symm.trans hdone
    rw [← World.session_db (step server (run server rs) r).2, ← hs']
    rw [hcall]
    exact done.answer rfl inv hopen
  · obtain ⟨hopen', inv'⟩ := quiet_path path (fun l hl => hquiet l (hls l hl)) inv hopen
    exact .stays hopen'.1 (inv'.results k w hopen').2.1

/-! ## Registration -/

end Pgtask
