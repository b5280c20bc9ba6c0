import Pgtask.Invariant.Budget
import Pgtask.Invariant.Fence
import Pgtask.Worker.TaskContext

/-!
# While a task's row is there

Only retention deletes a task. What every other effect keeps about a task holds
as long as its row is there.
-/

open Sql List

namespace Pgtask

variable {e : Env} {server : Server} {rs rs' : List Request} {id : Uuid}

/-- The row of the task is there in every state from `rs` on. -/
def RowKept (server : Server) (rs rs' : List Request) (id : Uuid) : Prop :=
  ∀ a b, rs' = a ++ b → ((run server (rs ++ a)).db.tasks.get? id).isSome = true

theorem rowKept_of_fin (h : ∀ i : Fin (rs'.length + 1),
    ((run server (rs ++ rs'.take i)).db.tasks.get? id).isSome = true) : RowKept server rs rs' id := by
  rintro a b rfl
  have := h ⟨a.length, by rw [length_append]; omega⟩
  rwa [take_left] at this

theorem deleted_row {ls : List Label} {s s' : Session} (path : Effects e ls s s')
    (h : ∀ l ∈ ls, ∃ j, l = .delete j) (hid : .delete id ∈ ls) : s'.db.tasks.get? id = none := by
  obtain ⟨before, after, s1, s2, rfl, -, effect, tail⟩ := path.split hid
  have hnone : s2.db.tasks.get? id = none := by
    cases effect with
    | delete row finished childless =>
      rw [deleteTask_get? _ childless, if_pos rfl]
  rcases deletes_row tail (fun l hl => h l (by simp [hl])) id with hsame | hgone
  · rw [hsame, hnone]
  · exact hgone

theorem step_without_delete {w : World} {r : Request}
    (row : ((step server w r).2.db.tasks.get? id).isSome = true) :
    ∃ ls, Effects (server.envAt r.now) ls w.session (step server w r).2.session ∧
      (∀ l ∈ ls, r.call.effects l) ∧ .delete id ∉ ls := by
  rcases step_spec server w r with ⟨-, -, -, -, -, ls, path, hls⟩ | ⟨-, -, hw⟩
  · refine ⟨ls, path, hls, fun hid => ?_⟩
    obtain ⟨queueName, n, hcall⟩ := effects_no_delete (hls _ hid)
    rw [hcall] at hls
    have hgone := deleted_row path hls hid
    rw [World.session_db] at hgone
    rw [hgone] at row
    cases row
  · exact ⟨[], by rw [hw]; exact .nil _, by simp, by simp⟩

theorem RowKept.keeps {I : Session → Prop} (kept : RowKept server rs rs' id)
    (keeps : ∀ e l s s', l ≠ .delete id → Effect e l s s' → I s → I s')
    (start : I (run server rs).session) {a b : List Request} (hrs : rs' = a ++ b) :
    I (run server (rs ++ a)).session := by
  induction a using List.reverseRecOn generalizing b with
  | nil => simpa using start
  | append_singleton a r ih =>
    rw [append_assoc] at hrs
    have before := ih hrs
    have row := kept (a ++ [r]) b (by rw [hrs, append_assoc])
    rw [← append_assoc, run_concat] at row ⊢
    obtain ⟨ls, path, -, hid⟩ := step_without_delete row
    have hls : ∀ l ∈ ls, l ≠ .delete id := fun l hl h => hid (h ▸ hl)
    exact path.keeps (fun l s s' (hl : l ≠ .delete id) => keeps _ l s s' hl) hls before

theorem RowKept.suffix {a b : List Request} (kept : RowKept server rs rs' id) (hrs : rs' = a ++ b) :
    RowKept server (rs ++ a) b id := by
  intro c d hb
  rw [append_assoc]
  exact kept (a ++ c) d (by rw [hrs, hb, append_assoc])

theorem RowKept.fixed {t : Task} (kept : RowKept server rs rs' id)
    (row : (run server rs).db.tasks.get? id = some t) {a b : List Request} (hrs : rs' = a ++ b) :
    ∃ t', (run server (rs ++ a)).db.tasks.get? id = some t' ∧ t'.fixed = t.fixed := by
  refine kept.keeps (I := fun s => ∃ t', s.db.tasks.get? id = some t' ∧ t'.fixed = t.fixed) ?_
    ⟨t, row, rfl⟩ hrs
  rintro e l s s' hl effect ⟨t1, row1, hfixed⟩
  have step := effect.row id
  rw [row1] at step
  rcases step.stays with hstays | hdelete
  · obtain ⟨t2, row2⟩ := Option.isSome_iff_exists.mp hstays
    rw [row2] at step
    refine ⟨t2, row2, ?_⟩
    rcases step.fixed with ⟨t3, h3, hsame⟩ | ⟨hnone, -⟩
    · cases h3
      exact hsame.trans hfixed
    · cases hnone
  · exact absurd hdelete hl

/-! ## Executions -/

/-- The context in which a worker runs a claimed row, if the row decodes. -/
def contextOf (row : Uuid × Task) : Option TaskContext :=
  match TaskRecord.tryFrom row with
  | .ok task => task.leaseToken.map (TaskContext.new task)
  | .error _ => none

/-- The claim `r` after `rs` has handed out the task that runs in the context `c`. -/
def Executes (server : Server) (rs : List Request) (r : Request) (c : TaskContext) : Prop :=
  c ∈ (step server (run server rs) r).1.rows.filterMap contextOf

theorem Executes.claimed {r : Request} {c : TaskContext} (h : Executes server rs r c) :
    c.lease ∈ handsOut server (run server rs) r ∧
      ∃ t, (run server (rs ++ [r])).db.tasks.get? c.taskId = some t ∧
        t.handlerVersion = c.handlerVersion := by
  obtain ⟨row, hrow, hcontext⟩ := mem_filterMap.mp h
  unfold contextOf at hcontext
  split at hcontext
  case h_2 => cases hcontext
  rename_i task hdecode
  obtain ⟨token, htoken, rfl⟩ := Option.map_eq_some_iff.mp hcontext
  obtain ⟨hid, hversion, hattempt, hlease⟩ := TaskRecord.tryFrom_ok hdecode
  unfold Outcome.rows at hrow
  split at hrow
  · rename_i rows hout
    constructor
    · unfold handsOut
      rw [hout]
      refine mem_filterMap.mpr ⟨row, hrow, ?_⟩
      rw [leaseOf, ← hlease, htoken, Option.map_some]
      simp [TaskContext.lease, TaskContext.new, hid, hattempt]
    · refine ⟨row.2, ?_, hversion⟩
      rcases step_spec server (run server rs) r with
        ⟨reply', s', hexec, hs', hreturned, -⟩ | ⟨error, hraised, -⟩
      · rw [hout] at hreturned
        cases hreturned
        obtain ⟨queueName, worker, names, versions, n, ms, hcall⟩ := exec_tasks hexec
        rw [hcall] at hexec
        obtain ⟨claimed, hclaim, hreply⟩ := reply_ok hexec
        cases hreply
        obtain ⟨-, -, -, -, -, hin⟩ := claim_spec hclaim
        have := (hin row hrow).1
        rw [hs', World.session_db] at this
        rw [run_concat, show (TaskContext.new task token).taskId = row.1 from hid]
        exact this
      · rw [hout] at hraised
        cases hraised
  · cases hrow

end Pgtask
