import Pgtask.Invariant.Kept

/-!
# A checkpoint has one value

Every writer of checkpoints keeps a value that is already there, and every call
that answers with a checkpoint answers with the stored one. So the executions of
a step agree, whichever of them wrote it.
-/

open Sql List

namespace Pgtask

variable {e : Env} {l : Label} {s s' : Session} {server : Server} {rs rs' : List Request}
  {k : StepKey} {v : Json}

theorem Effect.checkpoint_stays (effect : Effect e l s s')
    (stored : s.db.checkpoints.get? k = some v) (hl : l ≠ .delete k.taskId) :
    s'.db.checkpoints.get? k = some v := by
  have delivered : ∀ (k' : StepKey) (v' : Json),
      (s.db.checkpoints.putNew k' v').get? k = some v := by
    intro k' v'
    rw [Table.get?_putNew]
    split
    · rename_i hk
      rw [← hk, stored]
      rfl
    · exact stored
  cases effect with
  | checkpoint _ _ free =>
    refine (Table.get?_put_of_ne _ _ ?_).trans stored
    rintro rfl
    rw [stored] at free
    cases free
  | deliver | deliverResult | staleTimeout => exact delivered _ _
  | @fireManage _ id old new =>
    obtain ⟨keys, hk⟩ := manage_tables e id old new s.db
    rw [hk]
    exact stored
  | @delete _ id t =>
    obtain ⟨keys, hk⟩ := deleteTask_spec e s.db id t
    rw [hk]
    refine Table.get?_delete_eq_some.mpr ⟨stored, decide_eq_false ?_⟩
    rintro rfl
    exact hl rfl
  | _ => exact stored

theorem RowKept.checkpoint (kept : RowKept server rs rs' k.taskId)
    (stored : (run server rs).db.checkpoints.get? k = some v) {a b : List Request}
    (hrs : rs' = a ++ b) : (run server (rs ++ a)).db.checkpoints.get? k = some v :=
  kept.keeps (I := fun s => s.db.checkpoints.get? k = some v)
    (fun _ _ _ _ hl effect h => effect.checkpoint_stays h hl) stored hrs

/-! ## Answers -/

/-- The step that a call names. A call with a lease names a step of the row's handler version. -/
def Call.stepKey (db : Database) : Call → Option StepKey
  | .getCheckpoint key => some key
  | .commitCheckpoint l stepName occurrence _ | .waitForSignal l stepName occurrence ..
  | .waitForResult l stepName occurrence .. =>
    (db.tasks.get? l.taskId).map fun t => ⟨l.taskId, t.handlerVersion, stepName, occurrence⟩
  | _ => none

def Reply.checkpointValue : Reply → Option Json
  | .checkpoint v => v
  | .wait (some (.ready v)) => some v
  | _ => none

/-- The call `r` returns `v` as the checkpoint of the step `k`. -/
def Answers (server : Server) (w : World) (r : Request) (k : StepKey) (v : Json) : Prop :=
  r.call.stepKey w.db = some k ∧
    ∃ reply, (step server w r).1 = .returned reply ∧ reply.checkpointValue = some v

theorem Answers.stored {w : World} {r : Request} (h : Answers server w r k v) :
    (step server w r).2.db.checkpoints.get? k = some v := by
  obtain ⟨hkey, reply', hout, hvalue⟩ := h
  rcases step_spec server w r with ⟨reply'', s', hexec, hs', hreturned, -⟩ | ⟨error, hraised, -⟩
  · obtain rfl : reply'' = reply' := by
      rw [hout] at hreturned
      cases hreturned
      rfl
    rw [← World.session_db, ← hs']
    have fencedKey : ∀ {l : Lease} {t : Task} {stepName : String} {occurrence : Int},
        fenced w.session.db l.taskId l.attempt l.leaseToken = some t →
        (w.db.tasks.get? l.taskId).map (fun t => (⟨l.taskId, t.handlerVersion, stepName,
          occurrence⟩ : StepKey)) = some k → k = ⟨l.taskId, t.handlerVersion, stepName, occurrence⟩ := by
      intro l t stepName occurrence hf hk
      obtain ⟨row, -⟩ := fenced_eq_some.mp hf
      rw [World.session_db] at row
      rw [row] at hk
      cases hk
      rfl
    have waited : ∀ {l : Lease} {stepName : String} {occurrence : Int} {answer : Option WaitReply},
        (w.db.tasks.get? l.taskId).map (fun t => (⟨l.taskId, t.handlerVersion, stepName,
          occurrence⟩ : StepKey)) = some k → Reply.wait answer = reply'' →
        (fenced w.session.db l.taskId l.attempt l.leaseToken = none → answer = none) →
        (∀ t, fenced w.session.db l.taskId l.attempt l.leaseToken = some t →
          Truthful s'.db ⟨l.taskId, t.handlerVersion, stepName, occurrence⟩ answer) →
        s'.db.checkpoints.get? k = some v := by
      intro l stepName occurrence answer hk hreply hlost htruth
      subst hreply
      cases hf : fenced w.session.db l.taskId l.attempt l.leaseToken with
      | none =>
        rw [hlost hf] at hvalue
        cases hvalue
      | some t =>
        have := htruth t hf
        rw [← fencedKey hf hk] at this
        match answer, hvalue with
        | some (.ready v'), hvalue =>
          cases hvalue
          exact this
    cases hcall : r.call with
    | getCheckpoint key =>
      rw [hcall] at hexec hkey
      cases hexec
      cases hkey
      exact hvalue
    | commitCheckpoint lease stepName occurrence value =>
      rw [hcall] at hexec hkey
      obtain ⟨a, hcommit, rfl⟩ := reply_ok hexec
      rcases commitCheckpoint_spec (e := server.envAt r.now) hcommit with
        ⟨rfl, -⟩ | ⟨t, stored, -, hf, rfl, -, -, -, hstored⟩
      · cases hvalue
      · rw [fencedKey hf hkey]
        cases hvalue
        exact hstored
    | waitForSignal lease stepName occurrence signalName signalOccurrence ms =>
      rw [hcall] at hexec hkey
      obtain ⟨a, hwait, hreply⟩ := reply_ok hexec
      obtain ⟨-, -, hlost, htruth⟩ := waitForSignal_spec hwait
      exact waited hkey hreply hlost htruth
    | waitForResult lease stepName occurrence child ms =>
      rw [hcall] at hexec hkey
      obtain ⟨a, hwait, hreply⟩ := reply_ok hexec
      obtain ⟨-, -, hlost, htruth⟩ := waitForResult_spec hwait
      exact waited hkey hreply hlost htruth
    | _ =>
      rw [hcall] at hkey
      cases hkey
  · rw [hout] at hraised
    cases hraised

/-! ## Steps of handlers -/

/-- Some execution that was claimed during `rs'` calls `TaskContext::step` for the step `k` during
`rs'` and gets `Ok(v)`. -/
def StepReturns (server : Server) (rs rs' : List Request) (k : StepKey) (v : Json) : Prop :=
  ∃ a r b during after c cancelled stepName occurrence operation,
    rs' = a ++ r :: b ++ (during ++ after) ∧ Executes server (rs ++ a) r c ∧
      c.key stepName occurrence = k ∧
      Yields server (rs ++ (a ++ r :: b)) (c.step cancelled stepName occurrence operation) during v

theorem StepReturns.stored (kept : RowKept server rs rs' k.taskId)
    (h : StepReturns server rs rs' k v) :
    ∃ a b, rs' = a ++ b ∧ (run server (rs ++ a)).db.checkpoints.get? k = some v := by
  obtain ⟨a, r, b, during, after, c, cancelled, stepName, occurrence, operation, rfl, hclaim, rfl,
    hstep⟩ := h
  rcases Yields.of_step hstep with ⟨before, rest, rfl, hstored⟩ |
    ⟨before, r', rest, value, reply', rfl, hcall, hreply, hvalue⟩
  · refine ⟨a ++ r :: b ++ before, rest ++ after, by simp, ?_⟩
    rwa [← append_assoc]
  · -- The row still has the handler version it was claimed with.
    obtain ⟨-, t, row, hversion⟩ := hclaim.claimed
    have htail := kept.suffix (a := a ++ [r]) (b := b ++ (before ++ r' :: rest ++ after)) (by simp)
    rw [append_assoc] at row
    obtain ⟨t', row', hfixed⟩ := htail.fixed row (a := b ++ before) (b := r' :: (rest ++ after)) (by simp)
    simp only [Task.fixed, Prod.mk.injEq] at hfixed
    have htaken : rs ++ (a ++ [r]) ++ (b ++ before) = rs ++ (a ++ r :: b) ++ before := by simp
    rw [htaken] at row'
    have answers : Answers server (run server (rs ++ (a ++ r :: b) ++ before)) r'
        (c.key stepName occurrence) v := by
      refine ⟨?_, reply', hreply, ?_⟩
      · rw [hcall]
        show ((run server (rs ++ (a ++ r :: b) ++ before)).db.tasks.get?
          (c.key stepName occurrence).taskId).map _ = _
        rw [row', Option.map_some, hfixed.2.2.1, hversion]
        rfl
      · cases reply' with
        | checkpoint x => exact hvalue
        | _ => cases hvalue
    refine ⟨a ++ r :: b ++ before ++ [r'], rest ++ after, by simp, ?_⟩
    rw [← append_assoc, run_concat, ← append_assoc]
    exact answers.stored

theorem RowKept.checkpoint_agrees (kept : RowKept server rs rs' k.taskId) {a b c d : List Request}
    {v' : Json} (ha : rs' = a ++ b) (hc : rs' = c ++ d)
    (stored : (run server (rs ++ a)).db.checkpoints.get? k = some v)
    (stored' : (run server (rs ++ c)).db.checkpoints.get? k = some v') : v = v' := by
  -- One of the two moments comes first.
  rcases append_eq_append_iff.mp (ha.symm.trans hc) with ⟨x, rfl, rfl⟩ | ⟨x, rfl, rfl⟩
  · have := (kept.suffix ha).checkpoint stored (a := x) (b := d) rfl
    rw [append_assoc] at this
    exact Option.some.inj (this.symm.trans stored')
  · have := (kept.suffix hc).checkpoint stored' (a := x) (b := b) rfl
    rw [append_assoc] at this
    exact Option.some.inj (stored.symm.trans this)

/-- As long as the row of a task is there, a checkpoint of the task keeps its value, every call
that answers with it answers with that value, and all executions of its step return one value. -/
theorem checkpoints_agree (server : Server) (rs rs' : List Request) (k : StepKey)
    (kept : RowKept server rs rs' k.taskId) :
    (∀ a b v, rs' = a ++ b → (run server (rs ++ a)).db.checkpoints.get? k = some v →
      (∀ c d, b = c ++ d → (run server (rs ++ a ++ c)).db.checkpoints.get? k = some v) ∧
        ∀ c r d v', b = c ++ r :: d → Answers server (run server (rs ++ a ++ c)) r k v' → v' = v) ∧
      ∀ v v', StepReturns server rs rs' k v → StepReturns server rs rs' k v' → v = v' := by
  refine ⟨fun a b v hrs stored => ?_, fun v v' h h' => ?_⟩
  · have stays := fun {c d} (hb : b = c ++ d) => (kept.suffix hrs).checkpoint stored hb
    refine ⟨fun c d hb => stays hb, fun c r d v' hb answers => ?_⟩
    have hafter := stays (c := c ++ [r]) (d := d) (by rw [hb, append_assoc]; rfl)
    rw [← append_assoc, run_concat, answers.stored] at hafter
    exact Option.some.inj hafter
  · obtain ⟨a, b, ha, stored⟩ := h.stored kept
    obtain ⟨c, d, hc, stored'⟩ := h'.stored kept
    exact kept.checkpoint_agrees ha hc stored stored'

def replayRun : List Request :=
  [⟨1, .claim "default" (Uuid.ofNat 100) ["a"] [1] 1 1000⟩,
   ⟨2, .getCheckpoint ⟨Uuid.ofNat 1, 1, "s", 0⟩⟩,
   ⟨3, .commitCheckpoint ⟨Uuid.ofNat 1, 1, Uuid.ofNat 2⟩ "s" 0 (.bool true)⟩,
   ⟨2000000, .recoverExpired "default" 1⟩,
   ⟨2000001, .claim "default" (Uuid.ofNat 100) ["a"] [1] 1 1000⟩,
   ⟨2000002, .getCheckpoint ⟨Uuid.ofNat 1, 1, "s", 0⟩⟩]

theorem replayRun_agrees :
    let rs : List Request := [⟨0, .enqueue { taskName := some "a", payload := some .null }⟩]
    let k : StepKey := ⟨Uuid.ofNat 1, 1, "s", 0⟩
    RowKept countingServer rs replayRun k.taskId ∧
      StepReturns countingServer rs replayRun k (.bool true) ∧
      ∀ v, StepReturns countingServer rs replayRun k v → v = .bool true := by
  intro rs k
  have kept : RowKept countingServer rs replayRun k.taskId := rowKept_of_fin (by decide +kernel)
  have first : StepReturns countingServer rs replayRun k (.bool true) := by
    refine ⟨[], replayRun.get ⟨0, by decide⟩, [], (replayRun.drop 1).take 2, replayRun.drop 3,
      ⟨Uuid.ofNat 1, 1, 1, Uuid.ofNat 2⟩, false, "s", 0, pure (.bool true), rfl, ?_, rfl, ?_⟩
    · unfold Executes
      decide +kernel
    · have read : answer countingServer (rs ++ replayRun.take 1) (replayRun.get ⟨1, by decide⟩) =
          some (.checkpoint none) := by decide +kernel
      have commit : answer countingServer (rs ++ replayRun.take 1 ++ [replayRun.get ⟨1, by decide⟩])
          (replayRun.get ⟨2, by decide⟩) = some (.checkpoint (some (.bool true))) := by decide +kernel
      exact Client.Runs.answered read (.answered commit .ret)
  exact ⟨kept, first, fun v h => (checkpoints_agree countingServer rs replayRun k kept).2 v _ h first⟩

end Pgtask
