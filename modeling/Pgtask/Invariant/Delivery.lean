import Pgtask.Invariant.Finish
import Pgtask.Invariant.Signals

/-!
# Values that arrive

A result and a signal are measured where they are stored, and once more, inside an
object, where a step that waits for them gets its checkpoint. So a value can be
stored and yet be too large to arrive.
-/

open Sql Checked List

namespace Pgtask

variable {v : Json} {id : Uuid} {s : Session} {t : Task} {l : Lease} {key : SignalKey}

variable {e : Env} {server : Server} {w : World} {now : Timestamp} {value : Json}

/-! ## Sizes -/

theorem resultCheckpoint_octetLength (v : Json) :
    (resultCheckpoint "succeeded" (some v) none).octetLength = v.octetLength + 49 := by
  have herror : (quoted "error").utf8ByteSize = 7 := by decide +kernel
  have hnull : "null".utf8ByteSize = 4 := by decide +kernel
  have hstate : (quoted "state").utf8ByteSize = 7 := by decide +kernel
  have hsucceeded : (quoted "succeeded").utf8ByteSize = 11 := by decide +kernel
  have hresult : (quoted "result").utf8ByteSize = 8 := by decide +kernel
  have hopening : "\x7b".utf8ByteSize = 1 := by decide +kernel
  have hclosing : "\x7d".utf8ByteSize = 1 := by decide +kernel
  have hcolon : ": ".utf8ByteSize = 2 := by decide +kernel
  have hcomma : ", ".utf8ByteSize = 2 := by decide +kernel
  unfold Json.octetLength resultCheckpoint Json.ofOption
  simp only [Json.text, Json.fieldTexts, String.intercalate_cons_cons, String.intercalate_singleton,
    String.utf8ByteSize_append]
  omega

theorem checkpointChecks_iff {k : StepKey} :
    Holds (checkpointChecks k v) ↔ Holds (k.checks "checkpoints") ∧ v.octetLength ≤ 1048576 := by
  unfold Holds checkpointChecks
  simp only [mem_append, mem_singleton, or_imp, forall_and, forall_eq, decide_eq_true_eq]

/-! ## Rows of succeeded tasks -/

theorem RowStep.succeeded {db : Database} {l : Label} {row : Option Task} {t' : Task}
    (step : RowStep e db id l row (some t')) (succeeded : t'.state = .succeeded) :
    t'.error = none ∨ ∃ t, row = some t ∧ t.state = .succeeded ∧ t'.error = t.error := by
  generalize hnew : some t' = new at step
  cases step with
  | same => exact .inr ⟨t', hnew.symm, succeeded, rfl⟩
  | complete =>
    cases hnew
    exact .inl rfl
  | renew running =>
    cases hnew
    cases running.symm.trans succeeded
  | fail =>
    cases hnew
    rcases Task.failedWith_cases .. with ⟨hstate, -⟩ | ⟨hstate, -⟩ <;> cases hstate.symm.trans succeeded
  | insert new =>
    cases hnew
    cases new.state.symm.trans succeeded
  | adopt =>
    cases hnew
    exact .inr ⟨_, rfl, succeeded, rfl⟩
  | wake =>
    obtain ⟨t, rfl, rfl⟩ := Option.map_eq_some_iff.mp hnew.symm
    unfold Task.woken at succeeded ⊢
    split at succeeded
    · cases succeeded
    · rename_i hw
      rw [if_neg hw]
      exact .inr ⟨t, rfl, succeeded, rfl⟩
  | delete => cases hnew
  | _ =>
    cases hnew
    cases succeeded

def SucceededInv (db : Database) : Prop :=
  ∀ id t, db.tasks.get? id = some t → t.state = .succeeded → t.error = none

theorem run_succeeded (server : Server) (rs : List Request) : SucceededInv (run server rs).db := by
  refine run_keeps (I := fun s => SucceededInv s.db) (fun _ _ h => nomatch h) ?_ rs
  intro e l s s' effect h id t row succeeded
  have hrow := effect.row id
  rw [row] at hrow
  rcases hrow.succeeded succeeded with hnone | ⟨t0, hold, hstate, herror⟩
  · exact hnone
  · exact herror.trans (h id t0 hold hstate)

/-! ## Results -/

theorem returned_iff {r : Request} {reply : Reply} : (step server w r).1 = .returned reply ↔
    ∃ s', exec (server.envAt r.now) r.call w.session = .ok (reply, s') := by
  constructor
  · intro h
    obtain ⟨s', hs', -⟩ := step_returned h
    exact ⟨s', hs'⟩
  · rintro ⟨s', hs'⟩
    rw [step_of_exec hs']

theorem answerReady_returns_iff {k : StepKey}
    (row : s.db.tasks.get? k.taskId = some t) (key : Holds (k.checks "checkpoints"))
    (fresh : s.db.checkpoints.get? k = none) :
    (∃ s', (answerReady k v s).map (reply .wait) = .ok (.wait (some (.ready v)), s')) ↔ v.octetLength ≤ 1048576 := by
  constructor
  · rintro ⟨s', hs'⟩
    obtain ⟨_, hready, -⟩ := map_eq_ok.mp hs'
    obtain ⟨⟨stored, s1⟩, hsave, -⟩ := bind_ok hready
    exact (checkpointChecks_iff.mp (saveCheckpoint_spec hsave).2.2).2
  · intro size
    have hsave := saveCheckpoint_returns row (checkpointChecks_iff.mpr ⟨key, size⟩)
    rw [fresh] at hsave
    exact ⟨_, map_eq_ok.mpr ⟨_, bind_eq_ok.mpr ⟨_, hsave, rfl⟩, rfl⟩⟩

theorem Holds.completed (h : Holds (t.checks id)) (size : value.octetLength ≤ 1048576) :
    Holds ((t.completed now (some value)).checks id) := by
  unfold Holds Task.checks Task.completed at *
  simp only [forall_mem_cons] at *
  simp_all

theorem completeRow_finishes (idle : s.queued = []) (waits : WaitInv s)
    (checks : ChecksInv s.db) (row : s.db.tasks.get? id = some t) (running : t.state = .running)
    (size : value.octetLength ≤ 1048576) :
    ∃ f, completeRow e id t (some value) s = .ok (s.finish id t (t.completed e.now (some value)) f) ∧
      s.Finishes id t (t.completed e.now (some value)) f := by
  have checked : Holds ((t.completed e.now (some value)).checks id) := (checks.tasks id t row).completed size
  have hrow := updateTask_returns (s := s) (running_outstanding running) checked
  have hattempt := updateAttempt_returns (s := s.write id t (t.completed e.now (some value))) (k := (id, t.attempt))
    (f := fun a => { a with state := .succeeded, finishedAt := some e.now, error := none })
    fun _ _ => checked.error rfl
  refine ⟨_, bind_eq_ok.mpr ⟨_, hrow, hattempt⟩, idle, row, running_outstanding running, rfl, rfl, waits, ?_⟩
  exact effect_keeps_checks (.complete row running checked) checks

theorem complete_returns_iff (waits : WaitInv w.session) (checks : ChecksInv w.db)
    (owned : fenced w.db l.taskId l.attempt l.leaseToken = some t) (size : value.octetLength ≤ 1048576) :
    (step server w ⟨now, .completeTask l (some value)⟩).1 = .returned (.flag true) ↔
      ((∃ k, Awaited w.db l.taskId k) → value.octetLength + 49 ≤ 1048576) := by
  obtain ⟨row, running, -⟩ := fenced_eq_some.mp owned
  obtain ⟨f, hrow, hfinish⟩ := completeRow_finishes (e := server.envAt now) (s := w.session) rfl waits checks row
    running size
  have hsize : (t.completed (server.envAt now).now (some value)).checkpoint.octetLength = value.octetLength + 49 :=
    resultCheckpoint_octetLength value
  have hfire := finish_returns_iff (e := server.envAt now) hfinish
  have hexec : exec (server.envAt now) (.completeTask l (some value)) w.session =
      (fireTriggers (server.envAt now)
        (w.session.finish l.taskId t (t.completed (server.envAt now).now (some value)) f)).map (.flag true, ·) := by
    change (completeTask _ l.taskId l.attempt l.leaseToken (some value) w.session).map (reply .flag) = _
    unfold completeTask
    rw [World.session_db, owned]
    simp only [hrow, bind, Except.bind]
    cases fireTriggers (server.envAt now) _ <;> rfl
  rw [returned_iff, hexec]
  simp only [map_eq_ok, Prod.mk.injEq, true_and, exists_eq_right, hfire, checkpointChecks_iff, hsize]
  constructor
  · rintro fits ⟨k, hk⟩
    exact (fits k hk).2
  · intro fits k hk
    obtain ⟨w, _, hopen, -⟩ := id hk
    have hkey := checks.resultWaits k w hopen.1
    exact ⟨(checkpointChecks_iff.mp (Holds.checkpoint (fun c hc => hkey c (mem_append_left _ hc)) size)).1,
      fits ⟨k, hk⟩⟩

theorem waitForResult_returns_iff {c : Task} {stepName : String} {occurrence : Int} {child : Uuid}
    {timeoutMilliseconds : Option Int} (waited : l.taskId ≠ child) (positive : timeoutMilliseconds.any (· ≤ 0) = false)
    (owned : fenced w.db l.taskId l.attempt l.leaseToken = some t)
    (key : Holds (StepKey.checks "checkpoints" ⟨l.taskId, t.handlerVersion, stepName, occurrence⟩))
    (fresh : w.db.checkpoints.get? ⟨l.taskId, t.handlerVersion, stepName, occurrence⟩ = none)
    (row : w.db.tasks.get? child = some c) (parent : c.parentTaskId = some l.taskId)
    (succeeded : c.state = .succeeded) (result : c.result = some value) (clean : c.error = none) :
    (step server w ⟨now, .waitForResult l stepName occurrence child timeoutMilliseconds⟩).1 =
        .returned (.wait (some (.ready (resultCheckpoint "succeeded" (some value) none)))) ↔
      value.octetLength + 49 ≤ 1048576 := by
  obtain ⟨howner, -⟩ := fenced_eq_some.mp owned
  have hexec : exec (server.envAt now) (.waitForResult l stepName occurrence child timeoutMilliseconds) w.session =
      (answerReady ⟨l.taskId, t.handlerVersion, stepName, occurrence⟩
        (resultCheckpoint "succeeded" (some value) none) w.session).map (reply .wait) := by
    change (waitForResult _ l.taskId l.attempt l.leaseToken stepName occurrence child timeoutMilliseconds
      w.session).map (reply .wait) = _
    unfold waitForResult
    simp only [waited, if_false, positive, Bool.false_eq_true, World.session_db, owned, fresh, row, Option.filter_some,
      parent, decide_true, if_true, succeeded, result, clean]
    rfl
  rw [returned_iff, hexec, ← resultCheckpoint_octetLength]
  exact answerReady_returns_iff howner key fresh

/-! ## Signals -/

def Asks (db : Database) (key : SignalKey) (k : StepKey) : Prop := ∃ w, OpenWait db k w ∧ w.key k = key

def SignalKey.Valid (key : SignalKey) : Prop := validName 255 key.signalName = true ∧ 0 ≤ key.occurrence

theorem SignalKey.Valid.checks (h : key.Valid) (size : value.octetLength ≤ 1048576) :
    Holds (signalChecks key value) := by
  unfold Holds signalChecks
  simp [h.1, h.2, size]

theorem resolveWait_fits {s' : Session} {outcome : WaitOutcome} {x : StepKey × Wait}
    (h : resolveWait e v outcome s x = .ok s') : Holds (checkpointChecks x.1 v) := by
  obtain ⟨⟨stored, s1⟩, hsave, -⟩ := bind_ok h
  exact (saveCheckpoint_spec hsave).2.2

theorem resolveWaits_returns_iff {rows : List (StepKey × Wait)}
    (outcome : WaitOutcome) (row : s.db.tasks.get? id = some t) (checked : Holds (t.checks id))
    (own : ∀ x ∈ rows, x.1.taskId = id ∧ Holds (x.2.checks x.1)) :
    (∃ s', rows.foldlM (resolveWait e v outcome) s = .ok s') ↔ (rows ≠ [] → v.octetLength ≤ 1048576) := by
  constructor
  · rintro ⟨s', hs'⟩ hne
    obtain ⟨x, hx⟩ := exists_mem_of_ne_nil _ hne
    have hfits : x ∈ ([] : List (StepKey × Wait)) ∨ Holds (checkpointChecks x.1 v) := by
      refine foldlM_rule (fun rest _ => x ∈ rest ∨ Holds (checkpointChecks x.1 v)) ?_ hs' (.inl hx)
      intro y rest s1 s2 h hstep
      rcases h with hmem | hfits
      · rcases mem_cons.mp hmem with rfl | hmem
        · exact .inr (resolveWait_fits hstep)
        · exact .inl hmem
      · exact .inr hfits
    exact (checkpointChecks_iff.mp (hfits.resolve_left not_mem_nil)).2
  · intro size
    by_cases hnil : rows = []
    · exact ⟨s, by rw [hnil]; rfl⟩
    · obtain ⟨s', hs', -⟩ := resolveWaits_returns (e := e) outcome row checked (size hnil) own
      exact ⟨s', hs'⟩

theorem emit_returns_iff (checks : ChecksInv w.db) (valid : key.Valid)
    (row : w.db.tasks.get? key.taskId = some t) (unsent : w.db.signals.get? key = none)
    (size : value.octetLength ≤ 1048576) :
    (step server w ⟨now, .emitSignal key value⟩).1 = .returned (.signal value) ↔
      ((∃ k, Asks w.db key k) → value.octetLength + 32 ≤ 1048576) := by
  let s1 : Session := { w.session with db := { w.db with signals := w.db.signals.put key value } }
  have hsave : saveSignal key value w.session = .ok (value, s1) := by
    unfold saveSignal
    rw [require_of_holds (valid.checks size)]
    simp [bind, Except.bind, unsent, row, s1]
  let matching := w.db.waits.select fun j q => j.taskId = key.taskId && q.signalName = key.signalName &&
    q.signalOccurrence = key.occurrence && q.resolvedAt.isNone
  have hexec : exec (server.envAt now) (.emitSignal key value) w.session =
      (matching.foldlM (resolveWait (server.envAt now) (signalCheckpoint value) .signal) s1).map (.signal value, ·) := by
    change (emitSignal _ key value w.session).map (reply .signal) = _
    unfold emitSignal
    rw [hsave]
    change ((matching.foldlM (resolveWait (server.envAt now) (signalCheckpoint value) .signal) s1) >>=
      fun s => .ok (value, s)).map (reply .signal) = _
    cases matching.foldlM (resolveWait (server.envAt now) (signalCheckpoint value) .signal) s1 <;> rfl
  have hown : ∀ x ∈ matching, x.1.taskId = key.taskId ∧ Holds (x.2.checks x.1) := by
    intro x hx
    obtain ⟨hget, hkey, -⟩ := mem_matching.mp hx
    exact ⟨congrArg SignalKey.taskId hkey, checks.waits x.1 x.2 hget⟩
  have hasks : matching ≠ [] ↔ ∃ k, Asks w.db key k := by
    rw [ne_eq, eq_nil_iff_forall_not_mem, not_forall_not]
    constructor
    · rintro ⟨x, hx⟩
      obtain ⟨hget, hkey, hopen⟩ := mem_matching.mp hx
      exact ⟨x.1, x.2, ⟨hget, hopen⟩, hkey⟩
    · rintro ⟨k, q, ⟨hget, hopen⟩, hkey⟩
      exact ⟨(k, q), mem_matching.mpr ⟨hget, hkey, hopen⟩⟩
  rw [returned_iff, hexec]
  simp only [map_eq_ok, Prod.mk.injEq, true_and, exists_eq_right]
  rw [resolveWaits_returns_iff (s := s1) .signal row (checks.tasks _ t row) hown, hasks, signalCheckpoint_octetLength]

theorem emit_again {first : Json} (waits : WaitInv w.session) (valid : key.Valid)
    (sent : w.db.signals.get? key = some first) (size : value.octetLength ≤ 1048576) :
    (step server w ⟨now, .emitSignal key value⟩).1 = .returned (.signal first) := by
  have hsave : saveSignal key value w.session = .ok (first, w.session) := by
    unfold saveSignal
    rw [require_of_holds (valid.checks size)]
    simp [bind, Except.bind, sent]
  have hnone : (w.db.waits.select fun j q => j.taskId = key.taskId && q.signalName = key.signalName &&
      q.signalOccurrence = key.occurrence && q.resolvedAt.isNone) = [] := by
    rw [eq_nil_iff_forall_not_mem]
    intro x hx
    obtain ⟨hget, hkey, hopen⟩ := mem_matching.mp hx
    obtain ⟨-, -, hunsent⟩ := waits.waits x.1 x.2 ⟨hget, hopen⟩
    rw [hkey, World.session_db, sent] at hunsent
    cases hunsent
  rw [returned_iff]
  refine ⟨w.session, ?_⟩
  change (emitSignal _ key value w.session).map (reply .signal) = _
  unfold emitSignal
  rw [hsave]
  simp only [bind, Except.bind, World.session_db, hnone]
  rfl

theorem waitForSignal_returns_iff {stepName signalName : String}
    {occurrence signalOccurrence : Int} {timeoutMilliseconds : Option Int}
    (positive : timeoutMilliseconds.any (· < 0) = false)
    (owned : fenced w.db l.taskId l.attempt l.leaseToken = some t)
    (key : Holds (StepKey.checks "checkpoints" ⟨l.taskId, t.handlerVersion, stepName, occurrence⟩))
    (fresh : w.db.checkpoints.get? ⟨l.taskId, t.handlerVersion, stepName, occurrence⟩ = none)
    (sent : w.db.signals.get? ⟨l.taskId, signalName, signalOccurrence⟩ = some value) :
    (step server w ⟨now, .waitForSignal l stepName occurrence signalName signalOccurrence timeoutMilliseconds⟩).1 =
        .returned (.wait (some (.ready (signalCheckpoint value)))) ↔ value.octetLength + 32 ≤ 1048576 := by
  obtain ⟨howner, -⟩ := fenced_eq_some.mp owned
  have hexec : exec (server.envAt now)
      (.waitForSignal l stepName occurrence signalName signalOccurrence timeoutMilliseconds) w.session =
      (answerReady ⟨l.taskId, t.handlerVersion, stepName, occurrence⟩ (signalCheckpoint value) w.session).map
        (reply .wait) := by
    change (waitForSignal _ l.taskId l.attempt l.leaseToken stepName occurrence signalName signalOccurrence
      timeoutMilliseconds w.session).map (reply .wait) = _
    unfold waitForSignal
    simp only [positive, Bool.false_eq_true, if_false, World.session_db, owned, fresh, sent]
  rw [returned_iff, hexec, ← signalCheckpoint_octetLength]
  exact answerReady_returns_iff howner key fresh

/-! ## Deliveries -/

/-- The calls that hand on an accepted value, what they return if they succeed, and how many bytes
the value is measured with. -/
inductive Delivery (db : Database) (value : Json) : Call → Reply → Nat → Prop
  | complete {l : Lease} {t : Task} (owned : fenced db l.taskId l.attempt l.leaseToken = some t)
      (alone : ∀ k, ¬ Awaited db l.taskId k) : Delivery db value (.completeTask l (some value)) (.flag true) 0
  | completeAwaited {l : Lease} {t : Task} {k : StepKey}
      (owned : fenced db l.taskId l.attempt l.leaseToken = some t) (awaited : Awaited db l.taskId k) :
      Delivery db value (.completeTask l (some value)) (.flag true) 49
  | waitForResult {l : Lease} {t c : Task} {stepName : String} {occurrence : Int} {child : Uuid}
      {timeoutMilliseconds : Option Int} (waited : l.taskId ≠ child)
      (positive : timeoutMilliseconds.any (· ≤ 0) = false)
      (owned : fenced db l.taskId l.attempt l.leaseToken = some t)
      (key : Holds (StepKey.checks "checkpoints" ⟨l.taskId, t.handlerVersion, stepName, occurrence⟩))
      (fresh : db.checkpoints.get? ⟨l.taskId, t.handlerVersion, stepName, occurrence⟩ = none)
      (row : db.tasks.get? child = some c) (parent : c.parentTaskId = some l.taskId)
      (succeeded : c.state = .succeeded) (result : c.result = some value) :
      Delivery db value (.waitForResult l stepName occurrence child timeoutMilliseconds)
        (.wait (some (.ready (resultCheckpoint "succeeded" (some value) none)))) 49
  | emit {key : SignalKey} {t : Task} (valid : key.Valid) (row : db.tasks.get? key.taskId = some t)
      (unsent : db.signals.get? key = none) (alone : ∀ k, ¬ Asks db key k) :
      Delivery db value (.emitSignal key value) (.signal value) 0
  | emitAwaited {key : SignalKey} {t : Task} {k : StepKey} (valid : key.Valid)
      (row : db.tasks.get? key.taskId = some t) (unsent : db.signals.get? key = none) (asks : Asks db key k) :
      Delivery db value (.emitSignal key value) (.signal value) 32
  | emitAgain {key : SignalKey} {first : Json} (valid : key.Valid) (sent : db.signals.get? key = some first) :
      Delivery db value (.emitSignal key value) (.signal first) 0
  | waitForSignal {l : Lease} {t : Task} {stepName signalName : String} {occurrence signalOccurrence : Int}
      {timeoutMilliseconds : Option Int} (positive : timeoutMilliseconds.any (· < 0) = false)
      (owned : fenced db l.taskId l.attempt l.leaseToken = some t)
      (key : Holds (StepKey.checks "checkpoints" ⟨l.taskId, t.handlerVersion, stepName, occurrence⟩))
      (fresh : db.checkpoints.get? ⟨l.taskId, t.handlerVersion, stepName, occurrence⟩ = none)
      (sent : db.signals.get? ⟨l.taskId, signalName, signalOccurrence⟩ = some value) :
      Delivery db value (.waitForSignal l stepName occurrence signalName signalOccurrence timeoutMilliseconds)
        (.wait (some (.ready (signalCheckpoint value)))) 32

/-- An accepted value is delivered if and only if it also fits with the bytes around it. -/
theorem delivered_iff (server : Server) (rs : List Request) (now : Timestamp) {value : Json} {call : Call}
    {reply : Reply} {overhead : Nat} (accepted : value.octetLength ≤ 1048576)
    (delivery : Delivery (run server rs).db value call reply overhead) :
    (step server (run server rs) ⟨now, call⟩).1 = .returned reply ↔ value.octetLength + overhead ≤ 1048576 := by
  have waits := run_waits server rs
  have checks := run_checks server rs
  cases delivery with
  | complete owned alone =>
    rw [complete_returns_iff waits checks owned accepted]
    exact ⟨fun _ => accepted, fun _ ⟨k, hk⟩ => absurd hk (alone k)⟩
  | completeAwaited owned awaited =>
    rw [complete_returns_iff waits checks owned accepted]
    exact ⟨fun h => h ⟨_, awaited⟩, fun h _ => h⟩
  | waitForResult waited positive owned key fresh row parent succeeded result =>
    exact waitForResult_returns_iff waited positive owned key fresh row parent succeeded result
      (run_succeeded server rs _ _ row succeeded)
  | emit valid row unsent alone =>
    rw [emit_returns_iff checks valid row unsent accepted]
    exact ⟨fun _ => accepted, fun _ ⟨k, hk⟩ => absurd hk (alone k)⟩
  | emitAwaited valid row unsent asks =>
    rw [emit_returns_iff checks valid row unsent accepted]
    exact ⟨fun h => h ⟨_, asks⟩, fun h _ => h⟩
  | emitAgain valid sent =>
    exact ⟨fun _ => accepted, fun _ => emit_again waits valid sent accepted⟩
  | waitForSignal positive owned key fresh sent => exact waitForSignal_returns_iff positive owned key fresh sent

/-! ## A value of the largest size -/

theorem utf8Len_replicate (n : Nat) : String.utf8Len (List.replicate n 'a') = n := by
  induction n with
  | zero => rfl
  | succ n ih =>
    rw [replicate_succ, String.utf8Len_cons, ih]
    rfl

/-- A string of 1,048,574 letters, which is 1,048,576 bytes with its quotes. -/
def largest : Json := .str (String.ofList (List.replicate 1048574 'a'))

theorem largest_octetLength : largest.octetLength = 1048576 := by
  have hescape : escapeChar 'a' = ['a'] := by decide
  have hquote : "\"".utf8ByteSize = 1 := by decide +kernel
  unfold Json.octetLength largest
  simp only [Json.text, quoted, String.utf8ByteSize_append, String.toList_ofList, List.flatMap_replicate, hescape,
    List.flatten_replicate_singleton, String.utf8ByteSize_ofList, utf8Len_replicate, hquote]

def askingRun : List Request :=
  goStart ++ [⟨2, .waitForSignal ⟨Uuid.ofNat 1, 1, Uuid.ofNat 2⟩ "step" 0 "go" 0 none⟩]

theorem askingRun_asks : Asks (run countingServer askingRun).db ⟨Uuid.ofNat 1, "go", 0⟩ ⟨Uuid.ofNat 1, 1, "step", 0⟩ := by
  have hwait : ((run countingServer askingRun).db.waits.get? ⟨Uuid.ofNat 1, 1, "step", 0⟩).any
      (fun w => w.key ⟨Uuid.ofNat 1, 1, "step", 0⟩ = ⟨Uuid.ofNat 1, "go", 0⟩ && w.resolvedAt.isNone) = true := by
    decide +kernel
  obtain ⟨w, hw, hopen⟩ := (Option.any_eq_true _ _).mp hwait
  simp only [Bool.and_eq_true, decide_eq_true_eq, Option.isNone_iff_eq_none] at hopen
  exact ⟨w, ⟨hw, hopen.2⟩, hopen.1⟩

theorem askingRun_row : ∃ t, (run countingServer askingRun).db.tasks.get? (Uuid.ofNat 1) = some t :=
  Option.isSome_iff_exists.mp (by decide +kernel)

theorem largest_not_delivered : largest.octetLength ≤ 1048576 ∧
    (step countingServer (run countingServer waitingRun) ⟨1, .completeTask childLease (some largest)⟩).1 ≠
      .returned (.flag true) ∧
    (step countingServer (run countingServer askingRun) ⟨3, .emitSignal ⟨Uuid.ofNat 1, "go", 0⟩ largest⟩).1 ≠
      .returned (.signal largest) := by
  have hsize := largest_octetLength
  refine ⟨hsize.le, fun h => ?_, fun h => ?_⟩
  · obtain ⟨t, ht⟩ := Option.isSome_iff_exists.mp (by decide +kernel :
      (fenced (run countingServer waitingRun).db childLease.taskId childLease.attempt childLease.leaseToken).isSome)
    have := (complete_returns_iff (run_waits _ _) (run_checks _ _) ht hsize.le).mp h ⟨_, waitingRun_awaited⟩
    omega
  · obtain ⟨t, ht⟩ := askingRun_row
    have := (emit_returns_iff (run_checks _ _) ⟨by decide, by decide⟩ ht (by decide +kernel) hsize.le).mp h
      ⟨_, askingRun_asks⟩
    omega

theorem short_signal_delivered :
    Delivery (run countingServer askingRun).db .null (.emitSignal ⟨Uuid.ofNat 1, "go", 0⟩ .null) (.signal .null) 32 ∧
    (step countingServer (run countingServer askingRun) ⟨3, .emitSignal ⟨Uuid.ofNat 1, "go", 0⟩ .null⟩).1 =
      .returned (.signal .null) := by
  obtain ⟨t, ht⟩ := askingRun_row
  have delivery : Delivery (run countingServer askingRun).db .null (.emitSignal ⟨Uuid.ofNat 1, "go", 0⟩ .null)
      (.signal .null) 32 :=
    .emitAwaited ⟨by decide, by decide⟩ ht (by decide +kernel) askingRun_asks
  exact ⟨delivery, (delivered_iff countingServer askingRun 3 (by decide) delivery).mpr (by decide)⟩

end Pgtask
