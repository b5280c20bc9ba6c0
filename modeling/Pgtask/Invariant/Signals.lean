import Pgtask.Invariant.Checks
import Pgtask.Invariant.Fence

/-!
# Signals

A step that waits for a signal gets the first value that was emitted for it,
whether the wait or the signal came first.
-/

open Sql Checked List Option Table

namespace Pgtask

/-! ## The size of a checkpoint -/

theorem signalCheckpoint_octetLength (v : Json) :
    (signalCheckpoint v).octetLength = v.octetLength + 32 := by
  have hvalue : (quoted "value").utf8ByteSize = 7 := by decide +kernel
  have houtcome : (quoted "outcome").utf8ByteSize = 9 := by decide +kernel
  have hsignal : (quoted "signal").utf8ByteSize = 8 := by decide +kernel
  have hopening : "\x7b".utf8ByteSize = 1 := by decide +kernel
  have hclosing : "\x7d".utf8ByteSize = 1 := by decide +kernel
  have hcolon : ": ".utf8ByteSize = 2 := by decide +kernel
  have hcomma : ", ".utf8ByteSize = 2 := by decide +kernel
  unfold Json.octetLength signalCheckpoint
  simp only [Json.text, Json.fieldTexts, String.intercalate_cons_cons, String.intercalate_singleton,
    String.utf8ByteSize_append]
  omega

/-! ## One step and its signal -/

structure SignalStep where
  step : StepKey
  signal : SignalKey
  own : signal.taskId = step.taskId
  stepChecked : Holds (step.checks "checkpoints")
  named : validName 255 signal.signalName = true
  counted : 0 ≤ signal.occurrence

inductive SignalRole
  | emit (value : Json)
  | wait (lease : Lease) (timeoutMilliseconds : Option Int)
  | claim
  | other

def SignalStep.role (p : SignalStep) (r : Request) : SignalRole :=
  match r.call with
  | .emitSignal key value => if key = p.signal then .emit value else .other
  | .waitForSignal lease stepName occurrence signalName signalOccurrence timeoutMilliseconds =>
    if lease.taskId = p.step.taskId ∧ stepName = p.step.stepName ∧ occurrence = p.step.occurrence ∧
        signalName = p.signal.signalName ∧ signalOccurrence = p.signal.occurrence then
      .wait lease timeoutMilliseconds
    else .other
  | .claim .. => .claim
  | _ => .other

def SignalStep.emitted (p : SignalStep) (r : Request) : Option Json :=
  match p.role r with
  | .emit value => some value
  | _ => none

def SignalStep.firstEmitted (p : SignalStep) (rs : List Request) : Option Json :=
  (rs.filterMap p.emitted).head?

/-- A call leaves the step, its signal and its task alone, and opens no wait for the signal. -/
structure SignalStep.Untouched (p : SignalStep) (db db' : Database) : Prop where
  task : ∀ t, db.tasks.get? p.step.taskId = some t →
    ∃ t', db'.tasks.get? p.step.taskId = some t' ∧ t'.handlerVersion = t.handlerVersion
  signal : db'.signals.get? p.signal = db.signals.get? p.signal
  checkpoint : db'.checkpoints.get? p.step = db.checkpoints.get? p.step
  waits : ∀ j w, db'.waits.get? j = some w → w.key j = p.signal → w.resolvedAt = none →
    db.waits.get? j = some w

/-- What the step's history may hold: emits whose checkpoint fits, waits of the step, claims,
and calls that have nothing to do with it. -/
def SignalStep.Event (p : SignalStep) (server : Server) (w : World) (r : Request) : Prop :=
  match p.role r with
  | .emit value => (signalCheckpoint value).octetLength ≤ 1048576
  | .wait _ timeoutMilliseconds => timeoutMilliseconds.any (· < 0) = false
  | .claim => True
  | .other => p.Untouched w.db (Pgtask.step server w r).2.db

def SignalStep.waiting (p : SignalStep) (db : Database) : Bool :=
  (db.tasks.get? p.step.taskId).any (·.state = .waiting)

def SignalStep.wakeups (p : SignalStep) (server : Server) : World → List Request → Nat
  | _, [] => 0
  | w, r :: rs =>
    let w' := (Pgtask.step server w r).2
    let wakes := (p.emitted r).isSome && p.waiting w.db && !p.waiting w'.db
    wakes.toNat + p.wakeups server w' rs

/-! ## Before and after the first emit -/

def SignalStep.Live (p : SignalStep) (db : Database) : Prop :=
  ∃ t, db.tasks.get? p.step.taskId = some t ∧ t.handlerVersion = p.step.handlerVersion

structure SignalStep.Unsent (p : SignalStep) (db : Database) : Prop where
  live : p.Live db
  unsent : db.signals.get? p.signal = none
  fresh : db.checkpoints.get? p.step = none

structure SignalStep.Sent (p : SignalStep) (value : Json) (db : Database) : Prop where
  live : p.Live db
  sent : db.signals.get? p.signal = some value
  recorded : db.checkpoints.get? p.step = none ∨
    db.checkpoints.get? p.step = some (signalCheckpoint value)
  answered : ∀ j w, db.waits.get? j = some w → w.key j = p.signal → w.resolvedAt ≠ none

variable {server : Server} {p : SignalStep}

theorem SignalStep.Untouched.live {db db' : Database} (h : p.Untouched db db') (live : p.Live db) :
    p.Live db' := by
  obtain ⟨t, ht, hversion⟩ := live
  obtain ⟨t', ht', hsame⟩ := h.task t ht
  exact ⟨t', ht', hsame.trans hversion⟩

theorem SignalStep.Untouched.unsent {db db' : Database} (h : p.Untouched db db') (before : p.Unsent db) :
    p.Unsent db' :=
  ⟨h.live before.live, h.signal.trans before.unsent, h.checkpoint.trans before.fresh⟩

theorem SignalStep.Untouched.sent {db db' : Database} {v : Json} (h : p.Untouched db db')
    (after : p.Sent v db) : p.Sent v db' := by
  refine ⟨h.live after.live, h.signal.trans after.sent, ?_, ?_⟩
  · rw [h.checkpoint]
    exact after.recorded
  · intro j w hj hkey hopen
    exact after.answered j w (h.waits j w hj hkey hopen) hkey hopen

theorem SignalStep.Untouched.refl (db : Database) : p.Untouched db db :=
  ⟨fun t ht => ⟨t, ht, rfl⟩, rfl, rfl, fun _ _ h _ _ => h⟩

theorem SignalStep.Untouched.trans {db db1 db2 : Database} (h : p.Untouched db db1)
    (h' : p.Untouched db1 db2) : p.Untouched db db2 := by
  refine ⟨?_, h'.signal.trans h.signal, h'.checkpoint.trans h.checkpoint, ?_⟩
  · intro t ht
    obtain ⟨t1, ht1, hsame⟩ := h.task t ht
    obtain ⟨t2, ht2, hsame'⟩ := h'.task t1 ht1
    exact ⟨t2, ht2, hsame'.trans hsame⟩
  · intro j w hj hkey hopen
    exact h.waits j w (h'.waits j w hj hkey hopen) hkey hopen

theorem claim_untouched {w : World} {r : Request} (h : p.role r = .claim) :
    p.Untouched w.db (step server w r).2.db := by
  have hcall : ∀ l, r.call.effects l → ∃ lease, l = .claim lease := by
    unfold SignalStep.role at h
    split at h
    · split at h <;> cases h
    · split at h <;> cases h
    · rename_i hcall
      rw [hcall]
      exact fun l hl => hl
    · cases h
  refine step_keeps (I := fun s => p.Untouched w.db s.db) ?_ (.refl _)
  intro l s s' hl effect ih
  obtain ⟨lease, rfl⟩ := hcall l hl
  cases effect with
  | @claim _ id worker token t attempt ms row =>
    refine ih.trans ⟨?_, rfl, rfl, fun _ _ hj _ _ => hj⟩
    intro t0 ht0
    dsimp only
    rw [get?_put]
    split
    · rename_i hid
      rw [hid, row] at ht0
      cases ht0
      exact ⟨_, rfl, rfl⟩
    · exact ⟨t0, ht0, rfl⟩

/-! ## Emits -/

variable {e : Env}

theorem resolveWaits_returns {v : Json} {id : Uuid} {t : Task} {rows : List (StepKey × Wait)}
    {s : Session} (outcome : WaitOutcome) (row : s.db.tasks.get? id = some t)
    (checked : Holds (t.checks id)) (size : v.octetLength ≤ 1048576)
    (own : ∀ x ∈ rows, x.1.taskId = id ∧ Holds (x.2.checks x.1)) :
    ∃ s', rows.foldlM (resolveWait e v outcome) s = .ok s' ∧ s'.db.signals = s.db.signals ∧
      (∃ t', s'.db.tasks.get? id = some t' ∧ t'.handlerVersion = t.handlerVersion) ∧
      ∀ k, s'.db.checkpoints.get? k = s.db.checkpoints.get? k ∨
        s'.db.checkpoints.get? k = some v := by
  obtain ⟨s', hs', h, hsig, hlive, hcheckpoints⟩ := foldlM_returns (f := resolveWait e v outcome)
    (fun rest s' => (∀ x ∈ rest, x.1.taskId = id ∧ Holds (x.2.checks x.1)) ∧
      s'.db.signals = s.db.signals ∧
      (∃ t', s'.db.tasks.get? id = some t' ∧ t'.handlerVersion = t.handlerVersion ∧
        Holds (t'.checks id)) ∧
      ∀ k, s'.db.checkpoints.get? k = s.db.checkpoints.get? k ∨
        s'.db.checkpoints.get? k = some v)
    (by
      rintro ⟨k, w⟩ rest s1 ⟨hown, hsig, ⟨t', ht', hversion, hchecked⟩, hcheckpoints⟩
      rw [forall_mem_cons] at hown
      obtain ⟨⟨hid, hw⟩, hown⟩ := hown
      have hid : k.taskId = id := hid
      have hkey : Holds (k.checks "waits") := fun c hc => hw c (mem_append_left _ hc)
      have hrow : s1.db.tasks.get? k.taskId = some t' := by rw [hid, ht']
      unfold resolveWait
      dsimp only
      rw [saveCheckpoint_returns hrow (hkey.checkpoint size)]
      simp only [bind, Except.bind]
      rw [wake_returns k.taskId (by
        intro t1 ht1
        rw [hrow] at ht1
        cases ht1
        rw [hid]
        exact hchecked)]
      refine ⟨_, rfl, hown, hsig, ⟨t'.woken e.now, ?_, ?_, hchecked.woken e.now⟩, ?_⟩
      · simp [hid, ht']
      · unfold Task.woken
        split <;> exact hversion
      · intro j
        simp only [get?_putNew]
        split
        · rename_i hj
          rw [hj]
          rcases hcheckpoints k with h | h
          · rw [h]
            cases s.db.checkpoints.get? k with
            | none => exact .inr rfl
            | some c => exact .inl rfl
          · rw [h]
            exact .inr rfl
        · exact hcheckpoints j)
    (s := s) (l := rows) ⟨own, rfl, ⟨t, row, rfl, checked⟩, fun _ => .inl rfl⟩
  obtain ⟨t', ht', hversion, -⟩ := hlive
  exact ⟨s', hs', hsig, ⟨t', ht', hversion⟩, hcheckpoints⟩

theorem role_emit {r : Request} {v : Json} (h : p.role r = .emit v) : r.call = .emitSignal p.signal v := by
  unfold SignalStep.role at h
  split at h
  · rename_i key value hcall
    split at h
    · rename_i hkey
      cases h
      rw [hcall, hkey]
    · cases h
  · split at h <;> cases h
  · cases h
  · cases h

theorem emit_exec {w : World} {r : Request} {v : Json} (h : p.role r = .emit v) :
    exec e r.call w.session = (emitSignal e p.signal v w.session).map (reply .signal) := by
  rw [role_emit h]
  rfl

theorem role_wait {r : Request} {lease : Lease} {ms : Option Int} (h : p.role r = .wait lease ms) :
    lease.taskId = p.step.taskId ∧ r.call = .waitForSignal lease p.step.stepName p.step.occurrence
      p.signal.signalName p.signal.occurrence ms := by
  unfold SignalStep.role at h
  split at h
  · split at h <;> cases h
  · rename_i hcall
    split at h
    · rename_i hsame
      obtain ⟨hid, rfl, rfl, rfl, rfl⟩ := hsame
      cases h
      exact ⟨hid, hcall⟩
    · cases h
  · cases h
  · cases h

theorem signalChecks_hold {v : Json} (fits : (signalCheckpoint v).octetLength ≤ 1048576) :
    Holds (signalChecks p.signal v) := by
  rw [signalCheckpoint_octetLength] at fits
  have hsize : v.octetLength ≤ 1048576 := by omega
  unfold Holds signalChecks
  simp [p.named, p.counted, hsize]

theorem mem_matching {waits : Table StepKey Wait} {k : SignalKey} {x : StepKey × Wait} :
    x ∈ (waits.select fun j w => j.taskId = k.taskId && w.signalName = k.signalName &&
        w.signalOccurrence = k.occurrence && w.resolvedAt.isNone) ↔
      waits.get? x.1 = some x.2 ∧ x.2.key x.1 = k ∧ x.2.resolvedAt = none := by
  obtain ⟨j, w⟩ := x
  rw [mem_select]
  obtain ⟨id, name, occ⟩ := k
  simp [Wait.key, and_assoc]

theorem emit_unsent {w : World} {r : Request} {v : Json} (inv : ChecksInv w.db)
    (before : p.Unsent w.db) (hrole : p.role r = .emit v)
    (fits : (signalCheckpoint v).octetLength ≤ 1048576) :
    (step server w r).1 = .returned (.signal v) ∧ p.Sent v (step server w r).2.db := by
  obtain ⟨t, ht, hversion⟩ := before.live
  have hrow : w.db.tasks.get? p.signal.taskId = some t := by rw [p.own, ht]
  -- The signal is stored first, then the waits are answered.
  let s1 : Session := { w.session with db := { w.db with signals := w.db.signals.put p.signal v } }
  have hsave : saveSignal p.signal v w.session = .ok (v, s1) := by
    unfold saveSignal
    rw [require_of_holds (signalChecks_hold fits)]
    simp [bind, Except.bind, before.unsent, hrow, s1]
  have hown : ∀ x ∈ w.db.waits.select (fun j q => j.taskId = p.signal.taskId &&
      q.signalName = p.signal.signalName && q.signalOccurrence = p.signal.occurrence &&
      q.resolvedAt.isNone), x.1.taskId = p.signal.taskId ∧ Holds (x.2.checks x.1) := by
    intro x hx
    obtain ⟨hget, hkey, -⟩ := mem_matching.mp hx
    exact ⟨congrArg SignalKey.taskId hkey, inv.waits x.1 x.2 hget⟩
  obtain ⟨s', hs', hsig, ⟨t', ht', hversion'⟩, hcheckpoints⟩ :=
    resolveWaits_returns (e := server.envAt r.now) (s := s1) .signal hrow
      (inv.tasks _ t hrow) fits hown
  obtain ⟨-, -, -, hopen, -⟩ := resolveWaits_spec (nodup_select _ _) (.inr ⟨rfl, v, rfl⟩)
    (fun x hx => ⟨(mem_matching.mp hx).1, (mem_matching.mp hx).2.2⟩) hs'
  have hexec : exec (server.envAt r.now) r.call w.session = .ok (.signal v, s') := by
    rw [emit_exec hrole]
    unfold emitSignal
    rw [hsave]
    simp only [bind, Except.bind] at hs' ⊢
    rw [hs']
    rfl
  rw [step_of_exec hexec]
  refine ⟨rfl, ⟨t', by rw [← p.own, ht'], hversion'.trans hversion⟩, ?_, ?_, ?_⟩
  · rw [hsig]
    exact get?_put_self _ _ _
  · rcases hcheckpoints p.step with h | h
    · exact .inl (h.trans before.fresh)
    · exact .inr h
  · intro j q hj hkey hq
    obtain ⟨hj1, hnot⟩ := hopen j q hj hq
    exact hnot (List.mem_map.mpr ⟨(j, q), mem_matching.mpr ⟨hj1, hkey, hq⟩, rfl⟩)

theorem emit_sent {w : World} {r : Request} {v value : Json} (after : p.Sent v w.db)
    (hrole : p.role r = .emit value) (fits : (signalCheckpoint value).octetLength ≤ 1048576) :
    (step server w r).1 = .returned (.signal v) ∧ (step server w r).2 = w := by
  have hsave : saveSignal p.signal value w.session = .ok (v, w.session) := by
    unfold saveSignal
    rw [require_of_holds (signalChecks_hold fits)]
    simp [bind, Except.bind, after.sent]
  have hnone : w.db.waits.select (fun j q => j.taskId = p.signal.taskId &&
      q.signalName = p.signal.signalName && q.signalOccurrence = p.signal.occurrence &&
      q.resolvedAt.isNone) = [] := by
    rw [eq_nil_iff_forall_not_mem]
    intro x hx
    obtain ⟨hget, hkey, hopen⟩ := mem_matching.mp hx
    exact after.answered x.1 x.2 hget hkey hopen
  have hexec : exec (server.envAt r.now) r.call w.session = .ok (.signal v, w.session) := by
    rw [emit_exec hrole]
    unfold emitSignal
    rw [hsave]
    simp only [bind, Except.bind, World.session_db, hnone]
    rfl
  rw [step_of_exec hexec]
  exact ⟨rfl, rfl⟩

/-! ## Waits -/

theorem wait_exec {w : World} {r : Request} {lease : Lease} {ms : Option Int}
    (hrole : p.role r = .wait lease ms) :
    exec e r.call w.session = (waitForSignal e p.step.taskId lease.attempt lease.leaseToken
      p.step.stepName p.step.occurrence p.signal.signalName p.signal.occurrence ms
      w.session).map (reply .wait) := by
  obtain ⟨hid, hcall⟩ := role_wait hrole
  rw [hcall, ← hid]
  rfl

theorem SignalStep.Live.key {db : Database} {t : Task} (live : p.Live db)
    (row : db.tasks.get? p.step.taskId = some t) :
    (⟨p.step.taskId, t.handlerVersion, p.step.stepName, p.step.occurrence⟩ : StepKey) = p.step := by
  obtain ⟨t', ht', hversion⟩ := live
  rw [row] at ht'
  cases ht'
  rw [hversion]

theorem wait_unsent {w : World} {r : Request} {lease : Lease} {ms : Option Int}
    (before : p.Unsent w.db) (hrole : p.role r = .wait lease ms) :
    p.Unsent (step server w r).2.db := by
  rcases step_spec server w r with ⟨reply', s', hexec, hs', -⟩ | ⟨-, -, hsame⟩
  · rw [show (step server w r).2.db = s'.db by rw [hs']; rfl]
    rw [wait_exec hrole] at hexec
    obtain ⟨answer, h, -⟩ := reply_ok hexec
    unfold waitForSignal at h
    split at h
    · cases h
    · split at h
      · cases h
        exact before
      · rename_i t hf
        obtain ⟨row, -⟩ := fenced_eq_some.mp hf
        simp only [before.live.key row] at h
        have hsignal : w.session.db.signals.get? ⟨p.step.taskId, p.signal.signalName,
            p.signal.occurrence⟩ = none := by
          rw [← p.own]
          exact before.unsent
        have hfresh : w.session.db.checkpoints.get? p.step = none := before.fresh
        simp only [hfresh, hsignal] at h
        obtain ⟨s1, h1, h⟩ := bind_ok h
        obtain ⟨rfl, -⟩ := armWait_spec h1
        obtain ⟨-, -, rfl⟩ := park_spec h
        obtain ⟨t', ht', hversion⟩ := before.live
        have htt' : t' = t := by
          rw [World.session_db, ht'] at row
          exact some.inj row
        subst htt'
        exact ⟨⟨t'.parked, get?_put_self _ _ _, hversion⟩, before.unsent, before.fresh⟩
  · rw [hsame]
    exact before

theorem wait_sent {w : World} {r : Request} {lease : Lease} {ms : Option Int} {v : Json}
    (after : p.Sent v w.db) (hrole : p.role r = .wait lease ms) (hms : ms.any (· < 0) = false)
    (fits : (signalCheckpoint v).octetLength ≤ 1048576) :
    p.Sent v (step server w r).2.db ∧ (lease.passes w.db →
      (step server w r).1 = .returned (.wait (some (.ready (signalCheckpoint v))))) := by
  have hexec := wait_exec (e := server.envAt r.now) (w := w) hrole
  unfold waitForSignal at hexec
  rw [if_neg (by rw [hms]; exact Bool.false_ne_true)] at hexec
  have hpasses : lease.passes w.db ↔
      (fenced w.db p.step.taskId lease.attempt lease.leaseToken).isSome = true := by
    unfold Lease.passes
    rw [(role_wait hrole).1]
  cases hf : fenced w.db p.step.taskId lease.attempt lease.leaseToken with
  | none =>
    simp only [World.session_db, hf] at hexec
    rw [step_of_exec hexec]
    refine ⟨after, fun h => ?_⟩
    rw [hpasses, hf] at h
    cases h
  | some t =>
    obtain ⟨row, -⟩ := fenced_eq_some.mp hf
    have hsignal : w.db.signals.get? ⟨p.step.taskId, p.signal.signalName, p.signal.occurrence⟩ =
        some v := by
      rw [← p.own]
      exact after.sent
    simp only [World.session_db, hf, after.live.key row, hsignal] at hexec
    rcases after.recorded with hk | hk
    · have hsave := saveCheckpoint_returns (s := w.session) row (p.stepChecked.checkpoint fits)
      simp only [hk, answerReady, hsave, bind, Except.bind, World.session_db] at hexec
      rw [step_of_exec hexec]
      refine ⟨⟨after.live, after.sent, .inr ?_, after.answered⟩, fun _ => rfl⟩
      simp [hk]
    · simp only [hk] at hexec
      rw [step_of_exec hexec]
      exact ⟨after, fun _ => rfl⟩

/-! ## Runs -/

/-- The step's rows once `first` is the first value that was emitted, if there is one yet. -/
def SignalStep.Stage (p : SignalStep) (first : Option Json) (db : Database) : Prop :=
  match first with
  | none => p.Unsent db
  | some v => p.Sent v db ∧ (signalCheckpoint v).octetLength ≤ 1048576

theorem SignalStep.Untouched.stage {db db' : Database} {first : Option Json} (h : p.Untouched db db')
    (stage : p.Stage first db) : p.Stage first db' := by
  cases first with
  | none => exact h.unsent stage
  | some v => exact ⟨h.sent stage.1, stage.2⟩

theorem stage_step {w : World} {r : Request} {first : Option Json} (inv : ChecksInv w.db)
    (event : p.Event server w r) (stage : p.Stage first w.db) :
    p.Stage (first.or (p.emitted r)) (step server w r).2.db := by
  unfold SignalStep.Event at event
  unfold SignalStep.emitted
  cases hrole : p.role r with
  | emit value =>
    simp only [hrole] at event
    cases first with
    | none => exact ⟨(emit_unsent inv stage hrole event).2, event⟩
    | some v =>
      refine ⟨?_, stage.2⟩
      rw [(emit_sent stage.1 hrole event).2]
      exact stage.1
  | wait lease ms =>
    simp only [hrole] at event
    rw [or_none]
    cases first with
    | none => exact wait_unsent stage hrole
    | some v => exact ⟨(wait_sent stage.1 hrole event stage.2).1, stage.2⟩
  | claim =>
    rw [or_none]
    exact (claim_untouched hrole).stage stage
  | other =>
    simp only [hrole] at event
    rw [or_none]
    exact event.stage stage

theorem SignalStep.firstEmitted_append (rs rs' : List Request) :
    p.firstEmitted (rs ++ rs') = (p.firstEmitted rs).or (p.firstEmitted rs') := by
  unfold SignalStep.firstEmitted
  rw [List.filterMap_append, List.head?_append]

theorem SignalStep.firstEmitted_cons (r : Request) (rs : List Request) :
    p.firstEmitted (r :: rs) = (p.emitted r).or (p.firstEmitted rs) := by
  unfold SignalStep.firstEmitted
  cases h : p.emitted r with
  | none => rw [filterMap_cons_none h, none_or]
  | some v => rw [filterMap_cons_some h, some_or, head?_cons]

def SignalStep.History (p : SignalStep) (server : Server) (rs events : List Request) : Prop :=
  ∀ before r after, events = before ++ r :: after → p.Event server (run server (rs ++ before)) r

theorem stage_run {rs before after : List Request} (start : p.Unsent (run server rs).db)
    (history : p.History server rs (before ++ after)) :
    p.Stage (p.firstEmitted before) (run server (rs ++ before)).db := by
  induction before using List.reverseRecOn generalizing after with
  | nil =>
    rw [append_nil]
    exact start
  | append_singleton before r ih =>
    rw [append_assoc] at history
    have stage := stage_step (run_checks server (rs ++ before)) (history before r after rfl) (ih history)
    rw [← append_assoc, run_concat, SignalStep.firstEmitted_append]
    have hsingle : p.firstEmitted [r] = p.emitted r := by
      rw [SignalStep.firstEmitted_cons]
      exact or_none
    rw [hsingle]
    exact stage

theorem wakeups_le {rs events : List Request} {first : Option Json}
    (stage : p.Stage first (run server rs).db) (history : p.History server rs events) :
    p.wakeups server (run server rs) events ≤ if first.isSome then 0 else 1 := by
  induction events generalizing rs first with
  | nil => simp [SignalStep.wakeups]
  | cons r events ih =>
    have event := history [] r events rfl
    rw [append_nil] at event
    have hnext := stage_step (run_checks server rs) event stage
    rw [← run_concat] at hnext
    have hrest := ih hnext (by
      intro before r' after hevents
      have := history (r :: before) r' after (by rw [hevents, cons_append])
      rwa [append_cons] at this)
    rw [run_concat] at hrest
    unfold SignalStep.wakeups
    cases hemitted : p.emitted r with
    | none =>
      rw [hemitted, or_none] at hrest
      simpa using hrest
    | some value =>
      rw [hemitted] at hrest
      cases first with
      | none =>
        simp only [none_or, isSome_some, if_true, Nat.le_zero] at hrest
        dsimp only
        rw [hrest]
        exact Bool.toNat_le _
      | some v =>
        -- Such an emit changes nothing, so it wakes nobody.
        have hrole : p.role r = .emit value := by
          unfold SignalStep.emitted at hemitted
          split at hemitted
          · rename_i hrole
            cases hemitted
            exact hrole
          · cases hemitted
        unfold SignalStep.Event at event
        simp only [hrole] at event
        have hsame := (@emit_sent server _ _ _ _ _ stage.1 hrole event).2
        simp only [some_or, isSome_some, if_true, Nat.le_zero] at hrest ⊢
        rw [hrest, hsame]
        simp

/-- Emits, waits and claims of one step in any order: every emit returns the first value, a wait
under its lease gets that value once it was emitted, and the task is woken at most once. -/
theorem signals_confluent (server : Server) (p : SignalStep) (rs events : List Request) {t : Task}
    (row : (run server rs).db.tasks.get? p.step.taskId = some t)
    (version : t.handlerVersion = p.step.handlerVersion)
    (unsent : (run server rs).db.signals.get? p.signal = none)
    (fresh : (run server rs).db.checkpoints.get? p.step = none)
    (history : p.History server rs events) :
    (∀ before r after value, events = before ++ r :: after → p.role r = .emit value →
      ∃ v, p.firstEmitted events = some v ∧
        (step server (run server (rs ++ before)) r).1 = .returned (.signal v)) ∧
    (∀ before r after lease ms v, events = before ++ r :: after → p.role r = .wait lease ms →
      p.firstEmitted before = some v → lease.passes (run server (rs ++ before)).db →
        (step server (run server (rs ++ before)) r).1 =
          .returned (.wait (some (.ready (signalCheckpoint v))))) ∧
    p.wakeups server (run server rs) events ≤ 1 := by
  have start : p.Unsent (run server rs).db := ⟨⟨t, row, version⟩, unsent, fresh⟩
  refine ⟨?_, ?_, wakeups_le (show p.Stage none _ from start) history⟩
  · intro before r after value hevents hrole
    have event := history before r after hevents
    rw [hevents] at history
    have stage := stage_run start history
    have hemitted : p.emitted r = some value := by
      unfold SignalStep.emitted
      rw [hrole]
    unfold SignalStep.Event at event
    simp only [hrole] at event
    rw [hevents, SignalStep.firstEmitted_append, SignalStep.firstEmitted_cons, hemitted]
    cases hfirst : p.firstEmitted before with
    | none =>
      rw [hfirst] at stage
      exact ⟨value, rfl, (emit_unsent (run_checks server _) stage hrole event).1⟩
    | some v =>
      rw [hfirst] at stage
      exact ⟨v, rfl, (emit_sent stage.1 hrole event).1⟩
  · intro before r after lease ms v hevents hrole hfirst passes
    have event := history before r after hevents
    rw [hevents] at history
    have stage := stage_run start history
    rw [hfirst] at stage
    unfold SignalStep.Event at event
    simp only [hrole] at event
    exact (wait_sent stage.1 hrole event stage.2).2 passes

/-! The task waits first, is woken by the first of two emits, and waits again. -/

def goStep : SignalStep where
  step := ⟨Uuid.ofNat 1, 1, "step", 0⟩
  signal := ⟨Uuid.ofNat 1, "go", 0⟩
  own := rfl
  stepChecked := by
    unfold Holds
    decide
  named := by decide
  counted := by decide

def goStart : List Request :=
  [⟨0, .enqueue { taskName := some "a", payload := some .null }⟩,
   ⟨1, .claim "default" (Uuid.ofNat 100) ["a"] [1] 1 1000⟩]

def goEvents : List Request :=
  [⟨2, .waitForSignal ⟨Uuid.ofNat 1, 1, Uuid.ofNat 2⟩ "step" 0 "go" 0 (some 60000)⟩,
   ⟨3, .emitSignal ⟨Uuid.ofNat 1, "go", 0⟩ (.bool true)⟩,
   ⟨4, .emitSignal ⟨Uuid.ofNat 1, "go", 0⟩ .null⟩,
   ⟨5, .claim "default" (Uuid.ofNat 100) ["a"] [1] 1 1000⟩,
   ⟨6, .waitForSignal ⟨Uuid.ofNat 1, 2, Uuid.ofNat 3⟩ "step" 0 "go" 0 (some 60000)⟩]

theorem goEvents_history : goStep.History countingServer goStart goEvents := by
  refine fun before r after => @split_of_fin (fun before r =>
    goStep.Event countingServer (run countingServer (goStart ++ before)) r) goEvents (fun (i : Fin 5) => ?_) _ _ _
  match i with
  | 0 => exact (by decide : (some 60000 : Option Int).any (· < 0) = false)
  | 1 => exact (by decide : (signalCheckpoint (.bool true)).octetLength ≤ 1048576)
  | 2 => exact (by decide : (signalCheckpoint .null).octetLength ≤ 1048576)
  | 3 => exact trivial
  | 4 => exact (by decide : (some 60000 : Option Int).any (· < 0) = false)

theorem signal_after_wait :
    (step countingServer (run countingServer (goStart ++ goEvents.take 2)) ⟨4,
        .emitSignal ⟨Uuid.ofNat 1, "go", 0⟩ .null⟩).1 = .returned (.signal (.bool true)) ∧
      (step countingServer (run countingServer (goStart ++ goEvents.take 4)) ⟨6,
        .waitForSignal ⟨Uuid.ofNat 1, 2, Uuid.ofNat 3⟩ "step" 0 "go" 0 (some 60000)⟩).1 =
          .returned (.wait (some (.ready (signalCheckpoint (.bool true))))) ∧
      goStep.wakeups countingServer (run countingServer goStart) goEvents ≤ 1 := by
  obtain ⟨t, ht, hversion⟩ : ∃ t, (run countingServer goStart).db.tasks.get? (Uuid.ofNat 1) = some t ∧
      t.handlerVersion = 1 :=
    ⟨_, Option.eq_some_of_isSome (by decide +kernel), by decide +kernel⟩
  obtain ⟨emits, waits, wakes⟩ := signals_confluent countingServer goStep goStart goEvents ht hversion
    (by decide +kernel) (by decide +kernel) goEvents_history
  refine ⟨?_, ?_, wakes⟩
  · obtain ⟨v, hv, h⟩ := emits (goEvents.take 2) _ (goEvents.drop 3) .null rfl rfl
    cases hv
    exact h
  · exact waits (goEvents.take 4) _ [] ⟨Uuid.ofNat 1, 2, Uuid.ofNat 3⟩ (some 60000) (.bool true) rfl rfl
      rfl (by decide +kernel)

end Pgtask
