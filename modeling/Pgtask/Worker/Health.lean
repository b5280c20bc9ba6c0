import Mathlib.Order.Basic
import Pgtask.Lib.Machine
import Pgtask.Lib.Uuid

/-!
# The health of a worker

`Health`, the `OverloadDetector` that its supervisor feeds with observations,
and the events that write to it. Instants and durations are in nanoseconds.
-/

open Sql Option

namespace Pgtask

variable {config : OverloadProtectionConfig} {control : WorkerControl}

/-! ## State -/

structure Health where
  admission : Bool := false
  database : Bool := false
  listener : Bool := false
  leaseRenewal : Bool := true
  activeLeases : Bool := false
  runtimeProgress : Nat
  lastLeaseRenewal : Nat

structure HealthObservation where
  activeLeases : Bool
  database : Bool
  leaseRenewal : Bool
  leaseRenewalAge : Nat
  runtimeLag : Nat

namespace Health

def new (now : Nat) : Health where
  runtimeProgress := now
  lastLeaseRenewal := now

def setActiveLeases (active : Bool) (h : Health) : Health :=
  { h with activeLeases := active, leaseRenewal := if active then h.leaseRenewal else true }

def recordLeaseRenewal (healthy : Bool) (now : Nat) (h : Health) : Health :=
  { h with leaseRenewal := healthy, lastLeaseRenewal := if healthy then now else h.lastLeaseRenewal }

def ready (h : Health) : Bool := h.admission && h.database && h.listener && h.leaseRenewal

/-- `elapsed` is 0 for an instant that is still to come, and so is the lag. -/
def recordMetrics (interval now : Nat) (h : Health) : HealthObservation where
  activeLeases := h.activeLeases
  database := h.database
  leaseRenewal := h.leaseRenewal
  leaseRenewalAge := if h.activeLeases then now - h.lastLeaseRenewal else 0
  runtimeLag := now - h.runtimeProgress - interval

end Health

structure OverloadProtectionConfig where
  enabled : Bool := true
  enforce : Bool := false
  eventLoopLagThreshold : Nat := 250000000
  sustainedSamples : Nat := 3
  recoverySamples : Nat := 5
  minimumConcurrency : Nat := 1
  positive : 0 < minimumConcurrency := by decide

inductive OverloadReason
  | databaseUnavailable
  | leaseRenewalLate
  | eventLoopLag
  | recovery
  deriving DecidableEq

def OverloadReason.text : OverloadReason → String
  | .databaseUnavailable => "database_unavailable"
  | .leaseRenewalLate => "lease_renewal_late"
  | .eventLoopLag => "event_loop_lag"
  | .recovery => "recovery"

/-- `reason` is the label of the last proposal. -/
structure WorkerControl where
  configured : Nat
  effective : Nat
  proposed : Nat
  reason : Option OverloadReason := none
  bounded : effective ≤ configured

namespace WorkerControl

def recordProposedConcurrency (limit : Nat) (reason : OverloadReason) (c : WorkerControl) : WorkerControl :=
  { c with proposed := limit, reason := some reason }

/-- `none` is `AdmissionLimitExceedsConfigured`. -/
def applyEffectiveConcurrency (limit : Nat) (c : WorkerControl) : Option WorkerControl :=
  if bounded : limit ≤ c.configured then some { c with effective := limit, bounded } else none

end WorkerControl

structure OverloadDetector where
  lagSamples : Nat := 0
  recoverySamples : Nat := 0

namespace OverloadDetector

/-- `saturating_add(1)` of a `u16`. -/
def saturatingSucc (n : Nat) : Nat := min (n + 1) 65535

def countLag (config : OverloadProtectionConfig) (o : HealthObservation) (d : OverloadDetector) : Nat :=
  if config.eventLoopLagThreshold ≤ o.runtimeLag then saturatingSucc d.lagSamples else 0

def countRecovery (reason : Option OverloadReason) (d : OverloadDetector) : Nat :=
  if reason.isSome then 0 else saturatingSucc d.recoverySamples

def reason (config : OverloadProtectionConfig) (leaseRenewalThreshold : Nat) (o : HealthObservation)
    (lagSamples : Nat) : Option OverloadReason :=
  if !o.database then some .databaseUnavailable
  else if o.activeLeases && (!o.leaseRenewal || decide (leaseRenewalThreshold ≤ o.leaseRenewalAge)) then
    some .leaseRenewalLate
  else if config.sustainedSamples ≤ lagSamples then some .eventLoopLag
  else none

def proposal (config : OverloadProtectionConfig) (control : WorkerControl) : Option OverloadReason → Nat
  | none => min (saturatingSucc control.effective) control.configured
  | some _ => max (control.effective / 2) config.minimumConcurrency

/-- Proposes a limit and applies it if `enforce` is set. `none` is a panic: a limit is zero, or the
one to apply exceeds the configured one. -/
def propose (config : OverloadProtectionConfig) (reason : Option OverloadReason) (control : WorkerControl) :
    Option WorkerControl :=
  let proposed := proposal config control reason
  if control.effective = 0 ∨ proposed = 0 then none
  else
    let control := control.recordProposedConcurrency proposed (reason.getD .recovery)
    if config.enforce then control.applyEffectiveConcurrency proposed else some control

/-- The result has the reason for which the limit is lowered. `none` overall is a panic. -/
def observe (config : OverloadProtectionConfig) (leaseRenewalThreshold : Nat) (o : HealthObservation)
    (control : WorkerControl) (d : OverloadDetector) :
    Option (Option OverloadReason × WorkerControl × OverloadDetector) :=
  if !config.enabled then some (none, control, d)
  else
    let lagSamples := d.countLag config o
    let reason := reason config leaseRenewalThreshold o lagSamples
    let recoverySamples := d.countRecovery reason
    let d := ⟨lagSamples, recoverySamples⟩
    if reason.isNone && decide (recoverySamples < config.recoverySamples) then some (none, control, d)
    else (propose config reason control).map fun control => (reason, control, d)

end OverloadDetector

/-- What `Worker::new` has accepted of the settings that matter here. -/
structure SupervisedConfig where
  concurrency : Nat
  leaseDuration : Nat
  supervisorInterval : Nat
  overload : OverloadProtectionConfig
  valid : 3000000 ≤ leaseDuration
  minimum : overload.minimumConcurrency ≤ concurrency
  fits : concurrency ≤ 65535

namespace SupervisedConfig

def renewalInterval (c : SupervisedConfig) : Nat := c.leaseDuration / 3

def leaseRenewalThreshold (c : SupervisedConfig) : Nat := c.leaseDuration * 2 / 3

theorem interval_lt_threshold (c : SupervisedConfig) : c.renewalInterval < c.leaseRenewalThreshold := by
  have := c.valid
  unfold renewalInterval leaseRenewalThreshold
  omega

end SupervisedConfig

/-! ## Healthy runs -/

namespace Supervised

/-- `active` has the keys of `active_leases`. `nextTick` is set while the renewal loop runs. `chosen`
are the reasons of the detector so far. `lastBusy` is when a tick last found a lease or, before
that, when the worker was made. -/
structure State where
  clock : Nat
  health : Health
  active : List Uuid := []
  nextTick : Option Nat := none
  detector : OverloadDetector := {}
  control : WorkerControl
  chosen : List OverloadReason := []
  lastBusy : Nat

inductive Move
  /-- Time passes. A tick is on time, so it does not pass by one that is due. -/
  | wait (instant : Nat)
  /-- `Worker::run` has registered the worker and starts its loops. -/
  | run
  /-- A tick of `renew_leases`. It renews all active leases at once. -/
  | tick
  | spawn (id : Uuid)
  | finish (id : Uuid)
  | setAdmission (healthy : Bool)
  | setDatabase (healthy : Bool)
  | setListener (healthy : Bool)
  | recordRuntimeProgress
  /-- A tick of `sample_health`. -/
  | sample

def State.new (c : SupervisedConfig) (now : Nat) : State where
  clock := now
  health := .new now
  control := ⟨c.concurrency, c.concurrency, c.concurrency, none, Nat.le_refl _⟩
  lastBusy := now

def State.move (c : SupervisedConfig) (s : State) : Move → Option State
  | .wait instant =>
    if s.clock ≤ instant ∧ s.nextTick.all (instant ≤ ·) then some { s with clock := instant } else none
  | .run => match s.nextTick with
    | none => some { s with
        nextTick := some (s.clock + c.renewalInterval)
        health := { s.health with database := true, admission := true, listener := true } }
    | some _ => none
  | .tick =>
    if s.nextTick = some s.clock then
      let s := { s with nextTick := some (s.clock + c.renewalInterval) }
      if s.active.isEmpty then some { s with health := s.health.setActiveLeases false }
      else some { s with
        health := { s.health with database := true }.recordLeaseRenewal true s.clock
        lastBusy := s.clock }
    else none
  | .spawn id =>
    if s.nextTick.isSome then
      some { s with active := s.active.insert id, health := s.health.setActiveLeases true }
    else none
  | .finish id =>
    let active := s.active.erase id
    some { s with active, health := s.health.setActiveLeases (!active.isEmpty) }
  | .setAdmission healthy => some { s with health := { s.health with admission := healthy } }
  | .setDatabase healthy => some { s with health := { s.health with database := healthy } }
  | .setListener healthy => some { s with health := { s.health with listener := healthy } }
  | .recordRuntimeProgress => some { s with health := { s.health with runtimeProgress := s.clock } }
  | .sample => do
    let o := s.health.recordMetrics c.supervisorInterval s.clock
    let (reason, control, detector) ← s.detector.observe c.overload c.leaseRenewalThreshold o s.control
    some { s with control, detector, chosen := s.chosen ++ reason.toList }

/-- A sample that the detector uses, with the database reachable and a lease active, comes less than
the threshold after a tick found a lease, or after the worker was made. -/
def Recent (c : SupervisedConfig) (s : State) : Move → Prop
  | .sample => c.overload.enabled = true → s.health.database = true → s.active ≠ [] →
      s.clock < s.lastBusy + c.leaseRenewalThreshold
  | _ => True

/-- The worker is busy: it is started soon after it was made, and every tick finds a lease. -/
def Busy (c : SupervisedConfig) (s : State) : Move → Prop
  | .run => s.clock + c.renewalInterval < s.lastBusy + c.leaseRenewalThreshold
  | .tick => s.active ≠ []
  | _ => True

instance Busy.decidable (c : SupervisedConfig) (s : State) : ∀ m, Decidable (Busy c s m)
  | .run => inferInstanceAs (Decidable (_ < _))
  | .tick => inferInstanceAs (Decidable (_ ≠ _))
  | .wait _ | .spawn _ | .finish _ | .setAdmission _ | .setDatabase _ | .setListener _
  | .recordRuntimeProgress | .sample => isTrue trivial

/-- What `Health` knows about the leases in a healthy run. -/
structure Inv (c : SupervisedConfig) (s : State) : Prop where
  configured : s.control.configured = c.concurrency
  positive : 0 < s.control.effective
  renewed : s.health.leaseRenewal = true
  renewal : s.health.lastLeaseRenewal = s.lastBusy
  flag : s.health.activeLeases = !s.active.isEmpty

theorem Inv.new (c : SupervisedConfig) (now : Nat) : Inv c (.new c now) := ⟨rfl, Nat.lt_of_lt_of_le c.overload.positive c.minimum, rfl, rfl, rfl⟩

variable {c : SupervisedConfig} {s s' : State}

theorem proposal_range (reason : Option OverloadReason) (positive : 0 < control.effective)
    (minimum : config.minimumConcurrency ≤ control.configured) :
    0 < OverloadDetector.proposal config control reason ∧
      OverloadDetector.proposal config control reason ≤ control.configured := by
  have hbounded := control.bounded
  have hpositive := config.positive
  cases reason <;> simp only [OverloadDetector.proposal, OverloadDetector.saturatingSucc] <;> omega

theorem propose_ok (reason : Option OverloadReason) (positive : 0 < control.effective)
    (minimum : config.minimumConcurrency ≤ control.configured) :
    ∃ control', OverloadDetector.propose config reason control = some control' ∧
      control'.configured = control.configured ∧ 0 < control'.proposed ∧
      control'.effective = if config.enforce then OverloadDetector.proposal config control reason
        else control.effective := by
  obtain ⟨hpos, hle⟩ := proposal_range reason positive minimum
  unfold OverloadDetector.propose
  dsimp only
  rw [if_neg (by omega)]
  unfold WorkerControl.applyEffectiveConcurrency WorkerControl.recordProposedConcurrency
  split
  · exact ⟨_, rfl, rfl, hpos, rfl⟩
  · exact ⟨_, rfl, rfl, hpos, rfl⟩

structure Observed (config : OverloadProtectionConfig) (reason : Option OverloadReason)
    (control control' : WorkerControl) (d d' : OverloadDetector) : Prop where
  configured : control'.configured = control.configured
  proposed : 0 < control.proposed → 0 < control'.proposed
  counted : d'.recoverySamples ≤ if reason.isSome then 0 else d.recoverySamples + 1
  lowered : reason.isSome = true → control'.effective =
    if config.enforce then OverloadDetector.proposal config control reason else control.effective
  raised : reason = none → control'.effective = control.effective ∨
    config.recoverySamples ≤ d'.recoverySamples ∧
      control'.effective = OverloadDetector.proposal config control none

theorem observe_ok (threshold : Nat) (o : HealthObservation) (d : OverloadDetector) (positive : 0 < control.effective)
    (minimum : config.minimumConcurrency ≤ control.configured) :
    ∃ reason control' d', d.observe config threshold o control = some (reason, control', d') ∧
      Observed config reason control control' d d' := by
  unfold OverloadDetector.observe
  split
  · exact ⟨none, control, d, rfl, rfl, id, Nat.le_succ _, by simp, fun _ => .inl rfl⟩
  · dsimp only
    generalize OverloadDetector.reason config threshold o (d.countLag config o) = reason
    have hcounted : d.countRecovery reason ≤ if reason.isSome then 0 else d.recoverySamples + 1 := by
      unfold OverloadDetector.countRecovery OverloadDetector.saturatingSucc
      split <;> omega
    split
    · rename_i hnone
      obtain ⟨rfl, -⟩ : reason = none ∧ _ := by simpa using hnone
      exact ⟨none, control, _, rfl, rfl, id, hcounted, by simp, fun _ => .inl rfl⟩
    · rename_i hreason
      obtain ⟨control', hpropose, hconfigured, hproposed, heffective⟩ :=
        propose_ok reason positive minimum
      rw [hpropose]
      refine ⟨reason, control', _, rfl, hconfigured, fun _ => hproposed, hcounted, fun _ => heffective, ?_⟩
      rintro rfl
      rw [heffective]
      split
      · exact .inr ⟨by simpa using hreason, rfl⟩
      · exact .inl rfl

theorem Observed.positive {reason : Option OverloadReason}
    {control' : WorkerControl} {d d' : OverloadDetector}
    (h : Observed config reason control control' d d') (positive : 0 < control.effective)
    (minimum : config.minimumConcurrency ≤ control.configured) : 0 < control'.effective := by
  cases reason with
  | none =>
    obtain heq | ⟨-, heq⟩ := h.raised rfl
    · exact heq ▸ positive
    · exact heq ▸ (proposal_range none positive minimum).1
  | some reason =>
    rw [h.lowered rfl]
    split
    · exact (proposal_range _ positive minimum).1
    · exact positive

theorem move_inv (m : Move) (h : s.move c m = some s') (inv : Inv c s) : Inv c s' := by
  obtain ⟨configured, positive, renewed, renewal, flag⟩ := inv
  cases m with
  | wait instant =>
    obtain ⟨-, h⟩ := ite_none_right_eq_some.mp h
    cases h
    exact ⟨configured, positive, renewed, renewal, flag⟩
  | run =>
    simp only [State.move] at h
    split at h
    · cases h
      exact ⟨configured, positive, renewed, renewal, flag⟩
    · cases h
  | tick =>
    obtain ⟨-, h⟩ := ite_none_right_eq_some.mp h
    split at h
    · rename_i hempty
      cases h
      exact ⟨configured, positive, rfl, renewal, by simp [Health.setActiveLeases, hempty]⟩
    · cases h
      exact ⟨configured, positive, rfl, rfl, flag⟩
  | spawn id =>
    obtain ⟨-, h⟩ := ite_none_right_eq_some.mp h
    cases h
    refine ⟨configured, positive, renewed, renewal, ?_⟩
    have hne : s.active.insert id ≠ [] := List.ne_nil_of_mem List.mem_insert_self
    simp [Health.setActiveLeases, hne]
  | finish id =>
    cases h
    refine ⟨configured, positive, ?_, renewal, rfl⟩
    simp [Health.setActiveLeases, renewed]
  | setAdmission | setDatabase | setListener | recordRuntimeProgress =>
    cases h
    exact ⟨configured, positive, renewed, renewal, flag⟩
  | sample =>
    obtain ⟨⟨reason, control, detector⟩, hobserve, h⟩ := bind_eq_some_iff.mp h
    cases h
    have minimum : c.overload.minimumConcurrency ≤ s.control.configured := configured ▸ c.minimum
    obtain ⟨reason', control', detector', hx, hobserved⟩ := observe_ok c.leaseRenewalThreshold
      (s.health.recordMetrics c.supervisorInterval s.clock) s.detector positive minimum
    cases hx.symm.trans hobserve
    exact ⟨hobserved.configured.trans configured, hobserved.positive positive minimum, renewed, renewal,
      flag⟩

theorem observe_late {threshold : Nat} {o : HealthObservation}
    {control' : WorkerControl} {d d' : OverloadDetector} {reason : Option OverloadReason}
    (h : d.observe config threshold o control = some (reason, control', d')) :
    reason = some .leaseRenewalLate ↔ config.enabled = true ∧ o.database = true ∧
      o.activeLeases = true ∧ (o.leaseRenewal = false ∨ threshold ≤ o.leaseRenewalAge) := by
  have hchosen : ∀ n, OverloadDetector.reason config threshold o n = some .leaseRenewalLate ↔
      o.database = true ∧ o.activeLeases = true ∧
        (o.leaseRenewal = false ∨ threshold ≤ o.leaseRenewalAge) := by
    intro n
    unfold OverloadDetector.reason
    cases o.database <;> cases o.activeLeases <;> cases o.leaseRenewal <;>
      by_cases hage : threshold ≤ o.leaseRenewalAge <;> simp [hage]
  unfold OverloadDetector.observe at h
  split at h
  · rename_i hdisabled
    cases h
    simp_all
  · rename_i henabled
    rw [Bool.not_eq_true, Bool.not_eq_false'] at henabled
    rw [← hchosen (d.countLag config o)]
    dsimp only at h
    split at h
    · rename_i hnone
      cases h
      rw [Bool.and_eq_true, isNone_iff_eq_none] at hnone
      simp [hnone.1]
    · obtain ⟨control'', -, h⟩ := map_eq_some_iff.mp h
      cases h
      simp [henabled]

theorem move_late (m : Move) (h : s.move c m = some s') (inv : Inv c s) :
    .leaseRenewalLate ∉ s'.chosen ↔ .leaseRenewalLate ∉ s.chosen ∧ Recent c s m := by
  cases m with
  | sample =>
    obtain ⟨⟨reason, control, detector⟩, hobserve, h⟩ := bind_eq_some_iff.mp h
    cases h
    have hlate : .leaseRenewalLate ∈ reason.toList ↔ c.overload.enabled = true ∧
        s.health.database = true ∧ s.active ≠ [] ∧ s.lastBusy + c.leaseRenewalThreshold ≤ s.clock := by
      rw [mem_toList, observe_late hobserve]
      have hpositive : 0 < c.leaseRenewalThreshold := Nat.zero_lt_of_lt c.interval_lt_threshold
      have hage : c.leaseRenewalThreshold ≤ s.clock - s.lastBusy ↔
          s.lastBusy + c.leaseRenewalThreshold ≤ s.clock := by omega
      by_cases hactive : s.active = []
      · simp [Health.recordMetrics, inv.flag, hactive]
      · simp [Health.recordMetrics, inv.renewed, inv.renewal, inv.flag, hactive, hage]
    simp only [List.mem_append, hlate, Recent]
    grind
  | wait instant =>
    obtain ⟨-, h⟩ := ite_none_right_eq_some.mp h
    cases h
    exact (and_iff_left trivial).symm
  | run =>
    simp only [State.move] at h
    split at h
    · cases h
      exact (and_iff_left trivial).symm
    · cases h
  | tick =>
    obtain ⟨-, h⟩ := ite_none_right_eq_some.mp h
    split at h
    all_goals
      cases h
      exact (and_iff_left trivial).symm
  | spawn id =>
    obtain ⟨-, h⟩ := ite_none_right_eq_some.mp h
    cases h
    exact (and_iff_left trivial).symm
  | finish | setAdmission | setDatabase | setListener | recordRuntimeProgress =>
    cases h
    exact (and_iff_left trivial).symm

/-! ## Busy workers -/

/-- The next tick of a busy worker comes before the last one is too old. -/
def Fresh (c : SupervisedConfig) (s : State) : Prop :=
  match s.nextTick with
  | none => s.active = []
  | some next => s.clock ≤ next ∧ next < s.lastBusy + c.leaseRenewalThreshold

theorem Busy.fresh (m : Move) (busy : Busy c s m) (h : s.move c m = some s') (fresh : Fresh c s) :
    Fresh c s' := by
  unfold Fresh at fresh ⊢
  cases m with
  | wait instant =>
    obtain ⟨⟨-, hdue⟩, h⟩ := ite_none_right_eq_some.mp h
    cases h
    cases hnext : s.nextTick with
    | none => simpa [hnext] using fresh
    | some next =>
      simp only [hnext, all_some, decide_eq_true_eq] at hdue fresh ⊢
      exact ⟨hdue, fresh.2⟩
  | run =>
    simp only [State.move] at h
    split at h
    · cases h
      exact ⟨Nat.le_add_right _ _, busy⟩
    · cases h
  | tick =>
    obtain ⟨-, h⟩ := ite_none_right_eq_some.mp h
    split at h
    · exact absurd (List.isEmpty_iff.mp ‹_›) busy
    · cases h
      exact ⟨Nat.le_add_right _ _, Nat.add_lt_add_left c.interval_lt_threshold _⟩
  | spawn id =>
    obtain ⟨hstarted, h⟩ := ite_none_right_eq_some.mp h
    cases h
    obtain ⟨next, hnext⟩ := isSome_iff_exists.mp hstarted
    simpa [hnext] using fresh
  | finish id =>
    cases h
    cases hnext : s.nextTick with
    | none =>
      simp only [hnext] at fresh
      simp [fresh]
    | some next => simpa [hnext] using fresh
  | setAdmission | setDatabase | setListener | recordRuntimeProgress =>
    cases h
    exact fresh
  | sample =>
    obtain ⟨x, -, h⟩ := bind_eq_some_iff.mp h
    cases h
    exact fresh

theorem Busy.recent (m : Move) (fresh : Fresh c s) : Recent c s m := by
  cases m with
  | sample =>
    intro _ _ hactive
    unfold Fresh at fresh
    split at fresh
    · exact absurd fresh hactive
    · exact Nat.lt_of_le_of_lt fresh.1 fresh.2
  | _ => trivial

end Supervised

open Supervised

/-- In a run with healthy renewals the detector never blames them, exactly if every sample that it
uses is `Recent`. In a busy worker all samples are. The supervisor can always take one more. -/
theorem healthy_renewals_blamed_iff (c : SupervisedConfig) (now : Nat) (moves : List Supervised.Move)
    (s' : Supervised.State) (h : Machine.runs (State.move c) (.new c now) moves = some s') :
    (.leaseRenewalLate ∉ s'.chosen ↔ Machine.EveryMove (State.move c) (Recent c) (.new c now) moves) ∧
      (Machine.EveryMove (State.move c) (Busy c) (.new c now) moves →
        Machine.EveryMove (State.move c) (Recent c) (.new c now) moves) ∧
      (s'.move c .sample).isSome := by
  refine ⟨?_, ?_, ?_⟩
  · have hchosen := Machine.runs_iff (P := fun s => .leaseRenewalLate ∉ s.chosen)
      (fun s m s' h inv => move_inv m h inv) (fun s m s' h inv => move_late m h inv) (Inv.new c now) h
    rw [hchosen]
    exact and_iff_right List.not_mem_nil
  · intro busy
    exact Machine.EveryMove.imp (fun s m s' busy h => Busy.fresh m busy h)
      (fun s m fresh _ => Busy.recent m fresh) rfl busy
  · have inv := Machine.runs_rule (p := fun _ _ => True)
      (fun s m s' _ h inv => move_inv m h inv) (Machine.everyMove_of_forall fun _ _ => trivial) h
      (Inv.new c now)
    obtain ⟨_, _, _, hx, -⟩ := observe_ok c.leaseRenewalThreshold
      (s'.health.recordMetrics c.supervisorInterval s'.clock) s'.detector inv.positive
      (inv.configured ▸ c.minimum)
    simp [State.move, hx]

namespace Supervised

/-- A lease of nine milliseconds: a tick every three, and late after six. -/
def shortLease : SupervisedConfig := ⟨10, 9000000, 1000000, {}, by decide, by decide, by decide⟩

theorem busy_worker_not_blamed :
    let moves : List Move := [.run, .spawn (Uuid.ofNat 1), .wait 3000000, .tick, .wait 6000000, .sample]
    ∃ s', Machine.runs (State.move shortLease) (.new shortLease 0) moves = some s' ∧
      .leaseRenewalLate ∉ s'.chosen := by
  intro moves
  have hruns : (Machine.runs (State.move shortLease) (.new shortLease 0) moves).isSome := by decide
  obtain ⟨s', h⟩ := isSome_iff_exists.mp hruns
  have hblamed := healthy_renewals_blamed_iff shortLease 0 moves s' h
  exact ⟨s', h, hblamed.1.mpr (hblamed.2.1 (by decide))⟩

theorem first_task_after_idle_blamed :
    let moves : List Move := [.run, .wait 3000000, .tick, .wait 6000000, .tick, .spawn (Uuid.ofNat 1), .sample]
    ∃ s', Machine.runs (State.move shortLease) (.new shortLease 0) moves = some s' ∧
      .leaseRenewalLate ∈ s'.chosen := by
  intro moves
  have hblamed : ((Machine.runs (State.move shortLease) (.new shortLease 0) moves).any fun s' =>
      .leaseRenewalLate ∈ s'.chosen) = true := by decide
  obtain ⟨s', h, hlate⟩ := (Option.any_eq_true _ _).mp hblamed
  exact ⟨s', h, of_decide_eq_true hlate⟩

end Supervised

end Pgtask
