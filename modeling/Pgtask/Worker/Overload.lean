import Pgtask.Worker.Health

/-!
# Overload control

The limit on the tasks of a worker has two writers: the `OverloadDetector` and the owner of the
worker, who calls `set_effective_concurrency`.
-/

namespace Pgtask

def WorkerControl.setEffectiveConcurrency (limit : Nat) (control : WorkerControl) : WorkerControl :=
  (control.applyEffectiveConcurrency limit).getD control

namespace Overload

/-- `calm` counts the observations in a row, up to now, that had no reason. -/
structure State where
  control : WorkerControl
  detector : OverloadDetector := {}
  calm : Nat := 0

/-- The limit that the owner sets is a `NonZeroU16`. -/
inductive Move
  | observe (observation : HealthObservation)
  | setEffectiveConcurrency (limit : Nat) (positive : 0 < limit)

def State.new (c : SupervisedConfig) : State where
  control := ⟨c.concurrency, c.concurrency, c.concurrency, none, Nat.le.refl⟩

/-- `none` is a panic. -/
def State.next (c : SupervisedConfig) (s : State) : Move → Option State
  | .observe o => do
    let (reason, control, detector) ← s.detector.observe c.overload c.leaseRenewalThreshold o s.control
    some { control, detector, calm := if reason.isSome then 0 else s.calm + 1 }
  | .setEffectiveConcurrency limit _ => some { s with control := s.control.setEffectiveConcurrency limit }

/-- The limit is in its range, and so its getters do not panic. -/
structure InRange (c : SupervisedConfig) (control : WorkerControl) : Prop where
  positive : 0 < control.effective
  bounded : control.effective ≤ c.concurrency
  proposed : 0 < control.proposed

structure Gentle (c : SupervisedConfig) (s : State) (reason : Option OverloadReason)
    (control : WorkerControl) : Prop where
  lowers : reason.isSome = true → control.effective ≤ s.control.effective
  raises : reason = none → control.effective ≤ s.control.effective + 1
  patient : reason = none → s.control.effective < control.effective →
    c.overload.recoverySamples ≤ s.calm + 1

/-- The move does not panic and leaves the limit in its range. An observation is gentle. -/
def Safe (c : SupervisedConfig) (s : State) : Move → Prop
  | .observe o => ∃ reason control detector,
      s.detector.observe c.overload c.leaseRenewalThreshold o s.control = some (reason, control, detector) ∧
        InRange c control ∧ Gentle c s reason control
  | .setEffectiveConcurrency limit _ => InRange c (s.control.setEffectiveConcurrency limit)

/-- An enforcing detector finds a reason only while the limit is not below its minimum. -/
def Spared (c : SupervisedConfig) (s : State) : Move → Prop
  | .observe o => ∀ reason control detector,
      s.detector.observe c.overload c.leaseRenewalThreshold o s.control =
        some (some reason, control, detector) →
      c.overload.enforce = true → c.overload.minimumConcurrency ≤ s.control.effective
  | .setEffectiveConcurrency _ _ => True

structure Inv (c : SupervisedConfig) (s : State) : Prop extends InRange c s.control where
  configured : s.control.configured = c.concurrency
  calm : s.detector.recoverySamples ≤ s.calm

theorem Inv.new (c : SupervisedConfig) : Inv c (.new c) where
  positive := Nat.lt_of_lt_of_le c.overload.positive c.minimum
  bounded := Nat.le_refl _
  proposed := Nat.lt_of_lt_of_le c.overload.positive c.minimum
  configured := rfl
  calm := Nat.le_refl _

variable {c : SupervisedConfig} {s s' : State}

theorem Inv.observe (inv : Inv c s) (o : HealthObservation) :
    ∃ reason control detector, s.detector.observe c.overload c.leaseRenewalThreshold o s.control =
        some (reason, control, detector) ∧
      Supervised.Observed c.overload reason s.control control s.detector detector ∧
      Inv c ⟨control, detector, if reason.isSome then 0 else s.calm + 1⟩ := by
  have minimum : c.overload.minimumConcurrency ≤ s.control.configured := inv.configured ▸ c.minimum
  obtain ⟨reason, control, detector, hobserve, hobserved⟩ :=
    Supervised.observe_ok c.leaseRenewalThreshold o s.detector inv.positive minimum
  have configured := hobserved.configured.trans inv.configured
  refine ⟨reason, control, detector, hobserve, hobserved, ?_⟩
  refine ⟨⟨hobserved.positive inv.positive minimum, configured ▸ control.bounded,
    hobserved.proposed inv.proposed⟩, configured, ?_⟩
  have hcalm := inv.calm
  have hcounted := hobserved.counted
  dsimp only
  split at hcounted
  · rwa [if_pos ‹_›]
  · rw [if_neg ‹_›]
    omega

theorem Inv.set (inv : Inv c s) {limit : Nat} (positive : 0 < limit) :
    Inv c { s with control := s.control.setEffectiveConcurrency limit } := by
  unfold WorkerControl.setEffectiveConcurrency WorkerControl.applyEffectiveConcurrency
  split
  · rename_i hle
    exact ⟨⟨positive, inv.configured ▸ hle, inv.proposed⟩, inv.configured, inv.calm⟩
  · exact inv

theorem Inv.next (inv : Inv c s) (m : Move) : ∃ s', s.next c m = some s' ∧ Inv c s' := by
  cases m with
  | observe o =>
    obtain ⟨reason, control, detector, hobserve, -, inv'⟩ := inv.observe o
    exact ⟨_, by simp [State.next, hobserve], inv'⟩
  | setEffectiveConcurrency limit positive => exact ⟨_, rfl, inv.set positive⟩

theorem Inv.keeps (m : Move) (h : s.next c m = some s') (inv : Inv c s) : Inv c s' := by
  obtain ⟨s1, h1, inv'⟩ := inv.next m
  cases h1.symm.trans h
  exact inv'

theorem Inv.safe_iff (inv : Inv c s) (m : Move) : Safe c s m ↔ Spared c s m := by
  cases m with
  | setEffectiveConcurrency limit positive =>
    simp only [Safe, Spared, iff_true]
    exact (inv.set positive).toInRange
  | observe o =>
    have := inv.positive
    have := inv.calm
    obtain ⟨reason, control, detector, hobserve, hobserved, inv'⟩ := inv.observe o
    simp only [Safe, Spared, hobserve, Option.some.injEq, Prod.mk.injEq]
    constructor
    · rintro ⟨_, _, _, ⟨rfl, rfl, rfl⟩, -, hgentle⟩ reason' _ _ ⟨rfl, -, -⟩ henforce
      have hle := hgentle.lowers rfl
      rw [hobserved.lowered rfl, if_pos henforce] at hle
      simp only [OverloadDetector.proposal] at hle
      omega
    · intro hspared
      refine ⟨reason, control, detector, ⟨rfl, rfl, rfl⟩, inv'.toInRange, ?_, ?_, ?_⟩
      · intro hsome
        obtain ⟨reason, rfl⟩ := Option.isSome_iff_exists.mp hsome
        have hle := hspared reason control detector ⟨rfl, rfl, rfl⟩
        rw [hobserved.lowered rfl]
        simp only [OverloadDetector.proposal]
        split
        · have := hle ‹_›
          omega
        · omega
      · rintro rfl
        obtain heq | ⟨-, heq⟩ := hobserved.raised rfl
        · omega
        · simp only [OverloadDetector.proposal, OverloadDetector.saturatingSucc] at heq
          omega
      · rintro rfl hlt
        have hcounted := hobserved.counted
        simp only [Option.isSome_none, Bool.false_eq_true, if_false] at hcounted
        obtain heq | ⟨hsamples, -⟩ := hobserved.raised rfl
        · omega
        · omega

/-- The owner does not go below the minimum of the detector. -/
def Move.Respects (minimum : Nat) : Move → Prop
  | .observe _ => True
  | .setEffectiveConcurrency limit _ => minimum ≤ limit

theorem respects_keeps (m : Move) (hm : m.Respects c.overload.minimumConcurrency)
    (h : s.next c m = some s') (inv : Inv c s)
    (above : c.overload.minimumConcurrency ≤ s.control.effective) :
    c.overload.minimumConcurrency ≤ s'.control.effective := by
  cases m with
  | setEffectiveConcurrency limit positive =>
    cases h
    unfold WorkerControl.setEffectiveConcurrency WorkerControl.applyEffectiveConcurrency
    split
    · exact hm
    · exact above
  | observe o =>
    obtain ⟨reason, control, detector, hobserve, hobserved, -⟩ := inv.observe o
    simp only [State.next, hobserve, Option.bind_eq_bind, Option.bind_some, Option.some.injEq] at h
    subst h
    cases reason with
    | some reason =>
      rw [hobserved.lowered rfl]
      split
      · exact Nat.le_max_right _ _
      · exact above
    | none =>
      have := c.minimum
      have := c.fits
      have := inv.configured
      obtain heq | ⟨-, heq⟩ := hobserved.raised rfl
      · exact heq ▸ above
      · rw [heq]
        simp only [OverloadDetector.proposal, OverloadDetector.saturatingSucc]
        omega

end Overload

open Overload

/-- The control is safe along a run exactly if the owner's limit is never below the minimum of an
enforcing detector when that finds a reason. It is not if the owner respects the minimum. -/
theorem overload_control_safe_iff (c : SupervisedConfig) (moves : List Overload.Move) :
    (Machine.EveryMove (State.next c) (Safe c) (.new c) moves ↔
      Machine.EveryMove (State.next c) (Spared c) (.new c) moves) ∧
    (c.overload.enforce = false ∨ (∀ m ∈ moves, m.Respects c.overload.minimumConcurrency) →
      Machine.EveryMove (State.next c) (Spared c) (.new c) moves) := by
  refine ⟨⟨?_, ?_⟩, ?_⟩
  · exact Machine.EveryMove.imp (fun s m s' _ h inv => Inv.keeps m h inv)
      (fun s m inv => (inv.safe_iff m).mp) (Inv.new c)
  · exact Machine.EveryMove.imp (fun s m s' _ h inv => Inv.keeps m h inv)
      (fun s m inv => (inv.safe_iff m).mpr) (Inv.new c)
  · rintro (henforce | hrespects)
    · refine Machine.EveryMove.imp (I := fun _ => True) (fun s m s' _ _ _ => trivial) ?_ trivial
        (Machine.everyMove_of_forall (p := fun _ => True) fun _ _ => trivial)
      intro s m _ _
      cases m with
      | observe o =>
        intro _ _ _ _ henforced
        exact absurd (henforce.symm.trans henforced) Bool.false_ne_true
      | setEffectiveConcurrency limit positive => trivial
    · refine Machine.EveryMove.imp
        (I := fun s => Inv c s ∧ c.overload.minimumConcurrency ≤ s.control.effective)
        (fun s m s' hm h inv => ⟨inv.1.keeps m h, respects_keeps m hm h inv.1 inv.2⟩) ?_
        ⟨Inv.new c, c.minimum⟩ (Machine.everyMove_of_forall hrespects)
      intro s m inv _
      cases m with
      | observe o =>
        intro _ _ _ _ _
        exact inv.2
      | setEffectiveConcurrency limit positive => trivial

namespace Overload

def enforcing : SupervisedConfig :=
  ⟨10, 30000000000, 1000000000, { enforce := true, minimumConcurrency := 2 }, by decide, by decide,
    Nat.le_add_right 10 65525⟩

def unreachable : HealthObservation := ⟨false, false, true, 0, 0⟩

theorem respectful_owner_safe :
    Machine.EveryMove (State.next enforcing) (Safe enforcing) (.new enforcing)
      [.setEffectiveConcurrency 3 (by decide), .observe unreachable] := by
  have hsafe := overload_control_safe_iff enforcing
    [.setEffectiveConcurrency 3 (by decide), .observe unreachable]
  refine hsafe.1.mpr (hsafe.2 (.inr ?_))
  simp [Move.Respects, enforcing]

theorem overload_raises_limit :
    ((State.new enforcing).next enforcing (.setEffectiveConcurrency 1 (by decide))).any fun s =>
      (s.detector.observe enforcing.overload enforcing.leaseRenewalThreshold unreachable s.control).any
        fun x => x.1 = some .databaseUnavailable && s.control.effective = 1 && x.2.1.effective = 2 := by
  decide

end Overload

end Pgtask
