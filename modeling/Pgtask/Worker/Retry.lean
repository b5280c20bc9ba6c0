import Mathlib.Order.Bounds.Basic
import Pgtask.Worker.Startup

/-!
# Retry policies

`RetryPolicy::delay_for` of `pgtask-core` against the formula of the documentation, and the way
of a policy from the worker that registers it through the columns of a task back to a worker.
Durations are in nanoseconds.
-/

open Sql Checked

namespace Pgtask

variable {n : Nat} {columns : RetryColumns} {policy : Core.RetryPolicy} {db : Database} {new : Task}

/-! ## Accepted policies -/

/-- `register_worker` takes the policy and the database stores it as `columns`. -/
structure Store.Accepts (policy : Core.RetryPolicy) (columns : RetryColumns) : Prop where
  encoded : retryPolicyColumns policy = .ok columns
  checked : columns.wellFormed = true

theorem Store.milliseconds_ok {duration : Nat} {error : PostgresError} {n : Int} :
    milliseconds duration error = .ok n ↔
      n = (duration / 1000000 : Nat) ∧ duration / 1000000 ≤ 9223372036854775807 := by
  unfold milliseconds
  split <;> simp <;> omega

theorem Store.integer_eq_ok {error : PostgresError} {m : Int} :
    integer n error = .ok m ↔ m = n ∧ n ≤ 2147483647 := by
  unfold integer
  split <;> simp <;> omega

theorem Store.accepts_exponential {baseDelay factor maxDelay : Nat}
    (h : Accepts (.exponential baseDelay factor maxDelay) columns) :
    columns = { kind := some .exponential, baseDelayMilliseconds := some (baseDelay / 1000000 : Nat)
                factor := some factor, maxDelayMilliseconds := some (maxDelay / 1000000 : Nat) } ∧
      0 < factor ∧ baseDelay / 1000000 ≤ maxDelay / 1000000 ∧
      maxDelay / 1000000 ≤ 9223372036854775807 := by
  obtain ⟨encoded, checked⟩ := h
  simp only [retryPolicyColumns, bind_eq_ok, milliseconds_ok, integer_eq_ok] at encoded
  obtain ⟨_, ⟨rfl, -⟩, _, ⟨rfl, -⟩, _, ⟨rfl, hmax⟩, encoded⟩ := encoded
  cases encoded
  simp [RetryColumns.wellFormed] at checked
  exact ⟨rfl, checked.1.2, by omega, hmax⟩

/-! ## Delays -/

namespace Core

def saturatingPow (base exponent : Nat) : Nat := min (base ^ exponent) 4294967295

def saturatingMul (duration factor : Nat) : Nat :=
  min (duration * factor) 18446744073709551615999999999

/-- `random_range(low..=high)`, with what the generator draws. `none` is a panic. -/
def randomRange (low high draw : Nat) : Option Nat :=
  if low ≤ high then some (low + draw % (high - low + 1)) else none

def ceilingNanos (baseDelay factor maxDelay attempt : Nat) : Nat :=
  let multiplier := saturatingPow factor (attempt - 1)
  let ceiling := min (saturatingMul baseDelay multiplier) maxDelay
  min ceiling 18446744073709551615

/-- `none` overall is a panic. -/
def RetryPolicy.delayFor (attempt draw : Nat) : RetryPolicy → Option (Option Nat)
  | .never => some none
  | .fixed delay => some (some delay)
  | .exponential baseDelay factor maxDelay =>
    (randomRange 0 (ceilingNanos baseDelay factor maxDelay attempt) draw).map some

def RetryPolicy.delays (policy : RetryPolicy) (attempt : Nat) : Set Nat :=
  {delay | ∃ draw, policy.delayFor attempt draw = some (some delay)}

section Exponential

variable {baseDelay factor maxDelay : Nat}

theorem delayFor_exponential (attempt draw : Nat) :
    (RetryPolicy.exponential baseDelay factor maxDelay).delayFor attempt draw =
      some (some (draw % (ceilingNanos baseDelay factor maxDelay attempt + 1))) := by
  simp [RetryPolicy.delayFor, randomRange]

theorem isGreatest_delays (attempt : Nat) :
    IsGreatest ((RetryPolicy.exponential baseDelay factor maxDelay).delays attempt)
      (ceilingNanos baseDelay factor maxDelay attempt) := by
  constructor
  · refine ⟨ceilingNanos baseDelay factor maxDelay attempt, ?_⟩
    rw [delayFor_exponential, Nat.mod_eq_of_lt (Nat.lt_succ_self _)]
  · rintro delay ⟨draw, hdraw⟩
    rw [delayFor_exponential] at hdraw
    cases hdraw
    exact Nat.le_of_lt_succ (Nat.mod_lt _ (Nat.succ_pos _))

theorem saturatingPow_le {m : Nat} (hfactor : 0 < factor) (h : m ≤ n) :
    saturatingPow factor m ≤ saturatingPow factor n := by
  have := Nat.pow_le_pow_right hfactor h
  unfold saturatingPow
  omega

theorem ceilingNanos_le {m : Nat} (hfactor : 0 < factor) (h : m ≤ n) :
    ceilingNanos baseDelay factor maxDelay m ≤ ceilingNanos baseDelay factor maxDelay n := by
  have := Nat.mul_le_mul_left baseDelay (saturatingPow_le hfactor (Nat.sub_le_sub_right h 1))
  unfold ceilingNanos saturatingMul
  dsimp only
  omega

/-- What the documentation promises: `base_delay × factor ^ (attempt - 1)`, capped at `max_delay` and
at what a `u64` of nanoseconds holds. -/
def backoff (baseDelay factor maxDelay attempt : Nat) : Nat :=
  min (min (baseDelay * factor ^ (attempt - 1)) maxDelay) 18446744073709551615

structure FollowsBackoff (baseDelay factor maxDelay : Nat) : Prop where
  returns : ∀ attempt draw, 1 ≤ attempt → attempt ≤ 65535 →
    ((RetryPolicy.exponential baseDelay factor maxDelay).delayFor attempt draw).isSome = true
  largest : ∀ attempt, 1 ≤ attempt → attempt ≤ 65535 →
    IsGreatest ((RetryPolicy.exponential baseDelay factor maxDelay).delays attempt)
      (backoff baseDelay factor maxDelay attempt)
  monotone : ∀ m n x y, 1 ≤ m → m ≤ n → n ≤ 65535 →
    IsGreatest ((RetryPolicy.exponential baseDelay factor maxDelay).delays m) x →
    IsGreatest ((RetryPolicy.exponential baseDelay factor maxDelay).delays n) y → x ≤ y

theorem ceilingNanos_eq_backoff {attempt : Nat} (hmax : maxDelay ≤ 18446744073709551615999999999)
    (hpow : factor ^ (attempt - 1) ≤ 4294967295) :
    ceilingNanos baseDelay factor maxDelay attempt = backoff baseDelay factor maxDelay attempt := by
  unfold ceilingNanos saturatingMul saturatingPow backoff
  rw [Nat.min_eq_left hpow]
  dsimp only
  omega

theorem ceilingNanos_eq_backoff_iff {attempt : Nat} (hmax : maxDelay ≤ 18446744073709551615999999999)
    (hpow : 4294967295 < factor ^ (attempt - 1)) :
    ceilingNanos baseDelay factor maxDelay attempt = backoff baseDelay factor maxDelay attempt ↔
      baseDelay = 0 ∨ min maxDelay 18446744073709551615 ≤ baseDelay * 4294967295 := by
  unfold ceilingNanos saturatingMul saturatingPow backoff
  rw [Nat.min_eq_right hpow.le]
  by_cases hbase : baseDelay = 0
  · simp [hbase]
  · have hlt := Nat.mul_lt_mul_of_pos_left hpow (Nat.pos_of_ne_zero hbase)
    generalize baseDelay * factor ^ (attempt - 1) = product at hlt ⊢
    dsimp only
    omega

theorem follows_backoff_iff (h : Store.Accepts (.exponential baseDelay factor maxDelay) columns) :
    FollowsBackoff baseDelay factor maxDelay ↔
      factor = 1 ∨ baseDelay = 0 ∨ min maxDelay 18446744073709551615 ≤ baseDelay * 4294967295 := by
  obtain ⟨-, hfactor, -, hmilliseconds⟩ := Store.accepts_exponential h
  have hmax : maxDelay ≤ 18446744073709551615999999999 := by omega
  constructor
  · intro follows
    by_cases hone : factor = 1
    · exact .inl hone
    -- By the 33rd attempt the power of any other factor has left the `u32` range.
    have hpow : 4294967295 < factor ^ (33 - 1) :=
      (by decide : 4294967295 < 2 ^ 32).trans_le (Nat.pow_le_pow_left (by omega) 32)
    have heq := (isGreatest_delays 33).unique (follows.largest 33 (by decide) (by decide))
    exact .inr ((ceilingNanos_eq_backoff_iff hmax hpow).mp heq)
  · intro hcondition
    have heq : ∀ attempt, ceilingNanos baseDelay factor maxDelay attempt =
        backoff baseDelay factor maxDelay attempt := by
      intro attempt
      by_cases hpow : factor ^ (attempt - 1) ≤ 4294967295
      · exact ceilingNanos_eq_backoff hmax hpow
      · refine (ceilingNanos_eq_backoff_iff hmax (Nat.lt_of_not_le hpow)).mpr ?_
        refine hcondition.resolve_left ?_
        rintro rfl
        simp at hpow
    refine ⟨?_, ?_, ?_⟩
    · intro attempt draw _ _
      rw [delayFor_exponential]
      rfl
    · intro attempt _ _
      rw [← heq]
      exact isGreatest_delays attempt
    · intro m n x y _ hle _ hx hy
      rw [hx.unique (isGreatest_delays m), hy.unique (isGreatest_delays n)]
      exact ceilingNanos_le hfactor hle

end Exponential

theorem doubling_accepted : Store.Accepts (.exponential 1000000 2 5184000000000000)
    { kind := some .exponential, baseDelayMilliseconds := some 1, factor := some 2
      maxDelayMilliseconds := some 5184000000 } :=
  ⟨by rfl, by decide⟩

theorem doubling_stops_short : Store.Accepts (.exponential 1000000 2 5184000000000000)
      { kind := some .exponential, baseDelayMilliseconds := some 1, factor := some 2
        maxDelayMilliseconds := some 5184000000 } ∧
    IsGreatest ((RetryPolicy.exponential 1000000 2 5184000000000000).delays 34) 4294967295000000 ∧
      backoff 1000000 2 5184000000000000 34 = 5184000000000000 :=
  ⟨doubling_accepted, isGreatest_delays 34, by decide⟩

theorem default_accepted : Store.Accepts (.exponential 1000000000 2 60000000000)
    { kind := some .exponential, baseDelayMilliseconds := some 1000, factor := some 2
      maxDelayMilliseconds := some 60000 } :=
  ⟨by rfl, by decide⟩

theorem default_follows_backoff : FollowsBackoff 1000000000 2 60000000000 :=
  (follows_backoff_iff default_accepted).mpr (by decide)

end Core

/-! ## Storage -/

def RetryPolicy.core : RetryPolicy → Core.RetryPolicy
  | .never => .never
  | .fixed delay => .fixed (delay * 1000000)
  | .exponential baseDelay factor maxDelay => .exponential (baseDelay * 1000000) factor (maxDelay * 1000000)

namespace Core.RetryPolicy

def milliseconds : Core.RetryPolicy → Pgtask.RetryPolicy
  | .never => .never
  | .fixed delay => .fixed (delay / 1000000)
  | .exponential baseDelay factor maxDelay => .exponential (baseDelay / 1000000) factor (maxDelay / 1000000)

def WholeMilliseconds : Core.RetryPolicy → Prop
  | .never => True
  | .fixed delay => 1000000 ∣ delay
  | .exponential baseDelay _ maxDelay => 1000000 ∣ baseDelay ∧ 1000000 ∣ maxDelay

theorem core_milliseconds_iff (policy : Core.RetryPolicy) :
    policy.milliseconds.core = policy ↔ policy.WholeMilliseconds := by
  cases policy <;> simp [milliseconds, RetryPolicy.core, WholeMilliseconds] <;> omega

end Core.RetryPolicy

theorem Store.Accepts.parse
    (h : Accepts policy columns) : parseRetryPolicy columns = .ok (some policy.milliseconds) := by
  cases policy with
  | never =>
    cases h.encoded
    rfl
  | fixed delay =>
    have encoded := h.encoded
    simp only [retryPolicyColumns, bind_eq_ok, milliseconds_ok] at encoded
    obtain ⟨_, ⟨rfl, -⟩, encoded⟩ := encoded
    cases encoded
    rfl
  | exponential baseDelay factor maxDelay =>
    rw [(accepts_exponential h).1]
    rfl

theorem snapshotTaskRetryPolicy_retry (own : new.retry.kind = none)
    (stored : db.handlerPolicies.get? ⟨new.queueName, new.taskName, new.handlerVersion⟩ = some columns) :
    (snapshotTaskRetryPolicy db new).retry = columns := by
  simp [snapshotTaskRetryPolicy, own, stored]

/-- The policy that a worker decodes from a task, once the database has inserted it. -/
def decodedPolicy (db : Database) (new : Task) : Except PostgresError (Option Core.RetryPolicy) :=
  (parseRetryPolicy (snapshotTaskRetryPolicy db new).retry).map (·.map RetryPolicy.core)

theorem decodedPolicy_iff (accepted : Store.Accepts policy columns) (own : new.retry.kind = none)
    (stored : db.handlerPolicies.get? ⟨new.queueName, new.taskName, new.handlerVersion⟩ = some columns) :
    decodedPolicy db new = .ok (some policy) ↔ policy.WholeMilliseconds := by
  unfold decodedPolicy
  rw [snapshotTaskRetryPolicy_retry own stored, accepted.parse, ← policy.core_milliseconds_iff]
  simp [Except.map]

/-- Two policies survive their storage and stay apart in it exactly if they are whole. -/
theorem policies_survive_iff {db' : Database} {new' : Task} {policy' : Core.RetryPolicy}
    {columns' : RetryColumns} (accepted : Store.Accepts policy columns)
    (accepted' : Store.Accepts policy' columns') (own : new.retry.kind = none)
    (own' : new'.retry.kind = none)
    (stored : db.handlerPolicies.get? ⟨new.queueName, new.taskName, new.handlerVersion⟩ = some columns)
    (stored' : db'.handlerPolicies.get? ⟨new'.queueName, new'.taskName, new'.handlerVersion⟩ =
      some columns') :
    (decodedPolicy db new = .ok (some policy) ∧ decodedPolicy db' new' = .ok (some policy') ∧
        (policy ≠ policy' → columns ≠ columns')) ↔
      policy.WholeMilliseconds ∧ policy'.WholeMilliseconds := by
  rw [decodedPolicy_iff accepted own stored, decodedPolicy_iff accepted' own' stored']
  constructor
  · rintro ⟨whole, whole', -⟩
    exact ⟨whole, whole'⟩
  · rintro ⟨whole, whole'⟩
    refine ⟨whole, whole', ?_⟩
    intro hne heq
    have hparse := accepted.parse.symm.trans (heq ▸ accepted'.parse)
    apply hne
    rw [← policy.core_milliseconds_iff.mpr whole, ← policy'.core_milliseconds_iff.mpr whole']
    simp only [Except.ok.injEq, Option.some.injEq] at hparse
    rw [hparse]

def plainTask : Task :=
  { queueName := "mail", taskName := "send", handlerVersion := 1, payload := .null, headers := .obj []
    priority := 0, runAt := 0, maxAttempts := 5 }

def storing (columns : RetryColumns) : Database :=
  { handlerPolicies := Table.empty.put ⟨"mail", "send", 1⟩ columns }

theorem second_and_two_survive :
    decodedPolicy (storing { kind := some .fixed, baseDelayMilliseconds := some 1000 }) plainTask =
        .ok (some (.fixed 1000000000)) ∧
      decodedPolicy (storing { kind := some .fixed, baseDelayMilliseconds := some 2000 }) plainTask =
        .ok (some (.fixed 2000000000)) ∧
      (Core.RetryPolicy.fixed 1000000000 ≠ .fixed 2000000000 →
        ({ kind := some .fixed, baseDelayMilliseconds := some 1000 } : RetryColumns) ≠
          { kind := some .fixed, baseDelayMilliseconds := some 2000 }) :=
  (policies_survive_iff ⟨by rfl, by decide⟩ ⟨by rfl, by decide⟩ rfl rfl (by decide) (by decide)).mpr
    ⟨⟨1000, rfl⟩, ⟨2000, rfl⟩⟩

theorem fractions_collide :
    (Store.Accepts (.fixed 1200000) { kind := some .fixed, baseDelayMilliseconds := some 1 } ∧
      Store.Accepts (.fixed 1500000) { kind := some .fixed, baseDelayMilliseconds := some 1 }) ∧
    decodedPolicy (storing { kind := some .fixed, baseDelayMilliseconds := some 1 }) plainTask =
      .ok (some (.fixed 1000000)) :=
  ⟨⟨⟨by rfl, by decide⟩, ⟨by rfl, by decide⟩⟩, by rfl⟩

end Pgtask
