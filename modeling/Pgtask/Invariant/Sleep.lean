import Pgtask.Invariant.Kept

/-!
# Sleeps

A sleep leaves its wake time in `run_at` of the pending task, and no claim comes
before that. A cancelled task has lost it: a retry sets `run_at` to its own time.
-/

open Sql Checked List

namespace Pgtask

variable {e : Env} {l : Label} {db : Database} {id : Uuid} {server : Server} {s s' : Session}
  {wake : Timestamp} {rs since : List Request}

/-! ## Claims come in time -/

def Patient (db : Database) : Prop :=
  ∀ name q, db.queues.get? name = some q → 0 ≤ q.starvationTimeoutSeconds

theorem patient_of_checks {q : Queue} {name : String} (h : Holds (q.checks name)) :
    0 ≤ q.starvationTimeoutSeconds := by
  have hcheck := h ("queues_starvation_timeout_seconds_check", decide (0 ≤ q.starvationTimeoutSeconds))
    (by simp [Queue.checks])
  exact of_decide_eq_true hcheck

theorem effect_keeps_patient (effect : Effect e l s s') (h : Patient s.db) : Patient s'.db := by
  intro name q row
  by_cases hl : l ≠ .addQueue name ∧ l ≠ .configure name ∧ l ≠ .touchQueue name
  · have hsame : (s'.db.queues.get? name).map Queue.starvationTimeoutSeconds =
        (s.db.queues.get? name).map Queue.starvationTimeoutSeconds := by
      refine effect.queueColumn (fun q => ?_) (fun q => ?_) name hl
      · unfold Queue.released
        split <;> rfl
      · unfold Queue.taken
        split <;> rfl
    rw [row, Option.map_some] at hsame
    obtain ⟨q0, row0, hq⟩ := Option.map_eq_some_iff.mp hsame.symm
    rw [← hq]
    exact h name q0 row0
  · cases effect with
    | @addQueue _ n free checked =>
      have hn : n = name := by simpa using hl
      subst hn
      cases (Table.get?_put_self _ _ _).symm.trans row
      exact patient_of_checks checked
    | @configure _ n q' counter checked =>
      have hn : n = name := by simpa using hl
      subst hn
      cases (Table.get?_put_self _ _ _).symm.trans row
      exact patient_of_checks checked
    | @touchQueue _ n q0 q' row0 limit counter retention same =>
      have hn : n = name := by simpa using hl
      subst hn
      cases (Table.get?_put_self _ _ _).symm.trans row
      have hchecks := congrFun same n
      simp only [Queue.checks, List.cons.injEq, Prod.mk.injEq, decide_eq_decide, true_and] at hchecks
      exact hchecks.2.2.2.1.mpr (h n q0 row0)
    | _ => simp at hl

theorem run_patient (server : Server) (rs : List Request) : Patient (run server rs).db :=
  run_keeps (I := fun s => Patient s.db) (fun _ _ row => by cases row)
    (fun _ _ _ _ effect => effect_keeps_patient effect) rs

/-! ## A task that sleeps -/

def Asleep (wake : Timestamp) (row : Option Task) : Prop :=
  ∀ t, row = some t → (t.state = .pending ∧ wake ≤ t.runAt) ∨ t.state.terminal = true

theorem Asleep.row_step {row row' : Option Task} (step : RowStep e db id l row row')
    (h : Asleep wake row) (patient : Patient db) (old : l ≠ .insert id ∧ l ≠ .materialize id)
    (retry : l = .retry id → wake ≤ e.now) : Asleep wake row' ∨ wake ≤ e.now := by
  cases step with
  | same => exact .inl h
  | claim pending ready =>
    rcases h _ rfl with ⟨-, hwake⟩ | hended
    · exact .inr (hwake.trans (ready fun q => patient _ q))
    · simp [pending, TaskState.terminal] at hended
  | cancel =>
    refine .inl fun t ht => ?_
    cases ht
    exact .inr rfl
  | retry => exact .inr (retry rfl)
  | insert _ label => exact absurd label (not_or.mpr old)
  | adopt =>
    refine .inl fun t ht => ?_
    cases ht
    exact (h _ rfl :)
  | wake =>
    refine .inl fun t ht => ?_
    obtain ⟨t0, hrow, rfl⟩ := Option.map_eq_some_iff.mp ht
    have hawake : t0.state ≠ .waiting := by
      rcases h t0 hrow with ⟨hpending, -⟩ | hended
      · simp [hpending]
      · rintro hwaiting
        simp [hwaiting, TaskState.terminal] at hended
    rw [Task.woken, if_neg hawake]
    exact h t0 hrow
  | delete => exact .inl fun _ ht => by cases ht
  | _ running =>
    rcases h _ rfl with ⟨hpending, -⟩ | hended
    · simp [running] at hpending
    · simp [running, TaskState.terminal] at hended

theorem Asleep.claimed {lease : Lease} (effect : Effect e (.claim lease) s s') (patient : Patient s.db)
    (h : Asleep wake (s.db.tasks.get? lease.taskId)) : wake ≤ e.now := by
  cases effect with
  | claim row pending _ _ _ _ ready =>
    rcases h _ row with ⟨-, hwake⟩ | hended
    · exact hwake.trans (ready fun q => patient _ q)
    · simp [pending, TaskState.terminal] at hended

def RetriesBefore (wake : Timestamp) (id : Uuid) (r : Request) : Prop :=
  r.now < wake ∧ ∃ actor, r.call = .adminRetryTask id actor

theorem step_asleep {w : World} {r : Request} (h : Asleep wake (w.db.tasks.get? id))
    (patient : Patient w.db) (born : Born server w.drawn id)
    (distinct : server.Distinct (step server w r).2.drawn) (retries : ¬ RetriesBefore wake id r)
    (early : r.now < wake) : Asleep wake ((step server w r).2.db.tasks.get? id) ∧
      ∀ lease ∈ handsOut server w r, lease.taskId ≠ id := by
  obtain ⟨ls, path, hls, hclaims, -⟩ := step_path server w r
  have hold := born_not_inserted born distinct path
  have keeps : ∀ l s s', (r.call.effects l ∧ l ≠ .insert id ∧ l ≠ .materialize id) →
      Effect (server.envAt r.now) l s s' →
      (Asleep wake (s.db.tasks.get? id) ∧ Patient s.db) →
        Asleep wake (s'.db.tasks.get? id) ∧ Patient s'.db := by
    rintro l s s' ⟨hl, hnew⟩ effect ⟨hasleep, hpatient⟩
    have hretry : l ≠ .retry id := by
      rintro rfl
      exact retries ⟨early, effects_no_retry hl⟩
    refine ⟨?_, effect_keeps_patient effect hpatient⟩
    rcases hasleep.row_step (effect.row id) hpatient hnew (absurd · hretry) with h' | hlate
    · exact h'
    · exact absurd hlate (Int.not_le.mpr early)
  have allowed : ∀ l ∈ ls, r.call.effects l ∧ l ≠ .insert id ∧ l ≠ .materialize id :=
    fun l hl => ⟨hls l hl, hold l hl⟩
  refine ⟨(path.keeps keeps allowed ⟨h, patient⟩).1, fun lease hlease hid => ?_⟩
  obtain ⟨before, after, s1, s2, rfl, first, claim, -⟩ := path.split ((hclaims lease).mpr hlease)
  obtain ⟨hasleep, hpatient⟩ := first.keeps keeps (fun l hl => allowed l (by simp [hl])) ⟨h, patient⟩
  subst hid
  exact absurd (hasleep.claimed claim hpatient) (Int.not_le.mpr early)

theorem run_asleep (h : Asleep wake ((run server rs).db.tasks.get? id))
    (born : Born server (run server rs).drawn id)
    (distinct : server.Distinct (run server (rs ++ since)).drawn)
    (retries : ∀ r ∈ since, ¬ RetriesBefore wake id r) (early : ∀ r ∈ since, r.now < wake) :
    Asleep wake ((run server (rs ++ since)).db.tasks.get? id) := by
  induction since using List.reverseRecOn with
  | nil => rwa [append_nil]
  | append_singleton since r ih =>
    have hdrawn := run_drawn_le server (rs ++ since) [r]
    rw [append_assoc] at hdrawn
    have hbefore := ih (distinct.mono hdrawn) (fun r' hr' => retries r' (by simp [hr']))
      (fun r' hr' => early r' (by simp [hr']))
    rw [← append_assoc, run_concat] at distinct ⊢
    exact (step_asleep hbefore (run_patient server _) (born.mono (run_drawn_le server rs since))
      distinct (retries r (by simp)) (early r (by simp))).1

/-! ## The sleep of a handler -/

theorem suspendTask_row {token : Uuid} {attempt : Nat} {stepName : String} {occurrence : Int}
    {wakeAt : Option Timestamp} {delay : Option Int}
    (h : suspendTask e id attempt token stepName occurrence wakeAt delay s = .ok (some wake, s')) :
    ∃ t, s'.db.tasks.get? id = some t ∧ t.state = .pending ∧ t.runAt = wake := by
  unfold suspendTask at h
  obtain ⟨w, -, h⟩ := bind_ok h
  split at h
  · cases h
  · rename_i t hf
    obtain ⟨u, -, h⟩ := bind_ok h
    split at h
    · cases h
    · obtain ⟨s1, h1, h⟩ := bind_ok h
      obtain ⟨s2, h2, h⟩ := bind_ok h
      cases h
      obtain ⟨rfl, -, -⟩ := updateTask_spec h1
      have hs2 := updateAttempt_spec h2
      subst hs2
      exact ⟨t.yielded wake, Table.get?_put_self _ _ _, rfl, rfl⟩

/-- After the requests `rs`, an execution that was claimed at `claimedAt` calls a sleep of the step,
and the sleep returns `Ok`. -/
structure WakesUp (server : Server) (rs : List Request) (c : TaskContext) (stepName : String)
    (occurrence : Nat) (claimedAt : Timestamp) : Prop where
  claimed : ∃ before r after, rs = before ++ r :: after ∧ Executes server before r c ∧
    r.now = claimedAt
  returned : ∃ during, (∃ time, Yields server rs (c.sleepUntil stepName occurrence time) during ()) ∨
    ∃ ms, Yields server rs (c.sleepFor stepName occurrence ms) during ()

/-- Once a sleep until `wake` is recorded, it is over only for executions that were claimed at
`wake` or later. The execution has to hold its lease, and nobody may retry the task before `wake`. -/
theorem sleep_ends_in_time (server : Server) (rs since : List Request) (r : Request) (l : Lease)
    (stepName : String) (occurrence : Nat) (wakeAt : Option Timestamp) (delay : Option Int)
    (wake claimedAt : Timestamp) (c : TaskContext)
    (clock : (rs ++ r :: since).Pairwise fun a b => a.now ≤ b.now)
    (call : r.call = .suspendTask l stepName occurrence wakeAt delay)
    (recorded : (step server (run server rs) r).1 = .returned (.wakeAt (some wake)))
    (wakes : WakesUp server (rs ++ r :: since) c stepName occurrence claimedAt)
    (task : c.taskId = l.taskId) (holds : c.lease.passes (run server (rs ++ r :: since)).db)
    (retries : ∀ r' ∈ since, ¬ RetriesBefore wake l.taskId r')
    (distinct : server.Distinct (run server (rs ++ r :: since)).drawn) : wake ≤ claimedAt := by
  obtain ⟨before, rc, after, hrs, hclaim, rfl⟩ := wakes.claimed
  obtain ⟨hlease, -⟩ := hclaim.claimed
  obtain ⟨t, row, pending, hwake⟩ : ∃ t, (run server (rs ++ [r])).db.tasks.get? l.taskId = some t ∧
      t.state = .pending ∧ t.runAt = wake := by
    obtain ⟨s', hexec, hs'⟩ := step_returned recorded
    rw [call] at hexec
    obtain ⟨a, hsuspend, ha⟩ := reply_ok hexec
    cases ha
    rw [run_concat, ← World.session_db, ← hs']
    exact suspendTask_row hsuspend
  rcases append_eq_append_iff.mp hrs with ⟨x, rfl, hx⟩ | ⟨x, rfl, hx⟩
  · cases x with
    | nil =>
      -- A suspension claims nothing.
      cases hx
      rw [append_nil, handsOut, recorded] at hlease
      cases hlease
    | cons r' x =>
      cases hx
      by_contra hlate
      have early : rc.now < wake := Int.not_le.mp hlate
      have sorted : ∀ r' ∈ x, r'.now ≤ rc.now := by
        intro r' hr'
        have := (pairwise_append.mp clock).2.1
        rw [pairwise_cons] at this
        exact (pairwise_append.mp this.2).2.2 r' hr' rc (by simp)
      rw [append_cons] at hlease
      have hdrawn : server.Distinct (run server (rs ++ [r] ++ x ++ [rc])).drawn := by
        refine distinct.mono ?_
        have := run_drawn_le server (rs ++ [r] ++ x ++ [rc]) after
        simpa using this
      have born : Born server (run server (rs ++ [r])).drawn l.taskId := run_born server _ _ t row
      have asleep : Asleep wake ((run server (rs ++ [r])).db.tasks.get? l.taskId) := by
        intro t' row'
        obtain rfl := Option.some.inj (row.symm.trans row')
        exact Or.inl ⟨pending, hwake.ge⟩
      have hbefore := run_asleep asleep born (hdrawn.mono (run_drawn_le server _ [rc]))
        (fun r' hr' => retries r' (by simp [hr'])) (fun r' hr' => (sorted r' hr').trans_lt early)
      rw [run_concat] at hdrawn
      exact (step_asleep hbefore (run_patient server _) (born.mono (run_drawn_le server _ x)) hdrawn
        (retries rc (by simp)) early).2 c.lease hlease task
  · cases x with
    | nil =>
      cases hx
      rw [append_nil] at recorded
      rw [handsOut, recorded] at hlease
      cases hlease
    | cons r' x =>
      -- The execution had its lease before the suspension ended it.
      cases hx
      have hlist : before ++ rc :: x ++ r :: since = before ++ rc :: (x ++ r :: since) := by simp
      rw [hlist] at distinct holds
      obtain ⟨hruns, -⟩ := (passes_iff_stillHeld distinct hlease).2.mp holds
      obtain ⟨t', row', running⟩ := hruns (x ++ [r]) since (by simp)
      have hstate : before ++ rc :: (x ++ [r]) = before ++ rc :: x ++ [r] := by simp
      rw [hstate, show c.lease.taskId = l.taskId from task, row] at row'
      cases row'
      rw [pending] at running
      cases running

def sleepRun : List Request :=
  [⟨0, .enqueue { taskName := some "a", payload := some .null }⟩,
   ⟨1, .claim "default" (Uuid.ofNat 100) ["a"] [1] 1 1000⟩]

def goToSleep : Request := ⟨2, .suspendTask ⟨Uuid.ofNat 1, 1, Uuid.ofNat 2⟩ "s" 0 (some 1000) none⟩

def claimAgain (now : Timestamp) : Request :=
  ⟨now, .claim "default" (Uuid.ofNat 100) ["a"] [1] 1 1000⟩

def readSleep (now : Timestamp) : Request := ⟨now, .getCheckpoint ⟨Uuid.ofNat 1, 1, "s", 0⟩⟩

theorem sleep_ends_at_wake_time :
    WakesUp countingServer (sleepRun ++ goToSleep :: [claimAgain 1000])
      ⟨Uuid.ofNat 1, 1, 2, Uuid.ofNat 3⟩ "s" 0 1000 ∧ (1000 : Timestamp) ≤ 1000 := by
  have wakes : WakesUp countingServer (sleepRun ++ goToSleep :: [claimAgain 1000])
      ⟨Uuid.ofNat 1, 1, 2, Uuid.ofNat 3⟩ "s" 0 1000 := by
    refine ⟨⟨sleepRun ++ [goToSleep], claimAgain 1000, [], rfl, ?_, rfl⟩, [readSleep 1001],
      Or.inl ⟨1000, ?_⟩⟩
    · unfold Executes
      decide +kernel
    · have read : answer countingServer (sleepRun ++ goToSleep :: [claimAgain 1000]) (readSleep 1001) =
          some (.checkpoint (some (.obj [("wake_at", .str "")]))) := by decide +kernel
      exact Client.Runs.answered read .ret
  refine ⟨wakes, sleep_ends_in_time countingServer sleepRun [claimAgain 1000] goToSleep
    ⟨Uuid.ofNat 1, 1, Uuid.ofNat 2⟩ "s" 0 (some 1000) none 1000 1000 _ (by decide) rfl
    (by decide +kernel) wakes rfl (by decide +kernel) ?_ ?_⟩
  · intro r' hr'
    obtain rfl := mem_singleton.mp hr'
    rintro ⟨-, actor, hcall⟩
    cases hcall
  · rw [show (run countingServer (sleepRun ++ goToSleep :: [claimAgain 1000])).drawn = 3 by
      decide +kernel]
    exact countingServer_distinct (by decide)

theorem sleep_ends_early :
    (step countingServer (run countingServer sleepRun) goToSleep).1 = .returned (.wakeAt (some 1000)) ∧
      WakesUp countingServer (sleepRun ++ goToSleep :: [⟨3, .cancelTask (Uuid.ofNat 1)⟩,
        ⟨4, .adminRetryTask (Uuid.ofNat 1) (some "root")⟩, claimAgain 5])
        ⟨Uuid.ofNat 1, 1, 2, Uuid.ofNat 3⟩ "s" 0 5 ∧
      WakesUp countingServer (sleepRun ++ [goToSleep]) ⟨Uuid.ofNat 1, 1, 1, Uuid.ofNat 2⟩ "s" 0 1 := by
  refine ⟨by decide +kernel, ⟨⟨sleepRun ++ goToSleep :: [⟨3, .cancelTask (Uuid.ofNat 1)⟩,
    ⟨4, .adminRetryTask (Uuid.ofNat 1) (some "root")⟩], claimAgain 5, [], rfl, ?_, rfl⟩,
    [readSleep 6], Or.inl ⟨1000, ?_⟩⟩, ⟨sleepRun.take 1, claimAgain 1, [goToSleep], rfl, ?_, rfl⟩,
    [readSleep 3], Or.inl ⟨1000, ?_⟩⟩
  · unfold Executes
    decide +kernel
  · have read : answer countingServer (sleepRun ++ goToSleep :: [⟨3, .cancelTask (Uuid.ofNat 1)⟩,
        ⟨4, .adminRetryTask (Uuid.ofNat 1) (some "root")⟩, claimAgain 5]) (readSleep 6) =
          some (.checkpoint (some (.obj [("wake_at", .str "")]))) := by decide +kernel
    exact Client.Runs.answered read .ret
  · unfold Executes
    decide +kernel
  · have read : answer countingServer (sleepRun ++ [goToSleep]) (readSleep 3) =
          some (.checkpoint (some (.obj [("wake_at", .str "")]))) := by decide +kernel
    exact Client.Runs.answered read .ret

end Pgtask
