import Pgtask.Invariant.Refusal
import Pgtask.Invariant.Spawn

/-!
# Calls that are sent twice

A client that does not know the outcome of a mutation sends it again, maybe
late. The first call has ended the lease, or left the checkpoint of its step, and
the second one changes nothing.
-/

open Sql Checked Forest List

namespace Pgtask

variable {t : Task} {k : StepKey} {wakeAt : Option Timestamp} {delay timeout : Option Int}
  {value v : Json} {rs : List Request}

/-- The calls under a lease that a client may send again: all but lease renewal. -/
def Call.mutates : Call → Bool
  | .renewLeases .. => false
  | c => c.leaseOwned

variable {e : Env} {server : Server} {l : Lease} {s s' : Session} {c : Call} {answer : Reply}

theorem mutates_owned (h : c.mutates = true) : c.leaseOwned = true := by
  cases c <;> first | exact h | cases h

/-! ## The call ends its leases -/

theorem RowStep.keeps_lost {db : Database} {id : Uuid} {label : Label} {row row' : Option Task}
    (step : RowStep e db id label row row') (unclaimed : ∀ l, label ≠ .claim l)
    (old : label ≠ .insert id ∧ label ≠ .materialize id) (lost : ¬ l.matchesRow row) :
    ¬ l.matchesRow row' := by
  rintro ⟨t', rfl, running, attempt, token⟩
  rcases step.lease with ⟨t, row, hattempt, -, hrun⟩ | ⟨t, token, -, claim, -⟩ | inserted
  · exact lost ⟨t, row, (hrun running).1, hattempt ▸ attempt, (hrun running).2 ▸ token⟩
  · exact unclaimed _ claim
  · exact absurd inserted (not_or.mpr old)

theorem fireTriggers_lost (settled : s.Settled) (h : fireTriggers e s = .ok s')
    (lost : ¬ l.passes s.db) : ¬ l.passes s'.db := by
  obtain ⟨⟨ls, path, cascade⟩, -⟩ := fireTriggers_spec settled h
  rw [passes_iff] at lost ⊢
  refine path.keeps (P := fun s => ¬ l.matchesRow (s.db.tasks.get? l.taskId)) ?_ cascade lost
  rintro label s s' cascade effect lost
  refine (effect.row _).keeps_lost ?_ ⟨?_, ?_⟩ lost
  · rintro l rfl
    cases cascade
  · rintro rfl
    cases cascade
  · rintro rfl
    cases cascade

theorem not_passes_of_stopped {db : Database} (row : db.tasks.get? l.taskId = some t)
    (stopped : t.state ≠ .running) : ¬ l.passes db := by
  rw [passes_iff]
  rintro ⟨t', row', running, -⟩
  cases row.symm.trans row'
  exact stopped running

theorem Stops.not_passes (h : Stops l.taskId s s') : ¬ l.passes s'.db := by
  obtain ⟨new, tasks, stopped⟩ := h
  refine not_passes_of_stopped (t := new) ?_ stopped
  rw [tasks, Table.get?_put_self]

theorem forFenced_ends {α β : Type} {lease : α → Lease} {lost : β}
    {act : α → Task → Session → Result (β × Session)}
    (stops : ∀ a t b s s', act a t s = .ok (b, s') → Stops (lease a).taskId s s')
    {as : List α} {bs : List β} (h : forFenced lease lost act as s = .ok (bs, s'))
    (held : l.passes s.db → l ∈ as.map lease) : ¬ l.passes s'.db := by
  induction as generalizing s bs with
  | nil =>
    cases h
    exact fun hl => nomatch held hl
  | cons a as ih =>
    unfold forFenced at h
    split at h
    · rename_i hf
      obtain ⟨⟨bs', s1⟩, h1, h⟩ := bind_ok h
      cases h
      refine ih h1 fun hl => (mem_cons.mp (held hl)).resolve_left ?_
      rintro rfl
      unfold Lease.passes at hl
      rw [hf] at hl
      cases hl
    · obtain ⟨⟨b, s1⟩, h1, h⟩ := bind_ok h
      obtain ⟨⟨bs', s2⟩, h2, h⟩ := bind_ok h
      cases h
      have stop := stops _ _ _ _ _ h1
      refine ih h2 fun hl => ?_
      have before : l.passes s.db := by
        by_contra lost
        exact stop.keeps_lost lost hl
      refine (mem_cons.mp (held before)).resolve_left ?_
      rintro rfl
      exact stop.not_passes hl

theorem releaseRow_stops {row : Uuid × Task} (h : releaseRow e s row = .ok s') :
    Stops row.1 s s' := by
  unfold releaseRow at h
  obtain ⟨s1, h1, h⟩ := bind_ok h
  obtain ⟨rfl, -, -⟩ := updateTask_spec h1
  have := updateAttempt_spec h
  subst this
  exact ⟨_, rfl, TaskState.noConfusion⟩

theorem releaseTasks_ends {leases : List Lease} {ids : List Uuid}
    (h : releaseTasks e leases s = .ok (ids, s')) (hl : l ∈ leases) : ¬ l.passes s'.db := by
  unfold releaseTasks at h
  obtain ⟨-, -, h⟩ := bind_ok h
  obtain ⟨s1, h1, h⟩ := bind_ok h
  cases h
  -- A lease that passes is of a row that is still to be released.
  suffices h : l.passes s'.db → ∃ row : Uuid × Task, row ∈ [] ∧ row.1 = l.taskId by
    intro hpass
    obtain ⟨row, hrow, -⟩ := h hpass
    cases hrow
  refine foldlM_rule (fun rows s => l.passes s.db → ∃ row ∈ rows, row.1 = l.taskId) ?_ h1 ?_
  · intro row rows s s' todo h hpass
    have stop := releaseRow_stops h
    have before : l.passes s.db := by
      by_contra lost
      exact stop.keeps_lost lost hpass
    obtain ⟨x, hx, hid⟩ := todo before
    rcases mem_cons.mp hx with rfl | hx
    · rw [hid] at stop
      exact absurd hpass stop.not_passes
    · exact ⟨x, hx, hid⟩
  · intro hpass
    obtain ⟨t, row, running, attempt, token⟩ := passes_iff.mp hpass
    refine ⟨(l.taskId, t), Table.mem_select.mpr ⟨row, ?_⟩, rfl⟩
    refine List.any_eq_true.mpr ⟨l, hl, ?_⟩
    simp [Lease.owns, running, attempt, token]

section Ends

variable {t : Task} (fence : fenced s.db l.taskId l.attempt l.leaseToken = some t)
include fence

theorem completeTask_ends {result : Option Json} {served : Bool} (hq : s.queued = [])
    (h : completeTask e l.taskId l.attempt l.leaseToken result s = .ok (served, s')) :
    ¬ l.passes s'.db := by
  obtain ⟨row, running, -, -⟩ := fenced_eq_some.mp fence
  unfold completeTask at h
  rw [fence] at h
  obtain ⟨s1, h1, h⟩ := bind_ok h
  obtain ⟨s2, h2, h⟩ := bind_ok h
  cases h
  obtain ⟨-, settled⟩ := completeRow_spec row running (settled_of_empty hq) h1
  exact fireTriggers_lost settled h2 (completeRow_stops h1).not_passes

theorem failTask_ends {error : Option Json} {ms : Option Int} {state : Option TaskState}
    (hq : s.queued = [])
    (h : failTask e l.taskId l.attempt l.leaseToken error ms s = .ok (state, s')) :
    ¬ l.passes s'.db := by
  obtain ⟨row, running, -, -⟩ := fenced_eq_some.mp fence
  unfold failTask at h
  rw [fence] at h
  obtain ⟨⟨state, s1⟩, h1, h⟩ := bind_ok h
  obtain ⟨s2, h2, h⟩ := bind_ok h
  cases h
  obtain ⟨-, settled⟩ := failRow_spec row running (settled_of_empty hq) h1
  exact fireTriggers_lost settled h2 (failRow_stops h1).not_passes

end Ends

theorem completeTasks_ends {cs : List Completion} {served : List Bool} (hq : s.queued = [])
    (h : completeTasks e cs s = .ok (served, s')) (hl : l ∈ cs.map Completion.lease) :
    ¬ l.passes s'.db := by
  unfold completeTasks at h
  split at h
  · obtain ⟨⟨replies, s1⟩, h1, h⟩ := bind_ok h
    obtain ⟨s2, h2, h⟩ := bind_ok h
    cases h
    obtain ⟨-, settled⟩ := completeRows_spec (settled_of_empty hq) h1
    exact fireTriggers_lost settled h2 (forFenced_ends completeRequest_stops h1 fun _ => hl)
  · cases h

theorem failTasks_ends {fs : List Failure} {states : List (Option TaskState)} (hq : s.queued = [])
    (h : failTasks e fs s = .ok (states, s')) (hl : l ∈ fs.map Failure.lease) :
    ¬ l.passes s'.db := by
  unfold failTasks at h
  split at h
  · obtain ⟨⟨replies, s1⟩, h1, h⟩ := bind_ok h
    obtain ⟨s2, h2, h⟩ := bind_ok h
    cases h
    obtain ⟨-, settled, -⟩ := failRows_spec (settled_of_empty hq) h1
    exact fireTriggers_lost settled h2 (forFenced_ends failRequest_stops h1 fun _ => hl)
  · cases h

/-! ## The call leaves a checkpoint -/

def Call.leaseStep (t : Task) : Call → Option StepKey
  | .suspendTask l stepName occurrence .. | .spawnTask l stepName occurrence _
  | .commitCheckpoint l stepName occurrence _ | .waitForSignal l stepName occurrence ..
  | .waitForResult l stepName occurrence .. => some ⟨l.taskId, t.handlerVersion, stepName, occurrence⟩
  | _ => none

def Call.Recorded (k : StepKey) (v : Json) : Call → Reply → Prop
  | .suspendTask .., reply => reply = .wakeAt none
  | .commitCheckpoint _ _ _ value, reply =>
    reply = .checkpoint (some v) ∧ Holds (checkpointChecks k value)
  | .waitForSignal _ _ _ _ _ timeout, reply =>
    reply = .wait (some (.ready v)) ∧ timeout.any (· < 0) = false
  | .waitForResult l _ _ child timeout, reply =>
    reply = .wait (some (.ready v)) ∧ l.taskId ≠ child ∧ timeout.any (· ≤ 0) = false
  | .spawnTask .., reply => ∃ child created, reply = .spawned (some (child, created)) ∧ Names v child
  | _, _ => False

def Linked (db : Database) (l : Lease) (answer : Reply) : Prop :=
  ∀ child created, answer = .spawned (some (child, created)) →
    (db.tasks.get? child).bind Task.parentTaskId = some l.taskId

theorem leaseStep_taskId (hk : c.leaseStep t = some k) (hl : l ∈ c.leases) :
    k.taskId = l.taskId := by
  cases c with
  | suspendTask | spawnTask | commitCheckpoint | waitForSignal | waitForResult =>
    cases hk
    rw [mem_singleton.mp hl]
  | _ => cases hk

theorem leaseStep_single (hk : c.leaseStep t = some k) (hl : l ∈ c.leases)
    {l' : Lease} (hl' : l' ∈ c.leases) : l' = l := by
  cases c with
  | suspendTask | spawnTask | commitCheckpoint | waitForSignal | waitForResult =>
    rw [mem_singleton.mp hl, mem_singleton.mp hl']
  | _ => cases hk

theorem passes_fenced (h : l.passes s.db) :
    ∃ t, fenced s.db l.taskId l.attempt l.leaseToken = some t :=
  Option.isSome_iff_exists.mp h

section Keeps

variable {t : Task} {stepName : String} {occurrence : Int}
  (fence : fenced s.db l.taskId l.attempt l.leaseToken = some t) (after : l.passes s'.db)
include fence after

theorem suspendTask_keeps {time : Option Timestamp}
    (h : suspendTask e l.taskId l.attempt l.leaseToken stepName occurrence wakeAt delay s =
      .ok (time, s')) :
    time = none ∧ ∃ v, s'.db.checkpoints.get? ⟨l.taskId, t.handlerVersion, stepName, occurrence⟩ =
      some v := by
  unfold suspendTask at h
  obtain ⟨w, -, h⟩ := bind_ok h
  rw [fence] at h
  obtain ⟨-, -, h⟩ := bind_ok h
  split at h
  · rename_i stored
    cases h
    exact ⟨rfl, Option.isSome_iff_exists.mp stored⟩
  · obtain ⟨s1, h1, h⟩ := bind_ok h
    obtain ⟨s2, h2, h⟩ := bind_ok h
    cases h
    obtain ⟨rfl, -, -⟩ := updateTask_spec h1
    have := updateAttempt_spec h2
    subst this
    exact absurd after (not_passes_of_stopped (Table.get?_put_self _ _ _) TaskState.noConfusion)

omit fence in
theorem park_ends {answer : Option WaitReply} : park e l.taskId t s ≠ .ok (answer, s') := by
  intro h
  obtain ⟨-, -, rfl⟩ := park_spec h
  exact not_passes_of_stopped (Table.get?_put_self _ _ _) TaskState.noConfusion after

omit after in
theorem commitCheckpoint_keeps {answer : Option Json}
    (h : commitCheckpoint l.taskId l.attempt l.leaseToken stepName occurrence value s =
      .ok (answer, s')) : ∃ v, answer = some v ∧
      s'.db.checkpoints.get? ⟨l.taskId, t.handlerVersion, stepName, occurrence⟩ = some v ∧
      Holds (checkpointChecks ⟨l.taskId, t.handlerVersion, stepName, occurrence⟩ value) := by
  unfold commitCheckpoint at h
  rw [fence] at h
  obtain ⟨⟨v, s1⟩, h1, h⟩ := bind_ok h
  cases h
  obtain ⟨rfl, hv, checked⟩ := saveCheckpoint_spec h1
  refine ⟨v, rfl, ?_, checked⟩
  rw [hv, Table.get?_putNew, if_pos rfl]

omit after in
theorem spawnTask_answers {request : EnqueueRequest} {answer : Option (Uuid × Bool)}
    (h : spawnTask e l.taskId l.attempt l.leaseToken stepName occurrence request s =
      .ok (answer, s')) : answer ≠ none := by
  rintro rfl
  unfold spawnTask at h
  rw [fence] at h
  dsimp only at h
  split at h
  · unfold replaySpawn at h
    split at h
    · cases h
    · split at h
      · cases h
      · obtain ⟨s1, -, h⟩ := bind_ok h
        cases h
  · unfold freshSpawn at h
    obtain ⟨⟨⟨child, created⟩, s1⟩, -, h⟩ := bind_ok h
    obtain ⟨-, -, h⟩ := bind_ok h
    obtain ⟨s2, -, h⟩ := bind_ok h
    obtain ⟨s3, -, h⟩ := bind_ok h
    cases h

omit after in
theorem answerReady_keeps (e : Env) {answer : Option WaitReply}
    (hk : k.taskId = l.taskId) (h : answerReady k v s = .ok (answer, s')) :
    ∃ v, answer = some (.ready v) ∧ s'.db.checkpoints.get? k = some v := by
  obtain ⟨row, running, -, -⟩ := fenced_eq_some.mp fence
  rw [← hk] at row
  obtain ⟨-, stored, -, -, -, hanswer, hget⟩ := answerReady_spec (e := e) row running h
  exact ⟨stored, hanswer, hget⟩

theorem waitForSignal_keeps {signalName : String} {signalOccurrence : Int}
    {answer : Option WaitReply}
    (h : waitForSignal e l.taskId l.attempt l.leaseToken stepName occurrence signalName
      signalOccurrence timeout s = .ok (answer, s')) :
    timeout.any (· < 0) = false ∧ ∃ v, answer = some (.ready v) ∧
      s'.db.checkpoints.get? ⟨l.taskId, t.handlerVersion, stepName, occurrence⟩ = some v := by
  unfold waitForSignal at h
  rw [fence] at h
  split at h
  · cases h
  · rename_i valid
    refine ⟨by simpa using valid, ?_⟩
    dsimp only at h
    split at h
    · rename_i v stored
      cases h
      exact ⟨v, rfl, stored⟩
    · split at h
      · exact answerReady_keeps fence e rfl h
      · obtain ⟨s1, h1, h⟩ := bind_ok h
        exact absurd h (park_ends after)

theorem waitForResult_keeps {child : Uuid} {answer : Option WaitReply}
    (h : waitForResult e l.taskId l.attempt l.leaseToken stepName occurrence child timeout s =
      .ok (answer, s')) :
    l.taskId ≠ child ∧ timeout.any (· ≤ 0) = false ∧ ∃ v, answer = some (.ready v) ∧
      s'.db.checkpoints.get? ⟨l.taskId, t.handlerVersion, stepName, occurrence⟩ = some v := by
  unfold waitForResult at h
  rw [fence] at h
  split at h
  · cases h
  · rename_i hne
    split at h
    · cases h
    · rename_i valid
      refine ⟨hne, by simpa using valid, ?_⟩
      dsimp only at h
      split at h
      · rename_i v stored
        cases h
        exact ⟨v, rfl, stored⟩
      · split at h
        · cases h
        · split at h
          · exact answerReady_keeps fence e rfl h
          · obtain ⟨s1, h1, h⟩ := bind_ok h
            exact absurd h (park_ends after)

end Keeps

theorem exec_keeps_lease (mutates : c.mutates = true) (hq : s.queued = [])
    (h : exec e c s = .ok (answer, s')) (hl : l ∈ c.leases)
    (fence : fenced s.db l.taskId l.attempt l.leaseToken = some t) (after : l.passes s'.db) :
    ∃ k v, c.leaseStep t = some k ∧ s'.db.checkpoints.get? k = some v ∧ c.Recorded k v answer ∧
      Linked s'.db l answer := by
  cases c with
  | completeTask l' =>
    obtain rfl := mem_singleton.mp hl
    obtain ⟨a, hcall, -⟩ := reply_ok h
    exact absurd after (completeTask_ends fence hq hcall)
  | failTask l' =>
    obtain rfl := mem_singleton.mp hl
    obtain ⟨a, hcall, -⟩ := reply_ok h
    exact absurd after (failTask_ends fence hq hcall)
  | completeTasks =>
    obtain ⟨a, hcall, -⟩ := reply_ok h
    exact absurd after (completeTasks_ends hq hcall hl)
  | failTasks =>
    obtain ⟨a, hcall, -⟩ := reply_ok h
    exact absurd after (failTasks_ends hq hcall hl)
  | releaseTasks =>
    obtain ⟨a, hcall, -⟩ := reply_ok h
    exact absurd after (releaseTasks_ends hcall hl)
  | suspendTask l' =>
    obtain rfl := mem_singleton.mp hl
    obtain ⟨a, hcall, hreply⟩ := reply_ok h
    obtain ⟨rfl, v, stored⟩ := suspendTask_keeps fence after hcall
    cases hreply
    exact ⟨_, v, rfl, stored, rfl, nofun⟩
  | commitCheckpoint l' =>
    obtain rfl := mem_singleton.mp hl
    obtain ⟨a, hcall, hreply⟩ := reply_ok h
    obtain ⟨v, rfl, stored, checked⟩ := commitCheckpoint_keeps fence hcall
    cases hreply
    exact ⟨_, v, rfl, stored, ⟨rfl, checked⟩, nofun⟩
  | spawnTask l' =>
    obtain rfl := mem_singleton.mp hl
    obtain ⟨a, hcall, rfl⟩ := reply_ok h
    obtain ⟨⟨child, created⟩, rfl⟩ := Option.ne_none_iff_exists'.mp (spawnTask_answers fence hcall)
    obtain ⟨t', v, row, stored, names, linked⟩ := spawnTask_returned hcall
    cases (fenced_eq_some.mp fence).1.symm.trans row
    refine ⟨_, v, rfl, stored, ⟨child, created, rfl, names⟩, ?_⟩
    rintro _ _ ⟨⟩
    exact linked
  | waitForSignal l' =>
    obtain rfl := mem_singleton.mp hl
    obtain ⟨a, hcall, hreply⟩ := reply_ok h
    obtain ⟨valid, v, rfl, stored⟩ := waitForSignal_keeps fence after hcall
    cases hreply
    exact ⟨_, v, rfl, stored, ⟨rfl, valid⟩, nofun⟩
  | waitForResult l' =>
    obtain rfl := mem_singleton.mp hl
    obtain ⟨a, hcall, hreply⟩ := reply_ok h
    obtain ⟨hne, valid, v, rfl, stored⟩ := waitForResult_keeps fence after hcall
    cases hreply
    exact ⟨_, v, rfl, stored, ⟨rfl, hne, valid⟩, nofun⟩
  | _ => cases mutates

/-! ## The call again -/

theorem saveCheckpoint_again (checked : Holds (checkpointChecks k value))
    (stored : s.db.checkpoints.get? k = some v) : saveCheckpoint k value s = .ok (v, s) := by
  unfold saveCheckpoint
  rw [checked.require]
  simp [stored, bind, Except.bind]

section Again

variable {t : Task} {stepName : String} {occurrence : Int} {v : Json}
  (fence : fenced s.db l.taskId l.attempt l.leaseToken = some t)
  (stored : s.db.checkpoints.get? ⟨l.taskId, t.handlerVersion, stepName, occurrence⟩ = some v)
include fence stored

theorem suspendTask_again {time : Option Timestamp}
    (h : suspendTask e l.taskId l.attempt l.leaseToken stepName occurrence wakeAt delay s =
      .ok (time, s')) : s' = s := by
  unfold suspendTask at h
  obtain ⟨w, -, h⟩ := bind_ok h
  rw [fence] at h
  obtain ⟨-, -, h⟩ := bind_ok h
  rw [if_pos (by rw [stored]; rfl)] at h
  cases h
  rfl

theorem commitCheckpoint_again
    (checked : Holds (checkpointChecks ⟨l.taskId, t.handlerVersion, stepName, occurrence⟩ value)) :
    commitCheckpoint l.taskId l.attempt l.leaseToken stepName occurrence value s =
      .ok (some v, s) := by
  unfold commitCheckpoint
  rw [fence]
  dsimp only
  rw [saveCheckpoint_again checked stored]
  rfl

theorem waitForSignal_again {signalName : String} {signalOccurrence : Int}
    (valid : timeout.any (· < 0) = false) :
    waitForSignal e l.taskId l.attempt l.leaseToken stepName occurrence signalName
      signalOccurrence timeout s = .ok (some (.ready v), s) := by
  unfold waitForSignal
  rw [valid, fence]
  dsimp only
  rw [stored]
  rfl

theorem waitForResult_again {child : Uuid} (hne : l.taskId ≠ child)
    (valid : timeout.any (· ≤ 0) = false) :
    waitForResult e l.taskId l.attempt l.leaseToken stepName occurrence child timeout s =
      .ok (some (.ready v), s) := by
  unfold waitForResult
  rw [if_neg hne, valid, fence]
  dsimp only
  rw [stored]
  rfl

end Again

theorem exec_again (hl : l ∈ c.leases)
    (fence : fenced s.db l.taskId l.attempt l.leaseToken = some t) (hk : c.leaseStep t = some k)
    (stored : s.db.checkpoints.get? k = some v) (recorded : c.Recorded k v answer)
    (linked : ∀ child created, answer = .spawned (some (child, created)) →
      ∀ child', s.db.tasks.get? child = some child' → child'.parentTaskId = some l.taskId) :
    (∀ answer' s', exec e c s = .ok (answer', s') → s' = s) ∧
    (∀ v, answer.checkpointValue = some v → exec e c s = .ok (answer, s)) ∧
    ∀ child created, answer = .spawned (some (child, created)) → s.db.tasks.get? child ≠ none →
      exec e c s = .ok (.spawned (some (child, false)), s) := by
  have answered : exec e c s = .ok (answer, s) → (∀ answer' s', exec e c s = .ok (answer', s') → s' = s) ∧
      ∀ v, answer.checkpointValue = some v → exec e c s = .ok (answer, s) := by
    intro same
    refine ⟨fun answer' s' h => ?_, fun _ _ => same⟩
    rw [same] at h
    cases h
    rfl
  cases c with
  | suspendTask l' =>
    obtain rfl := mem_singleton.mp hl
    obtain rfl : answer = .wakeAt none := recorded
    cases hk
    refine ⟨fun answer' s' h => ?_, nofun, nofun⟩
    obtain ⟨a, hcall, -⟩ := reply_ok h
    exact suspendTask_again fence stored hcall
  | commitCheckpoint l' stepName occurrence value =>
    obtain rfl := mem_singleton.mp hl
    obtain ⟨rfl, checked⟩ := recorded
    cases hk
    obtain ⟨unchanged, same⟩ := answered (congrArg (Except.map (reply .checkpoint))
      (commitCheckpoint_again fence stored checked))
    exact ⟨unchanged, same, nofun⟩
  | waitForSignal l' =>
    obtain rfl := mem_singleton.mp hl
    obtain ⟨rfl, valid⟩ := recorded
    cases hk
    obtain ⟨unchanged, same⟩ := answered (congrArg (Except.map (reply .wait))
      (waitForSignal_again fence stored valid))
    exact ⟨unchanged, same, nofun⟩
  | waitForResult l' =>
    obtain rfl := mem_singleton.mp hl
    obtain ⟨rfl, hne, valid⟩ := recorded
    cases hk
    obtain ⟨unchanged, same⟩ := answered (congrArg (Except.map (reply .wait))
      (waitForResult_again fence stored hne valid))
    exact ⟨unchanged, same, nofun⟩
  | spawnTask l' stepName occurrence request =>
    obtain rfl := mem_singleton.mp hl
    obtain ⟨child, created, rfl, names⟩ := recorded
    cases hk
    have same : exec e (.spawnTask l stepName occurrence request) s = _ :=
      congrArg (Except.map (reply .spawned))
        (spawnTask_replays fence stored names (linked child created rfl))
    refine ⟨fun answer' s' h => ?_, nofun, ?_⟩
    · obtain ⟨a, hcall, -⟩ := reply_ok h
      rw [spawnTask_replays fence stored names (linked child created rfl)] at hcall
      split at hcall
      · cases hcall
        rfl
      · cases hcall
    · rintro _ _ ⟨⟩ there
      rw [if_pos (Option.isSome_iff_ne_none.mpr there)] at same
      exact same
  | _ => cases hk

theorem wakeTime_error {e0 : Env} {err : SqlError}
    {time : Timestamp} (h : wakeTime e wakeAt delay = .error err) :
    wakeTime e0 wakeAt delay ≠ .ok time := by
  unfold wakeTime at h ⊢
  split at h
  · nofun
  · nofun
  · cases h
  · split at h
    · rename_i negative
      rw [if_pos negative]
      nofun
    · cases h

theorem exec_invalid {message : String} (lost : ∀ l ∈ c.leases, ¬ l.passes s.db)
    (mutates : c.mutates = true) (hq : s.queued = [])
    (h : exec e c s = .error (invalidParameter message)) (e0 : Env) (s0 : Session) :
    ∀ x, exec e0 c s0 ≠ .ok x := by
  rintro ⟨answer, s0'⟩ returned
  cases c with
  | completeTask l | failTask l | commitCheckpoint l | spawnTask l =>
    simp [exec, completeTask, failTask, commitCheckpoint, spawnTask, Except.map,
      fenced_eq_none (lost l mem_cons_self)] at h
  | suspendTask l stepName occurrence wakeAt delay =>
    obtain ⟨a, hcall, -⟩ := reply_ok returned
    obtain ⟨time, htime, -⟩ := bind_ok hcall
    rcases bind_eq_error.mp (map_eq_error.mp h) with herror | ⟨time', -, herror⟩
    · exact wakeTime_error herror htime
    · rw [fenced_eq_none (lost l mem_cons_self)] at herror
      cases herror
  | waitForSignal l stepName occurrence signalName signalOccurrence timeout =>
    obtain ⟨a, hcall, -⟩ := reply_ok returned
    have herror := map_eq_error.mp h
    unfold waitForSignal at hcall herror
    rw [fenced_eq_none (lost l mem_cons_self)] at herror
    split at herror
    · rename_i negative
      rw [if_pos negative] at hcall
      cases hcall
    · cases herror
  | waitForResult l stepName occurrence child timeout =>
    obtain ⟨a, hcall, -⟩ := reply_ok returned
    have herror := map_eq_error.mp h
    unfold waitForResult at hcall herror
    rw [fenced_eq_none (lost l mem_cons_self)] at herror
    split at herror
    · rename_i own
      rw [if_pos own] at hcall
      cases hcall
    · rename_i other
      rw [if_neg other] at hcall
      split at herror
      · rename_i invalid
        rw [if_pos invalid] at hcall
        cases hcall
      · cases herror
  | completeTasks cs =>
    obtain ⟨a, hcall, -⟩ := reply_ok returned
    have herror := map_eq_error.mp h
    unfold completeTasks at hcall herror
    split at hcall
    · rename_i nodup
      rw [if_pos nodup, completeRows,
        forFenced_lost fun c hc => lost c.lease (List.mem_map_of_mem hc)] at herror
      simp [bind, Except.bind, fireTriggers_empty hq] at herror
    · cases hcall
  | failTasks fs =>
    obtain ⟨a, hcall, -⟩ := reply_ok returned
    have herror := map_eq_error.mp h
    unfold failTasks at hcall herror
    split at hcall
    · rename_i nodup
      rw [if_pos nodup, failRows,
        forFenced_lost fun f hf => lost f.lease (List.mem_map_of_mem hf)] at herror
      simp [bind, Except.bind, fireTriggers_empty hq] at herror
    · cases hcall
  | releaseTasks leases =>
    have lost : ∀ l ∈ leases, ¬ l.passes s.db := lost
    have hrows := select_lost lost fun _ _ => true
    simp only [Bool.and_true] at hrows
    rcases walkAncestry_cases s.db (leases.map Lease.taskId) with walk | walk
    · rcases bind_eq_error.mp (map_eq_error.mp h) with herror | ⟨-, -, herror⟩
      · rw [walk] at herror
        cases herror
      · rw [hrows] at herror
        cases herror
    · rw [exec_endless (fun hok => by cases walk.symm.trans hok)] at h
      cases h
  | _ => cases mutates

theorem loss_iff {w w0 : World} {r r0 : Request} (same : r.call = r0.call)
    (returned : (step server w0 r0).1 = .returned answer) (mutates : r.call.mutates = true)
    (lost : ∀ l ∈ r.call.leases, ¬ l.passes w.db) :
    (step server w r).2 = w ∧ ((step server w r).1 = .returned r.call.loss ↔
      ∀ id ∈ r.call.walked, w.db.tasks.get? id ≠ none → ¬ CycleAbove (parentOf w.db) id) := by
  obtain ⟨s', hexec, -⟩ := step_returned returned
  rw [← walkAncestry_ok_iff]
  by_cases walk : walkAncestry w.db r.call.walked = .ok ()
  · rcases exec_lost (e := server.envAt r.now) (s := w.session) (mutates_owned mutates) rfl
      walk lost with
      h | ⟨message, h⟩
    · rw [step_of_exec h]
      exact ⟨rfl, iff_of_true rfl walk⟩
    · rw [← same] at hexec
      exact absurd hexec (exec_invalid lost mutates rfl h _ _ _)
  · have h := exec_endless (e := server.envAt r.now) (s := w.session) walk
    unfold step
    rw [h]
    exact ⟨rfl, iff_of_false nofun walk⟩

/-! ## Runs -/

theorem HandedOut.append (h : HandedOut server rs l) (since : List Request) :
    HandedOut server (rs ++ since) l := by
  obtain ⟨before, r, since', rfl, hl⟩ := h
  exact ⟨before, r, since' ++ since, by simp, hl⟩

theorem HandedOut.passes_since {since : List Request} (h : HandedOut server rs l)
    (distinct : server.Distinct (run server (rs ++ since)).drawn)
    (hpass : l.passes (run server (rs ++ since)).db) :
    l.passes (run server rs).db ∧ RowKept server rs since l.taskId := by
  induction since using List.reverseRecOn with
  | nil =>
    rw [append_nil] at hpass
    refine ⟨hpass, fun a b hab => ?_⟩
    obtain ⟨rfl, rfl⟩ := append_eq_nil_iff.mp hab.symm
    obtain ⟨t, row, -⟩ := passes_iff.mp hpass
    rw [append_nil, row]
    rfl
  | append_singleton since r ih =>
    rw [← append_assoc] at distinct hpass
    obtain ⟨before, -⟩ := (h.append since).passes_before distinct hpass
    obtain ⟨start, kept⟩ := ih (distinct.mono (run_drawn_le server _ [r])) before
    refine ⟨start, fun a b hab => ?_⟩
    rcases eq_nil_or_concat b with rfl | ⟨b, x, rfl⟩
    · rw [append_nil] at hab
      obtain ⟨t, row, -⟩ := passes_iff.mp hpass
      rw [← hab, ← append_assoc, row]
      rfl
    · rw [concat_eq_append, ← append_assoc] at hab
      exact kept a b (append_inj_left' hab rfl)

theorem repeat_recorded {since : List Request} {r : Request} (mutates : r.call.mutates = true)
    (hl : l ∈ r.call.leases) (handed : HandedOut server rs l)
    (returned : (step server (run server rs) r).1 = .returned answer)
    (distinct : server.Distinct (run server (rs ++ [r] ++ since)).drawn)
    (current : l.passes (run server (rs ++ [r] ++ since)).db) :
    ∃ t k v, fenced (run server (rs ++ [r] ++ since)).db l.taskId l.attempt l.leaseToken = some t ∧
      r.call.leaseStep t = some k ∧
      (run server (rs ++ [r] ++ since)).db.checkpoints.get? k = some v ∧
      r.call.Recorded k v answer ∧ ∀ child created, answer = .spawned (some (child, created)) →
        ∀ c, (run server (rs ++ [r] ++ since)).db.tasks.get? child = some c →
          c.parentTaskId = some l.taskId := by
  obtain ⟨s', hexec, hs'⟩ := step_returned returned
  have kept : l.passes (run server rs).db ∧ RowKept server rs ([r] ++ since) l.taskId := by
    rw [append_assoc] at distinct current
    exact handed.passes_since distinct current
  obtain ⟨after, kept'⟩ := (handed.append [r]).passes_since distinct current
  obtain ⟨t, fence⟩ := passes_fenced (s := (run server rs).session) kept.1
  obtain ⟨row, -⟩ := fenced_eq_some.mp fence
  rw [run_concat, ← World.session_db, ← hs'] at after
  obtain ⟨k, v, hk, stored, recorded, linked⟩ :=
    exec_keeps_lease mutates rfl hexec hl fence after
  rw [hs', ← run_concat, World.session_db] at stored linked
  -- The row has its handler version still, so the step is the same.
  obtain ⟨t', row', hfixed⟩ := kept.2.fixed row (append_nil _).symm
  rw [← append_assoc] at row'
  obtain ⟨t'', fence'⟩ := passes_fenced (s := (run server (rs ++ [r] ++ since)).session) current
  have hversion : t''.handlerVersion = t.handlerVersion := by
    cases row'.symm.trans (fenced_eq_some.mp fence').1
    simp only [Task.fixed, Prod.mk.injEq] at hfixed
    exact hfixed.2.2.1
  have hk' : r.call.leaseStep t'' = some k := by
    rw [← hk]
    unfold Call.leaseStep
    simp only [hversion]
  have hid : k.taskId = l.taskId := leaseStep_taskId hk hl
  refine ⟨t'', k, v, fence', hk', ?_, recorded, fun child created hanswer c hc => ?_⟩
  · rw [← hid] at kept'
    exact kept'.checkpoint stored (append_nil _).symm
  · obtain ⟨c0, hc0, hlink⟩ := Option.bind_eq_some_iff.mp (linked child created hanswer)
    refine row_stays (fun _ _ _ _ _ step h => step.keeps_parent h) distinct
      (run_born server _ child c0 hc0) (fun c' hc' => ?_) c hc
    obtain rfl := Option.some.inj (hc0.symm.trans hc')
    exact hlink

/-- A mutation that has returned, sent again with the same arguments and at any later time, changes
nothing. If the first call ended a lease of it, the second one reports the loss, if and only if no
task that it walks up from has a cycle above it. While its lease passes, it answers a checkpoint, a
'ready' wait and, as long as the child is there, a spawn as the first one did. -/
theorem repeats_harmless (server : Server) (rs since : List Request) (r r' : Request)
    (answer : Reply) (mutates : r.call.mutates = true) (same : r'.call = r.call)
    (handed : ∀ l ∈ r.call.leases, HandedOut server rs l)
    (returned : (step server (run server rs) r).1 = .returned answer)
    (distinct : server.Distinct (run server (rs ++ [r] ++ since)).drawn) :
    let w := run server (rs ++ [r] ++ since)
    (step server w r').2 = w ∧
    (∀ l ∈ r.call.leases, ¬ l.passes (run server (rs ++ [r])).db →
      ((step server w r').1 = .returned r.call.loss ↔
        ∀ id ∈ r.call.walked, w.db.tasks.get? id ≠ none → ¬ CycleAbove (parentOf w.db) id)) ∧
    (∀ l ∈ r.call.leases, l.passes w.db →
      (∀ v, answer.checkpointValue = some v → (step server w r').1 = .returned answer) ∧
      ∀ child created, answer = .spawned (some (child, created)) → w.db.tasks.get? child ≠ none →
        (step server w r').1 = .returned (.spawned (some (child, false)))) := by
  intro w
  by_cases current : ∃ l ∈ r.call.leases, l.passes w.db
  · obtain ⟨l, hl, current⟩ := current
    have handed' := (handed l hl).append [r]
    obtain ⟨t, k, v, fence, hk, stored, recorded, linked⟩ :=
      repeat_recorded mutates hl (handed l hl) returned distinct current
    obtain ⟨unchanged, value, spawned⟩ := exec_again (e := server.envAt r'.now) (s := w.session) hl
      fence hk stored recorded linked
    rw [← same] at unchanged value spawned
    refine ⟨?_, fun l' hl' ended => ?_, fun _ _ _ => ⟨fun v hv => ?_, fun child created h there => ?_⟩⟩
    · rcases step_spec server w r' with ⟨a, s', hexec, hs', -⟩ | ⟨-, -, hw⟩
      · obtain rfl := unchanged a s' hexec
        rw [step_of_exec hexec]
        rfl
      · exact hw
    · obtain rfl := leaseStep_single hk hl hl'
      exact absurd (handed'.passes_since distinct current).1 ended
    · rw [step_of_exec (value v hv)]
    · rw [step_of_exec (spawned child created h there)]
  · have lost : ∀ l ∈ r.call.leases, ¬ l.passes w.db := fun l hl hp => current ⟨l, hl, hp⟩
    rw [← same] at lost mutates ⊢
    obtain ⟨unchanged, hloss⟩ := loss_iff (w := w) same returned mutates lost
    exact ⟨unchanged, fun _ _ _ => hloss, fun l hl hp => absurd hp (lost l hl)⟩

def claimedRun : List Request :=
  [⟨0, .enqueue { taskName := some "a", payload := some .null }⟩,
   ⟨1, .claim "default" (Uuid.ofNat 100) ["a"] [1] 1 1000⟩]

def failClaimed (now : Timestamp) : Request :=
  ⟨now, .failTask ⟨Uuid.ofNat 1, 1, Uuid.ofNat 2⟩ (some .null) (some 0)⟩

theorem second_failure_harmless : countingServer.Distinct 3 ∧
      step countingServer (run countingServer (claimedRun ++ [failClaimed 2] ++
          [⟨3, .claim "default" (Uuid.ofNat 100) ["a"] [1] 1 1000⟩])) (failClaimed 4) =
        (.returned (.states [none]), run countingServer (claimedRun ++ [failClaimed 2] ++
          [⟨3, .claim "default" (Uuid.ofNat 100) ["a"] [1] 1 1000⟩])) := by
  have hdrawn : (run countingServer (claimedRun ++ [failClaimed 2] ++
      [⟨3, .claim "default" (Uuid.ofNat 100) ["a"] [1] 1 1000⟩])).drawn = 3 := by decide +kernel
  have distinct : countingServer.Distinct 3 := countingServer_distinct (by decide)
  refine ⟨distinct, ?_⟩
  have handed : ∀ l ∈ (failClaimed 2).call.leases, HandedOut countingServer claimedRun l := by
    intro l hl
    rw [mem_singleton.mp hl]
    exact ⟨claimedRun.take 1, claimedRun.get ⟨1, by decide⟩, [], rfl, by decide +kernel⟩
  obtain ⟨unchanged, loss, -⟩ := repeats_harmless countingServer claimedRun
    [⟨3, .claim "default" (Uuid.ofNat 100) ["a"] [1] 1 1000⟩] (failClaimed 2) (failClaimed 4)
    (.states [some .pending]) rfl rfl handed (by decide +kernel) (by rw [hdrawn]; exact distinct)
  refine Prod.ext ((loss _ mem_cons_self (by decide +kernel)).mpr ?_) unchanged
  intro id hid
  cases hid

theorem second_release_raises : let l : Lease := ⟨Uuid.ofNat 1, 1, Uuid.ofNat 2⟩
    let since : List Request := [⟨6, .spawnTask ⟨Uuid.ofNat 3, 1, Uuid.ofNat 4⟩ "x" 0
      { taskName := some "a", payload := some .null }⟩]
    (step countingServer (run countingServer adoptionRun) ⟨5, .releaseTasks [l]⟩).1 =
        .returned (.ids [l.taskId]) ∧
      ¬ l.passes (run countingServer (adoptionRun ++ [⟨5, .releaseTasks [l]⟩])).db ∧
      (step countingServer (run countingServer (adoptionRun ++ [⟨5, .releaseTasks [l]⟩] ++ since))
        ⟨7, .releaseTasks [l]⟩).1 = .raised .endlessRecursion := by
  decide +kernel

end Pgtask
