import Pgtask.Concurrent.Footprint
import Pgtask.Invariant.Fence

/-!
# The fence between statements

`commit_checkpoint` reads the lease in the snapshot of its statement and takes
only FOR KEY SHARE on the task's row, which stops nobody from ending the lease.
So a checkpoint can become visible after its lease has ended, and it does so
exactly when the end commits between the snapshot and the commit.
-/

open Sql ReadCommitted

namespace Pgtask.Concurrent

/-! ## Programs -/

def commitCheckpoint (l : Lease) (stepName : String) (occurrence : Int) (value : Json) :
    Tx Reply := do
  let db ← Prog.snapshot
  match fenced db l.taskId l.attempt l.leaseToken with
  | none => pure (.checkpoint none)
  | some t => do
    let (stored, keys) ← saveCheckpoint value ⟨l.taskId, t.handlerVersion, stepName, occurrence⟩
    Prog.forEach foreignKey keys
    pure (.checkpoint (some stored))

/-- `FOR NO KEY UPDATE OF tasks SKIP LOCKED LIMIT n`: the rows in their newest version. -/
def lockCandidates (test : Uuid → Task → Bool) : Nat → List Uuid → Tx (List (Uuid × Task))
  | 0, _ | _, [] => pure []
  | n + 1, id :: ids => do
    let row ← Prog.tryLockRow (RowId.task id) .noKeyUpdate
    match (row.join : Option Task).filter (test id) with
    | some t => do
      let rest ← lockCandidates test n ids
      pure ((id, t) :: rest)
    | none => lockCandidates test (n + 1) ids

/-- The rows of `claimed` and `inserted_attempts` for one candidate, in a statement that started
with this snapshot. -/
def claimRow (e : Env) (db : Database) (workerId : Uuid) (leaseMilliseconds : Int)
    (leaseToken : Uuid) (row : Uuid × Task) : Tx (Uuid × Task) := do
  let (id, t) := row
  let attempt ← ofResult (int4Succ t.attempt)
  let new := t.claimed e db id attempt leaseToken workerId leaseMilliseconds
  ofResult (require (new.checks id))
  Prog.put (.task id) new
  let inserted ← Prog.insertRow (.attempt id attempt) ({ leaseToken, workerId } : Attempt)
  if inserted then pure (id, new) else .raise

/-- `n` counts the tokens that the call has drawn. -/
def claimRows (e : Env) (db : Database) (workerId : Uuid) (leaseMilliseconds : Int) :
    Nat → List (Uuid × Task) → Tx (List (Uuid × Task))
  | _, [] => pure []
  | n, row :: rows => do
    let claimed ← claimRow e db workerId leaseMilliseconds (e.uuid n) row
    let rest ← claimRows e db workerId leaseMilliseconds (n + 1) rows
    pure (claimed :: rest)

def claim (e : Env) (queueName : String) (workerId : Uuid) (taskNames : List String)
    (handlerVersions : List Int) (limit leaseMilliseconds : Int) : Tx Reply := do
  let db ← Prog.snapshot
  match (db.queues.get? queueName).filter fun q => q.pausedAt.isNone with
  | none => pure (.tasks [])
  | some q => do
    let handlers := taskNames.zip handlerVersions
    let isStarved := claimable db queueName handlers (e.now - seconds q.starvationTimeoutSeconds)
    let starved ← lockCandidates isStarved (if 0 < limit then 1 else 0)
      (((db.tasks.select isStarved).insertionSort fun x y => byRunAt x y).map Prod.fst)
    let isReady := fun id t =>
      claimable db queueName handlers e.now id t && !starved.any (·.1 = id)
    let priorityCandidates ← lockCandidates isReady (limit - starved.length).toNat
      (((db.tasks.select isReady).insertionSort fun x y => byPriority x y).map Prod.fst)
    let rows ← claimRows e db workerId leaseMilliseconds 0 (starved ++ priorityCandidates)
    pure (.tasks rows)

inductive Transaction
  | commitCheckpoint (lease : Lease) (stepName : String) (occurrence : Int) (value : Json)
  | claim (queueName : String) (workerId : Uuid) (taskNames : List String)
      (handlerVersions : List Int) (limit leaseMilliseconds : Int)
  | operation (op : Operation)

def Transaction.program (e : Env) (depth : Nat) : Transaction → Tx Reply
  | .commitCheckpoint l stepName occurrence value =>
    Concurrent.commitCheckpoint l stepName occurrence value
  | .claim queueName workerId taskNames handlerVersions limit leaseMilliseconds =>
    Concurrent.claim e queueName workerId taskNames handlerVersions limit leaseMilliseconds
  | .operation op => op.program e depth

/-! ## An ended lease does not come back -/

variable {l : Lease} {e : Env} {depth : Nat}

def disowned (l : Lease) : (r : RowId) → Option (Row r) → Prop
  | .task id, some t => l.owns id t = false
  | _, _ => True

theorem disowned_of_token {id : Uuid} {t : Task} (h : t.leaseToken ≠ some l.leaseToken) :
    disowned l (.task id) (some t) := by
  simp [disowned, Lease.owns, h]

theorem disowned_allows (l : Lease) : Allows (fun _ => True) (disowned l) where
  lock _ _ := trivial
  row r v task _ := by
    cases r with
    | task id => exact absurd rfl (task id)
    | _ => cases v <;> trivial
  stop id t stopped := by simp [disowned, Lease.owns, stopped]

theorem disowned_keys (l : Lease) : AllowsKeys (fun _ => True) (disowned l) :=
  fun _ _ => ⟨trivial, fun v => by cases v <;> trivial⟩

theorem commitCheckpoint_all (allows : Allows (fun _ => True) (disowned l)) (l' : Lease)
    (stepName : String) (occurrence : Int) (value : Json) :
    (commitCheckpoint l' stepName occurrence value).All (fun _ => True) (disowned l) := by
  refine .bind Prog.all_snapshot fun db => ?_
  dsimp only
  split
  · trivial
  · refine .bind (saveCheckpoint_all allows value) fun saved => ?_
    exact .bind (foreignKeys_all allows saved.2) fun _ => trivial

theorem lockCandidates_all {writes : (r : RowId) → Option (Row r) → Prop}
    (test : Uuid → Task → Bool) (n : Nat) (ids : List Uuid) :
    (lockCandidates test n ids).All (fun _ => True) writes := by
  fun_induction lockCandidates test n ids with
  | case1 | case2 => trivial
  | case3 n id ids again skip =>
    refine .bind (Prog.all_tryLockRow.mpr trivial) fun row => ?_
    split
    · exact .bind again fun _ => trivial
    · exact skip

theorem claimRows_all (fresh : ∀ n, e.uuid n ≠ l.leaseToken) (db : Database) (workerId : Uuid)
    (leaseMilliseconds : Int) (n : Nat) (rows : List (Uuid × Task)) :
    (claimRows e db workerId leaseMilliseconds n rows).All (fun _ => True) (disowned l) := by
  induction rows generalizing n with
  | nil => trivial
  | cons row rows ih =>
    refine .bind (ofResult_all fun attempt _ => ofResult_all fun _ _ => ?_) fun claimed => ?_
    · refine .bind (Prog.all_put.mpr (disowned_of_token ?_)) fun _ => ?_
      · simpa [Task.claimed] using fresh n
      refine .bind (Prog.all_insertRow.mpr ⟨trivial, trivial⟩) fun inserted => ?_
      cases inserted <;> trivial
    · exact .bind (ih (n + 1)) fun _ => trivial

theorem Transaction.program_all (fresh : ∀ n, e.uuid n ≠ l.leaseToken) (call : Transaction) :
    (call.program e depth).All (fun _ => True) (disowned l) := by
  cases call with
  | commitCheckpoint l' stepName occurrence value =>
    exact commitCheckpoint_all (disowned_allows l) l' stepName occurrence value
  | operation op => exact Concurrent.program_all (disowned_allows l) (disowned_keys l) op
  | claim =>
    refine .bind Prog.all_snapshot fun db => ?_
    dsimp only
    split
    · trivial
    refine .bind (lockCandidates_all _ _ _) fun starved => ?_
    refine .bind (lockCandidates_all _ _ _) fun candidates => ?_
    exact .bind (claimRows_all fresh db _ _ _ _) fun _ => trivial

theorem disowned_iff {db : Database} :
    disowned l (.task l.taskId) (db.tasks.get? l.taskId) ↔ ¬ l.passes db := by
  unfold Lease.passes fenced
  cases db.tasks.get? l.taskId with
  | none => simp [disowned]
  | some t => simp [disowned, Lease.owns]

section Interleavings

variable {ι : Type} [Fintype ι] [DecidableEq ι]

def EndsLease (l : Lease) (s : System Database RowId Row Reply ι) (t : Turn ι) : Prop :=
  l.passes s.db ∧ ¬ l.passes (s.turn t).db

instance (s : System Database RowId Row Reply ι) (t : Turn ι) : Decidable (EndsLease l s t) :=
  inferInstanceAs (Decidable (l.passes s.db ∧ ¬ l.passes (s.turn t).db))

theorem passes_before {s : System Database RowId Row Reply ι}
    (bounded : Bounded (fun _ => True) (disowned l) s) {t : Turn ι}
    (h : l.passes (s.turn t).db) : l.passes s.db := by
  rcases bounded.row t (.task l.taskId) with same | disowned
  · rw [passes_iff] at h ⊢
    rwa [show s.db.tasks.get? l.taskId = (s.turn t).db.tasks.get? l.taskId from same.symm]
  · exact absurd h (disowned_iff.mp disowned)

variable (db : Database) (progs : ι → Tx Reply) (all : ∀ i, (progs i).All (fun _ => True) (disowned l))

include all

theorem passes_earlier (before after : List (Turn ι))
    (h : l.passes (interleave db progs (before ++ after)).db) :
    l.passes (interleave db progs before).db := by
  induction after using List.reverseRecOn with
  | nil => simpa using h
  | append_singleton after t ih =>
    rw [← List.append_assoc, interleave_concat] at h
    refine ih (passes_before ?_ h)
    exact interleave_rule (bounded_start all) (fun _ t h => h.turn t) _

theorem not_endsLease (turns : List (Turn ι)) (h : l.passes (interleave db progs turns).db)
    (before : List (Turn ι)) (t : Turn ι) (after : List (Turn ι)) (hturns : turns = before ++ t :: after) :
    ¬ EndsLease l (interleave db progs before) t := by
  rintro ⟨-, ended⟩
  rw [← interleave_concat] at ended
  subst hturns
  rw [List.append_cons] at h
  exact ended (passes_earlier db progs all _ _ h)

omit all

theorem commitCheckpoint_status (i : ι) {stepName : String} {occurrence : Int} {value : Json}
    (hi : progs i = commitCheckpoint l stepName occurrence value) (turns : List (Turn ι)) :
    (interleave db progs turns).txns i = .active (commitCheckpoint l stepName occurrence value) [] []
      ∨ (∃ before after, turns = before ++ .advance i :: after ∧
        l.passes (interleave db progs (before ++ [.advance i])).db)
      ∨ ((interleave db progs turns).txns i).ended = true
      ∨ ∃ reply, (interleave db progs turns).txns i = .active (.ret reply) [] [] := by
  induction turns using List.reverseRecOn with
  | nil => exact .inl (by rw [← hi]; rfl)
  | append_singleton turns t ih =>
    rw [interleave_concat]
    rcases (interleave db progs turns).turn_txn t i with (same | aborted) | ⟨rfl, next⟩
    · rw [same]
      refine ih.imp_right (Or.imp_left ?_)
      rintro ⟨before, after, rfl, held⟩
      exact ⟨before, after ++ [t], by simp, held⟩
    · exact .inr (.inr (.inl (by rw [aborted]; rfl)))
    rw [next]
    rcases ih with start | ⟨before, after, rfl, held⟩ | ended | ⟨reply, idle⟩
    · rw [start]
      by_cases held : l.passes (interleave db progs turns).db
      · refine .inr (.inl ⟨turns, [], rfl, ?_⟩)
        rw [interleave_concat]
        simp only [System.turn, start]
        exact held
      · have lost : fenced (interleave db progs turns).db l.taskId l.attempt l.leaseToken = none := by
          simpa [Lease.passes] using held
        refine .inr (.inr (.inr ⟨.checkpoint none, ?_⟩))
        change Txn.active (match fenced (interleave db progs turns).db l.taskId l.attempt l.leaseToken
          with | none => _ | some t => _) [] [] = _
        rw [lost]
        rfl
    · exact .inr (.inl ⟨before, after ++ [.advance i], by simp, held⟩)
    · rw [Txn.advance_of_ended _ _ ended]
      exact .inr (.inr (.inl ended))
    · rw [idle]
      exact .inr (.inr (.inl rfl))

theorem passes_after {turns : List (Turn ι)} (h : l.passes (interleave db progs turns).db)
    (after : List (Turn ι))
    (kept : ∀ xs t ys, after = xs ++ t :: ys → ¬ EndsLease l (interleave db progs (turns ++ xs)) t) :
    l.passes (interleave db progs (turns ++ after)).db := by
  induction after using List.reverseRecOn with
  | nil => simpa using h
  | append_singleton after t ih =>
    have held := ih fun xs u ys hxs => kept xs u (ys ++ [t]) (by simp [hxs])
    have stays := kept after t [] rfl
    rw [← List.append_assoc, interleave_concat]
    exact Classical.not_not.mp fun ended => stays ⟨held, ended⟩

/-- A call of `commit_checkpoint` that makes a new checkpoint visible does so under a current
lease, which nobody has ended before, exactly if nobody ends the lease between the call's
snapshot and its commit. -/
theorem checkpoint_under_lease_iff (env : ι → Env) (depth : ι → Nat) (calls : ι → Transaction)
    (i : ι) {stepName : String} {occurrence : Int} {value : Json}
    (call : calls i = .commitCheckpoint l stepName occurrence value)
    (fresh : ∀ j n, (env j).uuid n ≠ l.leaseToken) (turns : List (Turn ι)) (k : StepKey) :
    let race := interleave db fun j => (calls j).program (env j) (depth j)
    (race turns).db.checkpoints.get? k = none →
    (race (turns ++ [.advance i])).db.checkpoints.get? k ≠ none →
    ((l.passes (race turns).db ∧
        ∀ before t after, turns = before ++ t :: after → ¬ EndsLease l (race before) t) ↔
      ∀ before t after, turns = before ++ t :: after → .advance i ∈ before →
        ¬ EndsLease l (race before) t) := by
  intro race absent visible
  have all : ∀ j, ((calls j).program (env j) (depth j)).All (fun _ => True) (disowned l) :=
    fun j => (calls j).program_all (fresh j)
  refine ⟨fun h before t after hturns _ => h.2 before t after hturns, fun h => ?_⟩
  suffices held : l.passes (race turns).db from ⟨held, not_endsLease db _ all turns held⟩
  rw [show race (turns ++ [.advance i]) = _ from interleave_concat ..] at visible
  have unmoved : ((race turns).turn (.advance i)).db ≠ (race turns).db :=
    fun same => visible (same ▸ absent)
  have hi : (calls i).program (env i) (depth i) = commitCheckpoint l stepName occurrence value := by
    rw [call]
    rfl
  rcases commitCheckpoint_status db (fun j => (calls j).program (env j) (depth j)) i hi turns
    with start | ⟨before, after, rfl, held⟩ | ended | ⟨reply, idle⟩
  · refine absurd ?_ unmoved
    simp only [System.turn, race, start]
    rfl
  · rw [List.append_cons]
    refine passes_after db _ held after fun xs t ys hafter => ?_
    exact h _ t ys (by simp [hafter]) (by simp)
  · exact absurd (congrArg Prod.fst (Txn.advance_of_ended _ _ ended)) unmoved
  · refine absurd ?_ unmoved
    simp only [System.turn, race, idle]
    rfl

end Interleavings

def oneTokenServer : Server := { countingServer with uuid := fun _ => Uuid.ofNat 50 }

def claimedOnce : Database :=
  (run countingServer
    [⟨0, .enqueue { taskName := some "a", payload := some .null }⟩,
     ⟨1, .claim "default" (Uuid.ofNat 100) ["a"] [1] 1 1000⟩]).db

def firstLease : Lease := ⟨Uuid.ofNat 1, 1, Uuid.ofNat 2⟩

theorem checkpoint_under_lease_iff_alone :
    let race := interleave claimedOnce fun _ : Fin 1 =>
      Transaction.program (oneTokenServer.envAt 2) 9 (.commitCheckpoint firstLease "s" 0 .null)
    let turns := List.replicate 4 (Turn.advance 0)
    (firstLease.passes (race turns).db ∧
        ∀ before t after, turns = before ++ t :: after → ¬ EndsLease firstLease (race before) t) ↔
      ∀ before t after, turns = before ++ t :: after → .advance 0 ∈ before →
        ¬ EndsLease firstLease (race before) t :=
  checkpoint_under_lease_iff claimedOnce _ _ (fun _ => .commitCheckpoint firstLease "s" 0 .null) 0
    rfl (fun _ _ => (by decide : Uuid.ofNat 50 ≠ Uuid.ofNat 2)) _ ⟨Uuid.ofNat 1, 1, "s", 0⟩ (by decide +kernel) (by decide +kernel)

theorem checkpoint_after_lease_ended :
    let race := interleave claimedOnce fun i : Fin 3 => match i with
      | 0 => Transaction.program (oneTokenServer.envAt 2) 9 (.commitCheckpoint firstLease "s" 0 .null)
      | 1 => Transaction.program (oneTokenServer.envAt 2000000) 9
        (.operation (.recoverExpired "default" 10))
      | 2 => Transaction.program (oneTokenServer.envAt 3000000) 9
        (.claim "default" (Uuid.ofNat 101) ["a"] [1] 1 1000)
    let recover := Turn.advance 0 :: List.replicate 6 (Turn.advance 1)
    let turns := recover ++ Turn.advance 1 :: List.replicate 5 (Turn.advance 2)
    let k : StepKey := ⟨Uuid.ofNat 1, 1, "s", 0⟩
    EndsLease firstLease (race recover) (.advance 1) ∧
      (((race turns).db.tasks.get? (Uuid.ofNat 1)).map fun t => (t.state, t.attempt)) =
        some (.running, 2) ∧
      (race turns).db.checkpoints.get? k = none ∧
      (race (turns ++ List.replicate 4 (.advance 0))).db.checkpoints.get? k = some .null := by
  decide +kernel

end Pgtask.Concurrent
