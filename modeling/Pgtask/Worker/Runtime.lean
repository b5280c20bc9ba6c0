import Pgtask.Invariant.Fence
import Pgtask.Worker.Claims

/-!
# The active leases of a worker

The loops of `Worker::run` that share the map `active_leases`: the claim loop
with its shutdown, the executions it spawns and the renewal loop. They take
turns in any order, and between two turns the database handles any call.
-/

open Sql List Option Table

namespace Pgtask

/-! ## State -/

/-- `last_renewed` is an instant of the worker's own clock. `lost` is the token that the execution
with the lease listens to. -/
structure ActiveLease where
  renewal : Lease
  queueName : String
  taskName : String
  lost : Bool
  lastRenewed : Timestamp

/-- A future in the `JoinSet` that has not removed its lease. An abort stops it for good. -/
structure Execution where
  lease : Lease
  aborted : Bool := false
  deriving DecidableEq

inductive Loop
  | top
  | claiming (pass : Pass)
  | spawning (tasks : List TaskRecord)
  | draining
  | aborting
  | released (leases : List Lease)
  | failed (error : WorkerError)

/-- Where `renew_leases` is. No answer of the database stands for an error. -/
inductive Renewal
  | idle
  | asking (leases : List ActiveLease)
  | answered (leases : List ActiveLease) (renewed : Option (List Uuid))

/-- `history` is what the database has handled, from all of its clients. -/
structure WorkerState where
  history : List Request := []
  loop : Loop := .top
  executions : List Execution := []
  active : Table Uuid ActiveLease := .empty
  renewal : Renewal := .idle

/-! ## Renewal -/

def updateRenewedLeases (now : Timestamp) (leases : List ActiveLease) (renewed : List Uuid)
    (active : Table Uuid ActiveLease) : Table Uuid ActiveLease :=
  leases.foldl (fun active lease => active.adjust lease.renewal.taskId fun current =>
    if current.renewal = lease.renewal then
      if renewed.contains lease.renewal.taskId then { current with lastRenewed := now }
      else { current with lost := true }
    else current) active

def cancelUncertainLeases (now : Timestamp) (leases : List ActiveLease) (leaseMilliseconds : Int)
    (active : Table Uuid ActiveLease) : Table Uuid ActiveLease :=
  leases.foldl (fun active lease =>
    if milliseconds leaseMilliseconds * 2 / 3 ≤ now - lease.lastRenewed then
      active.adjust lease.renewal.taskId fun current =>
        if current.renewal = lease.renewal then { current with lost := true } else current
    else active) active

/-! ## Moves -/

inductive Event
  /-- A call of another client. The handlers and the other loops of the worker are such clients. -/
  | database (r : Request)
  | startPass (effectiveConcurrency activeHandlers : Nat)
  | claim (now : Timestamp) (message : String)
  | claimFailed
  | endPass
  | spawn (now : Timestamp)
  | finish (i : Nat)
  | collect
  | renew (now : Timestamp)
  | renewFailed
  | applyRenewal (now : Timestamp)
  | shutdown
  | abort
  | unwind (i : Nat)
  | drain

def TaskRecord.activeLease (task : TaskRecord) (token : Uuid) (now : Timestamp) : ActiveLease where
  renewal := ⟨task.id, task.attempt, token⟩
  queueName := task.queueName
  taskName := task.taskName
  lost := false
  lastRenewed := now

namespace WorkerState

def next (server : Server) (c : WorkerConfig) (s : WorkerState) : Event → Option WorkerState
  | .database r => some { s with history := s.history ++ [r] }
  | .startPass effectiveConcurrency activeHandlers =>
    -- `handlers.len()` also counts the handlers that have ended and are not joined yet.
    match s.loop with
    | .top =>
      if s.executions.length ≤ activeHandlers then
        some { s with loop := .claiming (.start c effectiveConcurrency activeHandlers) }
      else none
    | _ => none
  | .claim now message =>
    match s.loop with
    | .claiming pass => do
      let call ← pass.next
      let r : Request := ⟨now, c.claim call⟩
      match (step server (run server s.history) r).1.claimed message with
      | .ok claimed =>
        some { s with history := s.history ++ [r], loop := .claiming (pass.extend claimed) }
      | .error _ => some { s with history := s.history ++ [r], loop := .top }
    | _ => none
  | .claimFailed =>
    match s.loop with
    | .claiming pass => pass.next.map fun _ => { s with loop := .top }
    | _ => none
  | .endPass =>
    match s.loop with
    | .claiming pass =>
      match pass.next with
      | none => some { s with loop := .spawning pass.tasks }
      | some _ => none
    | _ => none
  | .spawn now =>
    match s.loop with
    | .spawning [] => some { s with loop := .top }
    | .spawning (task :: tasks) =>
      match task.executable c with
      | .error error => some { s with loop := .failed error }
      | .ok token => some { s with
          loop := .spawning tasks
          active := s.active.put task.id (task.activeLease token now)
          executions := s.executions ++ [{ lease := ⟨task.id, task.attempt, token⟩ }] }
    | _ => none
  | .finish i => do
    let x ← s.executions[i]?
    if x.aborted then none
    else some { s with
      executions := s.executions.eraseIdx i
      active := s.active.delete fun id _ => id = x.lease.taskId }
  | .collect =>
    match s.renewal with
    | .idle =>
      let leases := s.active.rows.map Prod.snd
      some (if leases.isEmpty then s else { s with renewal := .asking leases })
    | _ => none
  | .renew now =>
    match s.renewal with
    | .asking leases =>
      let r : Request := ⟨now, .renewLeases (leases.map ActiveLease.renewal) c.leaseMilliseconds⟩
      let renewed := match (step server (run server s.history) r).1 with
        | .returned (.ids renewed) => some renewed
        | _ => none
      some { s with history := s.history ++ [r], renewal := .answered leases renewed }
    | _ => none
  | .renewFailed =>
    match s.renewal with
    | .asking leases => some { s with renewal := .answered leases none }
    | _ => none
  | .applyRenewal now =>
    match s.renewal with
    | .answered leases (some renewed) =>
      some { s with renewal := .idle, active := updateRenewedLeases now leases renewed s.active }
    | .answered leases none =>
      some { s with
        renewal := .idle
        active := cancelUncertainLeases now leases c.leaseMilliseconds s.active }
    | _ => none
  | .shutdown =>
    match s.loop with
    | .top => some { s with loop := .draining }
    | _ => none
  | .abort =>
    match s.loop with
    | .draining => some { s with loop := .aborting }
    | _ => none
  | .unwind i =>
    -- An error of `run_handlers` drops the `JoinSet`, which aborts its futures too.
    match s.loop with
    | .aborting | .failed _ =>
      some { s with executions := s.executions.modify i fun x => { x with aborted := true } }
    | _ => none
  | .drain =>
    match s.loop with
    | .draining | .aborting =>
      if s.executions.all Execution.aborted then
        some { s with
          loop := .released (s.active.rows.map fun x => x.2.renewal)
          active := .empty }
      else none
    | _ => none

def runs (server : Server) (c : WorkerConfig) (events : List Event) : Option WorkerState :=
  events.foldlM (next server c) {}

end WorkerState

/-! ## What a move does to the leases -/

def TaskRecord.lease (task : TaskRecord) : Option Lease :=
  task.leaseToken.map fun token => ⟨task.id, task.attempt, token⟩

def Loop.leases : Loop → List Lease
  | .claiming pass => pass.tasks.filterMap TaskRecord.lease
  | .spawning tasks => tasks.filterMap TaskRecord.lease
  | _ => []

def Loop.open : Loop → Bool
  | .released _ => false
  | _ => true

namespace WorkerState

def leases (s : WorkerState) : List Lease := s.executions.map Execution.lease ++ s.loop.leases

def db (server : Server) (s : WorkerState) : Database := (run server s.history).db

end WorkerState

def SameRenewals (active active' : Table Uuid ActiveLease) : Prop :=
  ∀ id, (active'.get? id).map ActiveLease.renewal = (active.get? id).map ActiveLease.renewal

variable {server : Server} {c : WorkerConfig} {s s' : WorkerState}

theorem SameRenewals.adjust {active : Table Uuid ActiveLease} (id : Uuid)
    {f : ActiveLease → ActiveLease} (hf : ∀ a, (f a).renewal = a.renewal) :
    SameRenewals active (active.adjust id f) := by
  intro j
  rw [get?_adjust]
  split
  · rename_i hj
    simp [hj, Function.comp_def, hf]
  · rfl

theorem SameRenewals.trans {a b c : Table Uuid ActiveLease} (h : SameRenewals a b)
    (h' : SameRenewals b c) : SameRenewals a c := fun id => (h' id).trans (h id)

theorem updateRenewedLeases_same (now : Timestamp) (leases : List ActiveLease) (renewed : List Uuid)
    (active : Table Uuid ActiveLease) :
    SameRenewals active (updateRenewedLeases now leases renewed active) := by
  unfold updateRenewedLeases
  induction leases generalizing active with
  | nil => exact fun _ => rfl
  | cons lease leases ih =>
    refine SameRenewals.trans (.adjust _ fun a => ?_) (ih _)
    split
    · split <;> rfl
    · rfl

theorem cancelUncertainLeases_same (now : Timestamp) (leases : List ActiveLease) (ms : Int)
    (active : Table Uuid ActiveLease) :
    SameRenewals active (cancelUncertainLeases now leases ms active) := by
  unfold cancelUncertainLeases
  induction leases generalizing active with
  | nil => exact fun _ => rfl
  | cons lease leases ih =>
    refine SameRenewals.trans ?_ (ih _)
    dsimp only
    split
    · refine .adjust _ fun a => ?_
      split <;> rfl
    · exact fun _ => rfl

inductive Move (server : Server) (s s' : WorkerState) : Event → Prop
  /-- The database handles a call, and the loop may get the leases that it hands out. -/
  | handled {event : Event} {r : Request} {new : List Lease}
      (fresh : new = [] ∨ new = handsOut server (run server s.history) r)
      (history : s'.history = s.history ++ [r]) (executions : s'.executions = s.executions)
      (pending : s'.loop.leases.Sublist (s.loop.leases ++ new)) (active : s'.active = s.active)
      (stays : s'.loop.open = s.loop.open) : Move server s s' event
  | idle {event : Event} (history : s'.history = s.history)
      (executions : s'.executions.map Execution.lease = s.executions.map Execution.lease)
      (pending : s'.loop.leases.Sublist s.loop.leases) (active : SameRenewals s.active s'.active)
      (stays : s'.loop.open = s.loop.open)
      (closed : s.loop.open = false → s'.executions = s.executions) : Move server s s' event
  | spawn {event : Event} {lease : Lease} {entry : ActiveLease} (history : s'.history = s.history)
      (executions : s'.executions = s.executions ++ [⟨lease, false⟩])
      (pending : s.loop.leases = lease :: s'.loop.leases)
      (active : s'.active = s.active.put lease.taskId entry) (exact : entry.renewal = lease)
      (before : s.loop.open = true) (stays : s'.loop.open = true) : Move server s s' event
  | finish {i : Nat} {x : Execution} (history : s'.history = s.history)
      (row : s.executions[i]? = some x) (executions : s'.executions = s.executions.eraseIdx i)
      (loop : s'.loop = s.loop)
      (active : s'.active = s.active.delete fun id _ => id = x.lease.taskId) :
      Move server s s' (.finish i)
  | drain {event : Event} (history : s'.history = s.history)
      (executions : s'.executions = s.executions) (pending : s'.loop.leases = [])
      (ended : ∀ x ∈ s.executions, x.aborted = true) (drained : s'.loop.open = false) :
      Move server s s' event

theorem leases_of_decoded {rows : List (Uuid × Task)} {tasks : List TaskRecord}
    (h : decodeRows rows = .ok tasks) : tasks.filterMap TaskRecord.lease = rows.filterMap leaseOf := by
  unfold decodeRows at h
  induction rows generalizing tasks with
  | nil =>
    cases h
    rfl
  | cons row rows ih =>
    rw [mapM_cons] at h
    obtain ⟨task, htask, h⟩ := Checked.bind_eq_ok.mp h
    obtain ⟨rest, hrest, h⟩ := Checked.bind_eq_ok.mp h
    cases h
    obtain ⟨hid, -, hattempt, htoken⟩ := TaskRecord.tryFrom_ok htask
    have hlease : task.lease = leaseOf row := by
      unfold TaskRecord.lease leaseOf
      rw [hid, hattempt, htoken]
    rw [filterMap_cons, filterMap_cons, hlease, ih hrest]

theorem leases_of_claimed {w : World} {r : Request} {message : String} {tasks : List TaskRecord}
    (h : (step server w r).1.claimed message = .ok tasks) :
    tasks.filterMap TaskRecord.lease = handsOut server w r := by
  unfold Outcome.claimed at h
  split at h
  · rename_i rows hout
    unfold handsOut
    rw [hout]
    exact leases_of_decoded h
  · cases h

theorem lease_of_executable {task : TaskRecord} {token : Uuid} (h : task.executable c = .ok token) :
    task.lease = some ⟨task.id, task.attempt, token⟩ := by
  unfold TaskRecord.executable at h
  unfold TaskRecord.lease
  cases htoken : task.leaseToken with
  | none =>
    rw [htoken] at h
    cases h
  | some token' =>
    rw [htoken] at h
    dsimp only at h
    split at h
    · cases h
      rfl
    · cases h

theorem map_lease_abort (executions : List Execution) (i : Nat) :
    (executions.modify i fun x => { x with aborted := true }).map Execution.lease =
      executions.map Execution.lease := by
  apply List.ext_getElem?
  intro j
  rw [getElem?_map, getElem?_map, List.getElem?_modify]
  cases executions[j]? with
  | none => rfl
  | some x => split <;> rfl

theorem finish_of_next {i : Nat} (h : s.next server c (.finish i) = some s') :
    ∃ x, s.executions[i]? = some x ∧ x.aborted = false ∧ s' = { s with
      executions := s.executions.eraseIdx i
      active := s.active.delete fun id _ => id = x.lease.taskId } := by
  obtain ⟨x, hx, h⟩ := bind_eq_some_iff.mp h
  split at h
  · cases h
  · rename_i halive
    cases h
    exact ⟨x, hx, by simpa using halive, rfl⟩

theorem move_of_next {event : Event} (h : s.next server c event = some s') : Move server s s' event := by
  cases event with
  | database r =>
    cases h
    exact .handled (.inl rfl) rfl rfl (by simp) rfl rfl
  | startPass effective active =>
    dsimp only [WorkerState.next] at h
    split at h
    · rename_i hloop
      split at h
      · cases h
        refine .idle rfl rfl ?_ (fun _ => rfl) (by rw [hloop]; rfl) fun _ => rfl
        simp [Loop.leases, Pass.start]
      · cases h
    · cases h
  | claim now message =>
    dsimp only [WorkerState.next] at h
    split at h
    · rename_i pass hloop
      obtain ⟨call, -, h⟩ := bind_eq_some_iff.mp h
      split at h
      · rename_i claimed hclaimed
        cases h
        refine .handled (.inr rfl) rfl rfl ?_ rfl (by rw [hloop]; rfl)
        rw [hloop]
        simp [Loop.leases, Pass.extend, leases_of_claimed hclaimed]
      · cases h
        exact .handled (.inl rfl) rfl rfl (by simp [Loop.leases]) rfl (by rw [hloop]; rfl)
    · cases h
  | claimFailed =>
    dsimp only [WorkerState.next] at h
    split at h
    · rename_i pass hloop
      obtain ⟨call, -, rfl⟩ := map_eq_some_iff.mp h
      exact .idle rfl rfl (by simp [Loop.leases]) (fun _ => rfl) (by rw [hloop]; rfl) fun _ => rfl
    · cases h
  | endPass =>
    dsimp only [WorkerState.next] at h
    split at h
    · rename_i pass hloop
      split at h
      · cases h
        refine .idle rfl rfl ?_ (fun _ => rfl) (by rw [hloop]; rfl) fun _ => rfl
        rw [hloop]
        exact List.Sublist.refl _
      · cases h
    · cases h
  | spawn now =>
    dsimp only [WorkerState.next] at h
    split at h
    · rename_i hloop
      cases h
      exact .idle rfl rfl (by simp [Loop.leases]) (fun _ => rfl) (by rw [hloop]; rfl) fun _ => rfl
    · rename_i task tasks hloop
      split at h
      · cases h
        exact .idle rfl rfl (by simp [Loop.leases]) (fun _ => rfl) (by rw [hloop]; rfl) fun _ => rfl
      · rename_i token htoken
        cases h
        have hlease := lease_of_executable htoken
        refine .spawn rfl rfl ?_ rfl rfl (by rw [hloop]; rfl) rfl
        rw [hloop]
        exact filterMap_cons_some hlease
    · cases h
  | finish i =>
    obtain ⟨x, hx, -, rfl⟩ := finish_of_next h
    exact .finish rfl hx rfl rfl rfl
  | collect =>
    dsimp only [WorkerState.next] at h
    split at h
    · split at h <;> (cases h; exact .idle rfl rfl (List.Sublist.refl _) (fun _ => rfl) rfl fun _ => rfl)
    · cases h
  | renew now =>
    dsimp only [WorkerState.next] at h
    split at h
    · cases h
      exact .handled (.inl rfl) rfl rfl (by simp) rfl rfl
    · cases h
  | renewFailed =>
    dsimp only [WorkerState.next] at h
    split at h
    · cases h
      exact .idle rfl rfl (List.Sublist.refl _) (fun _ => rfl) rfl fun _ => rfl
    · cases h
  | applyRenewal now =>
    dsimp only [WorkerState.next] at h
    split at h
    · cases h
      exact .idle rfl rfl (List.Sublist.refl _) (updateRenewedLeases_same _ _ _ _) rfl fun _ => rfl
    · cases h
      exact .idle rfl rfl (List.Sublist.refl _) (cancelUncertainLeases_same _ _ _ _) rfl fun _ => rfl
    · cases h
  | shutdown | abort =>
    dsimp only [WorkerState.next] at h
    split at h
    · rename_i hloop
      cases h
      exact .idle rfl rfl (by simp [Loop.leases]) (fun _ => rfl) (by rw [hloop]; rfl) fun _ => rfl
    · cases h
  | unwind i =>
    dsimp only [WorkerState.next] at h
    split at h
    · rename_i hloop
      cases h
      exact .idle rfl (map_lease_abort _ i) (List.Sublist.refl _) (fun _ => rfl) rfl
        fun hclosed => by rw [hloop] at hclosed; cases hclosed
    · rename_i hloop
      cases h
      exact .idle rfl (map_lease_abort _ i) (List.Sublist.refl _) (fun _ => rfl) rfl
        fun hclosed => by rw [hloop] at hclosed; cases hclosed
    · cases h
  | drain =>
    dsimp only [WorkerState.next] at h
    split at h
    · split at h
      · rename_i hall
        cases h
        exact .drain rfl rfl rfl (List.all_eq_true.mp hall) rfl
      · cases h
    · split at h
      · rename_i hall
        cases h
        exact .drain rfl rfl rfl (List.all_eq_true.mp hall) rfl
      · cases h
    · cases h

/-! ## The leases in the map -/

/-- The execution is there, and its lease is the current one of its task. -/
def WorkerState.Live (server : Server) (s : WorkerState) (lease : Lease) : Prop :=
  lease ∈ s.executions.map Execution.lease ∧ lease.passes (s.db server)

def WorkerState.Lists (s : WorkerState) (lease : Lease) : Prop :=
  (s.active.get? lease.taskId).map ActiveLease.renewal = some lease

structure LoopInv (server : Server) (s : WorkerState) : Prop where
  handed : ∀ l ∈ s.leases, HandedOut server s.history l
  /-- A later claim of a task has ended the leases of the earlier ones. -/
  ordered : s.leases.Pairwise fun a b => a.taskId = b.taskId → ¬ a.passes (s.db server)
  listed : s.loop.open = true → ∀ l, s.Live server l → s.Lists l

/-- The execution that finishes is the only one of its task with a current lease. -/
def Clean (server : Server) (s : WorkerState) : Event → Prop
  | .finish i => ∀ x ∈ s.executions[i]?, ∀ l ∈ (s.executions.eraseIdx i).map Execution.lease,
      l.taskId = x.lease.taskId → ¬ l.passes (s.db server)
  | _ => True

theorem leases_after_claim {ls new : List Lease} {rs : List Request} {r : Request}
    (distinct : server.Distinct (run server (rs ++ [r])).drawn)
    (fresh : new = [] ∨ new = handsOut server (run server rs) r)
    (handed : ∀ l ∈ ls, HandedOut server rs l)
    (ordered : ls.Pairwise fun a b => a.taskId = b.taskId → ¬ a.passes (run server rs).db) :
    (∀ l ∈ ls ++ new, HandedOut server (rs ++ [r]) l) ∧
      (ls ++ new).Pairwise fun a b => a.taskId = b.taskId →
        ¬ a.passes (run server (rs ++ [r])).db := by
  have hnew : ∀ l ∈ new, l ∈ handsOut server (run server rs) r := by
    rcases fresh with rfl | rfl
    · intro l hl
      cases hl
    · exact fun l hl => hl
  have hnodup : (new.map Lease.taskId).Nodup := by
    rcases fresh with rfl | rfl
    · exact nodup_nil
    · exact handsOut_nodup _ _
  constructor
  · intro l hl
    rcases mem_append.mp hl with hl | hl
    · exact (handed l hl).concat r
    · exact ⟨rs, r, [], rfl, hnew l hl⟩
  · rw [pairwise_append]
    refine ⟨?_, ?_, ?_⟩
    · refine ordered.imp_of_mem fun {a b} ha _ hab hid hpass => ?_
      exact hab hid ((handed a ha).passes_before distinct hpass).1
    · exact (pairwise_map.mp hnodup).imp fun hne hid => absurd hid hne
    · intro a ha b hb hid hpass
      exact ((handed a ha).passes_before distinct hpass).2 b (hnew b hb) hid.symm

theorem LoopInv.shrink (h : LoopInv server s) (history : s'.history = s.history)
    (sub : s'.leases.Sublist s.leases)
    (listed : s'.loop.open = true → ∀ l, s'.Live server l → s'.Lists l) : LoopInv server s' := by
  refine ⟨?_, ?_, listed⟩
  · rw [history]
    exact fun l hl => h.handed l (sub.subset hl)
  · unfold WorkerState.db
    rw [history]
    exact h.ordered.sublist sub

theorem next_keeps_leases {event : Event} (h : LoopInv server s)
    (hnext : s.next server c event = some s') (clean : Clean server s event)
    (distinct : server.Distinct (run server s'.history).drawn) : LoopInv server s' := by
  have move := move_of_next hnext
  cases move with
  | @handled _ r new fresh history executions pending active stays =>
    rw [history] at distinct
    obtain ⟨handed, ordered⟩ := leases_after_claim distinct fresh h.handed h.ordered
    have hsub : s'.leases.Sublist (s.leases ++ new) := by
      unfold WorkerState.leases
      rw [executions, append_assoc]
      exact (List.Sublist.refl _).append pending
    refine ⟨?_, ?_, ?_⟩
    · rw [history]
      exact fun l hl => handed l (hsub.subset hl)
    · unfold WorkerState.db
      rw [history]
      exact ordered.sublist hsub
    · intro hopen l hl
      unfold WorkerState.Live WorkerState.db at hl
      rw [executions, history] at hl
      have hmem : l ∈ s.leases := mem_append_left _ hl.1
      have hlisted := h.listed (stays ▸ hopen) l
        ⟨hl.1, ((h.handed l hmem).passes_before distinct hl.2).1⟩
      unfold WorkerState.Lists
      rw [active]
      exact hlisted
  | idle history executions pending active stays closed =>
    refine h.shrink history ?_ fun hopen l hl => ?_
    · unfold WorkerState.leases
      rw [executions]
      exact (List.Sublist.refl _).append pending
    · unfold WorkerState.Live WorkerState.db at hl
      rw [executions, history] at hl
      exact (active _).trans (h.listed (stays ▸ hopen) l hl)
  | @spawn _ lease entry history executions pending active exact before stays =>
    have hleases : s'.leases = s.leases := by
      unfold WorkerState.leases
      rw [executions, pending]
      simp
    refine h.shrink history (hleases ▸ List.Sublist.refl _) fun hopen l hl => ?_
    unfold WorkerState.Live WorkerState.db at hl
    rw [executions, history, map_append, mem_append] at hl
    unfold WorkerState.Lists
    rw [active]
    obtain ⟨hl | hl, hpass⟩ := hl
    · have hne : l.taskId ≠ lease.taskId := by
        -- The new lease comes from a later claim.
        intro hid
        have hordered := h.ordered
        unfold WorkerState.leases at hordered
        rw [pending, pairwise_append] at hordered
        exact hordered.2.2 l hl lease mem_cons_self hid hpass
      rw [get?_put_of_ne _ _ hne]
      exact h.listed before l ⟨hl, hpass⟩
    · obtain rfl := mem_singleton.mp hl
      rw [get?_put_self, map_some]
      exact congrArg some exact
  | @finish i x history row executions loop active =>
    refine h.shrink history ?_ fun hopen l hl => ?_
    · unfold WorkerState.leases
      rw [executions, loop]
      exact ((eraseIdx_sublist _ _).map _).append (List.Sublist.refl _)
    · unfold WorkerState.Live WorkerState.db at hl
      rw [executions, history] at hl
      have hne : l.taskId ≠ x.lease.taskId := fun hid => clean x row l hl.1 hid hl.2
      have hmem : l ∈ s.executions.map Execution.lease :=
        ((eraseIdx_sublist _ _).map _).subset hl.1
      have hlisted := h.listed (loop ▸ hopen) l ⟨hmem, hl.2⟩
      unfold WorkerState.Lists
      rw [active, get?_delete_of_false fun _ => by simpa using hne]
      exact hlisted
  | drain history executions pending ended drained =>
    refine h.shrink history ?_ fun hopen => ?_
    · unfold WorkerState.leases
      rw [executions, pending, append_nil]
      exact List.sublist_append_left _ _
    · rw [drained] at hopen
      cases hopen

/-! ## Runs -/

theorem runs_concat (events : List Event) (event : Event) :
    WorkerState.runs server c (events ++ [event]) =
      (WorkerState.runs server c events).bind fun s => s.next server c event := by
  unfold WorkerState.runs
  rw [foldlM_append]
  congr 1
  funext s
  exact bind_pure _

theorem runs_append {before after : List Event} (h : WorkerState.runs server c (before ++ after) = some s) :
    ∃ s1, WorkerState.runs server c before = some s1 ∧ ∃ more, s.history = s1.history ++ more := by
  induction after using List.reverseRecOn generalizing s with
  | nil =>
    rw [append_nil] at h
    exact ⟨s, h, [], by simp⟩
  | append_singleton after event ih =>
    rw [← append_assoc, runs_concat] at h
    obtain ⟨s2, h2, hnext⟩ := bind_eq_some_iff.mp h
    obtain ⟨s1, h1, more, hmore⟩ := ih h2
    refine ⟨s1, h1, ?_⟩
    cases move_of_next hnext with
    | handled _ history => exact ⟨more ++ _, by rw [history, hmore, append_assoc]⟩
    | idle history | spawn history | finish history | drain history =>
      exact ⟨more, by rw [history, hmore]⟩

theorem runs_ended {events : List Event} (h : WorkerState.runs server c events = some s)
    (drained : s.loop.open = false) : ∀ x ∈ s.executions, x.aborted = true := by
  induction events using List.reverseRecOn generalizing s with
  | nil =>
    cases h
    cases drained
  | append_singleton events event ih =>
    rw [runs_concat] at h
    obtain ⟨s1, h1, hnext⟩ := bind_eq_some_iff.mp h
    cases move_of_next hnext with
    | handled _ _ executions _ _ stays =>
      rw [executions]
      exact ih h1 (stays ▸ drained)
    | idle _ _ _ _ stays closed =>
      rw [stays] at drained
      rw [closed drained]
      exact ih h1 drained
    | spawn _ _ _ _ _ _ stays =>
      rw [stays] at drained
      cases drained
    | finish _ _ executions loop =>
      rw [executions]
      exact fun x hx => ih h1 (loop ▸ drained) x ((eraseIdx_sublist _ _).subset hx)
    | drain _ executions _ ended =>
      rw [executions]
      exact ended

def EveryMove (server : Server) (c : WorkerConfig) (events : List Event) : Prop :=
  ∀ before event after s, events = before ++ event :: after →
    WorkerState.runs server c before = some s → Clean server s event

theorem runs_keep_leases {events : List Event} (h : WorkerState.runs server c events = some s)
    (distinct : server.Distinct (run server s.history).drawn) (clean : EveryMove server c events) :
    LoopInv server s := by
  induction events using List.reverseRecOn generalizing s with
  | nil =>
    cases h
    refine ⟨?_, List.Pairwise.nil, ?_⟩
    · intro l hl
      cases hl
    · rintro - l ⟨hl, -⟩
      cases hl
  | append_singleton events event ih =>
    obtain ⟨s1, h1, more, hmore⟩ := runs_append h
    rw [runs_concat, h1] at h
    have hdistinct : server.Distinct (run server s1.history).drawn := by
      rw [hmore] at distinct
      exact distinct.mono (run_drawn_le server _ more)
    refine next_keeps_leases (ih h1 hdistinct ?_) h (clean events event [] s1 rfl h1) distinct
    intro before event' after s2 heq h2
    exact clean before event' (after ++ [event]) s2 (by rw [heq]; simp) h2

/-- Until the map is drained it has every lease that an execution holds, so that the next renewal
asks for it and the end of a shutdown releases it. -/
structure Tracked (server : Server) (c : WorkerConfig) (s : WorkerState) : Prop where
  listed : s.loop.open = true → ∀ l, s.Live server l → s.Lists l
  renewed : s.loop.open = true → ∀ s', s.next server c .collect = some s' →
    ∀ l, s.Live server l → ∃ leases, s'.renewal = .asking leases ∧ ∃ a ∈ leases, a.renewal = l
  released : ∀ s', s.next server c .drain = some s' →
    ∀ l, s.Live server l → ∃ leases, s'.loop = .released leases ∧ l ∈ leases

theorem WorkerState.Lists.row {l : Lease} (h : s.Lists l) :
    ∃ a, (l.taskId, a) ∈ s.active.rows ∧ a.renewal = l := by
  obtain ⟨a, ha, hl⟩ := map_eq_some_iff.mp h
  exact ⟨a, mem_rows_iff.mpr ha, hl⟩

theorem tracked_of_listed (listed : s.loop.open = true → ∀ l, s.Live server l → s.Lists l) :
    Tracked server c s := by
  refine ⟨listed, ?_, ?_⟩
  · intro hopen s' hnext l hl
    obtain ⟨a, ha, hal⟩ := (listed hopen l hl).row
    dsimp only [WorkerState.next] at hnext
    split at hnext
    · have hne : (s.active.rows.map Prod.snd).isEmpty = false := by
        rw [List.isEmpty_eq_false_iff]
        exact ne_nil_of_mem (List.mem_map_of_mem ha)
      rw [hne] at hnext
      cases hnext
      exact ⟨_, rfl, a, List.mem_map_of_mem ha, hal⟩
    · cases hnext
  · intro s' hnext l hl
    have hopen : s.loop.open = true := by
      dsimp only [WorkerState.next] at hnext
      split at hnext
      · rename_i hloop
        rw [hloop]
        rfl
      · rename_i hloop
        rw [hloop]
        rfl
      · cases hnext
    obtain ⟨a, ha, hal⟩ := (listed hopen l hl).row
    have hmem : l ∈ s.active.rows.map fun x => x.2.renewal := List.mem_map.mpr ⟨_, ha, hal⟩
    dsimp only [WorkerState.next] at hnext
    split at hnext
    · split at hnext
      · cases hnext
        exact ⟨_, rfl, hmem⟩
      · cases hnext
    · split at hnext
      · cases hnext
        exact ⟨_, rfl, hmem⟩
      · cases hnext
    · cases hnext

/-- In every state of a run the map tracks the leases of the worker, if and only if no execution
finishes while another one of the same task holds its current lease. -/
theorem live_leases_tracked (server : Server) (c : WorkerConfig) (events : List Event)
    (s : WorkerState) (runs : WorkerState.runs server c events = some s)
    (distinct : server.Distinct (run server s.history).drawn) :
    (∀ before after s', events = before ++ after → WorkerState.runs server c before = some s' →
      Tracked server c s') ↔ EveryMove server c events := by
  constructor
  · rintro tracked before event after s₁ rfl h₁
    have hruns : WorkerState.runs server c ((before ++ [event]) ++ after) = some s := by
      rw [append_assoc]
      exact runs
    obtain ⟨s₂, h₂, -⟩ := runs_append hruns
    have hnext : s₁.next server c event = some s₂ := by
      rw [runs_concat, h₁] at h₂
      exact h₂
    have hlisted := (tracked (before ++ [event]) after s₂ (by simp) h₂).listed
    cases event with
    | finish i =>
      intro x hx l hl hid hpass
      obtain ⟨x', hx', halive, rfl⟩ := finish_of_next hnext
      obtain rfl := Option.some.inj (hx.symm.trans hx')
      have hopen : s₁.loop.open = true := by
        by_contra hclosed
        have hended := runs_ended h₁ (by simpa using hclosed) x (mem_of_getElem? hx)
        rw [halive] at hended
        cases hended
      obtain ⟨a, ha, -⟩ := (hlisted hopen l ⟨hl, hpass⟩).row
      have hgone := get?_delete_eq_some.mp (mem_rows_iff.mp ha)
      simp [hid] at hgone
    | _ => trivial
  · rintro clean before after s' rfl h'
    obtain ⟨s₁, h₁, more, hmore⟩ := runs_append runs
    obtain rfl : s₁ = s' := Option.some.inj (h₁.symm.trans h')
    have hdistinct : server.Distinct (run server s₁.history).drawn := by
      rw [hmore] at distinct
      exact distinct.mono (run_drawn_le server _ more)
    refine tracked_of_listed (runs_keep_leases h₁ hdistinct ?_).listed
    intro first event rest s₂ heq h₂
    exact clean first event (rest ++ after) s₂ (by rw [heq]; simp) h₂

def oneQueue : WorkerConfig := ⟨Uuid.ofNat 100, ["default"], 10, 1000, [("a", 1)]⟩

def spawnOne (now : Timestamp) (activeHandlers : Nat) : List Event :=
  [.startPass 10 activeHandlers, .claim now "", .endPass, .spawn now, .spawn now]

def trackedRun : List Event :=
  .database ⟨0, .enqueue { taskName := some "a", payload := some .null }⟩ :: spawnOne 1 0

def secondClaim : List Event :=
  .database ⟨2000000, .recoverExpired "default" 10⟩ :: spawnOne 3000000 1

instance (server : Server) (s : WorkerState) (event : Event) : Decidable (Clean server s event) :=
  match event with
  | .finish i => inferInstanceAs (Decidable (∀ x ∈ s.executions[i]?, _))
  | .database _ | .startPass _ _ | .claim _ _ | .claimFailed | .endPass | .spawn _ | .collect
  | .renew _ | .renewFailed | .applyRenewal _ | .shutdown | .abort | .unwind _ | .drain =>
    .isTrue trivial

theorem everyMove_of_fin {events : List Event}
    (h : ∀ i : Fin events.length, (WorkerState.runs server c (events.take i)).all
      (fun s => decide (Clean server s (events.get i))) = true) : EveryMove server c events := by
  rintro before event after s rfl hs
  have hi := h ⟨before.length, by simp⟩
  simp only [take_left, hs, all_some, decide_eq_true_eq] at hi
  simpa using hi

theorem one_execution_tracked :
    ∃ s, WorkerState.runs countingServer oneQueue (trackedRun ++ .finish 0 :: secondClaim) = some s ∧
      s.Live countingServer ⟨Uuid.ofNat 1, 2, Uuid.ofNat 3⟩ ∧
      s.Lists ⟨Uuid.ofNat 1, 2, Uuid.ofNat 3⟩ := by
  have hlive : (WorkerState.runs countingServer oneQueue
      (trackedRun ++ .finish 0 :: secondClaim)).any (fun s =>
        decide (⟨Uuid.ofNat 1, 2, Uuid.ofNat 3⟩ ∈ s.executions.map Execution.lease) &&
        decide (Lease.passes ⟨Uuid.ofNat 1, 2, Uuid.ofNat 3⟩ (s.db countingServer)) &&
        s.loop.open && decide ((run countingServer s.history).drawn = 3)) = true := by decide +kernel
  obtain ⟨s, hruns, hs⟩ := (Option.any_eq_true _ _).mp hlive
  simp only [Bool.and_eq_true, decide_eq_true_eq] at hs
  obtain ⟨⟨⟨hmem, hpass⟩, hopen⟩, hdrawn⟩ := hs
  have tracked := (live_leases_tracked countingServer oneQueue _ s hruns
    (by rw [hdrawn]; exact countingServer_distinct (by decide))).mpr
    (everyMove_of_fin (by decide +kernel)) _ [] s (append_nil _).symm hruns
  exact ⟨s, hruns, ⟨hmem, hpass⟩, tracked.listed hopen _ ⟨hmem, hpass⟩⟩

theorem stale_execution_removes_lease :
    ∃ s, WorkerState.runs countingServer oneQueue (trackedRun ++ secondClaim ++ [.finish 0]) = some s ∧
      s.Live countingServer ⟨Uuid.ofNat 1, 2, Uuid.ofNat 3⟩ ∧
      ¬ s.Lists ⟨Uuid.ofNat 1, 2, Uuid.ofNat 3⟩ ∧ ¬ Tracked countingServer oneQueue s := by
  have hlive : (WorkerState.runs countingServer oneQueue
      (trackedRun ++ secondClaim ++ [.finish 0])).any (fun s =>
        decide (⟨Uuid.ofNat 1, 2, Uuid.ofNat 3⟩ ∈ s.executions.map Execution.lease) &&
        decide (Lease.passes ⟨Uuid.ofNat 1, 2, Uuid.ofNat 3⟩ (s.db countingServer)) &&
        s.loop.open && (s.active.get? (Uuid.ofNat 1)).isNone) = true := by decide +kernel
  obtain ⟨s, hruns, hs⟩ := (Option.any_eq_true _ _).mp hlive
  simp only [Bool.and_eq_true, decide_eq_true_eq, isNone_iff_eq_none] at hs
  obtain ⟨⟨⟨hmem, hpass⟩, hopen⟩, hnone⟩ := hs
  have hlists : ¬ s.Lists ⟨Uuid.ofNat 1, 2, Uuid.ofNat 3⟩ := by
    intro h
    unfold WorkerState.Lists at h
    rw [hnone] at h
    cases h
  exact ⟨s, hruns, ⟨hmem, hpass⟩, hlists, fun tracked =>
    hlists (tracked.listed hopen _ ⟨hmem, hpass⟩)⟩

end Pgtask
