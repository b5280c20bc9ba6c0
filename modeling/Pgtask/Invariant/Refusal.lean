import Pgtask.Invariant.Fence
import Pgtask.Invariant.Parents

/-!
# Calls with a lost lease

A call whose leases do not pass the fence changes nothing and says so. The calls
that walk the ancestors first say it only if the walk ends.
-/

open Sql Checked Forest List

namespace Pgtask

def Call.leases : Call → List Lease
  | .completeTask l _ | .failTask l _ _ | .suspendTask l _ _ _ _ | .spawnTask l _ _ _
  | .commitCheckpoint l _ _ _ | .waitForSignal l _ _ _ _ _ | .waitForResult l _ _ _ _ => [l]
  | .completeTasks completions => completions.map Completion.lease
  | .failTasks failures => failures.map Failure.lease
  | .renewLeases leases _ | .releaseTasks leases => leases
  | _ => []

def Call.leaseOwned : Call → Bool
  | .completeTask .. | .failTask .. | .suspendTask .. | .spawnTask .. | .commitCheckpoint ..
  | .waitForSignal .. | .waitForResult .. | .completeTasks _ | .failTasks _ | .renewLeases ..
  | .releaseTasks _ => true
  | _ => false

/-- The answer of a call all of whose leases are lost: false, NULL or no row. -/
def Call.loss : Call → Reply
  | .completeTask .. => .flag false
  | .failTask .. => .states [none]
  | .suspendTask .. => .wakeAt none
  | .spawnTask .. => .spawned none
  | .commitCheckpoint .. => .checkpoint none
  | .waitForSignal .. | .waitForResult .. => .wait none
  | .completeTasks completions => .flags (completions.map fun _ => false)
  | .failTasks failures => .states (failures.map fun _ => none)
  | .renewLeases .. | .releaseTasks _ => .ids []
  | _ => .done

def Call.walked : Call → List Uuid
  | .renewLeases leases _ | .releaseTasks leases => leases.map Lease.taskId
  | _ => []

/-- The step changes nothing, and reports the loss or an argument error. -/
def Refused (server : Server) (w : World) (r : Request) : Prop :=
  (step server w r).2 = w ∧ ((step server w r).1 = .returned r.call.loss ∨
    ∃ message, (step server w r).1 = .raised (invalidParameter message))

variable {e : Env} {server : Server} {l : Lease} {s : Session}

/-! ## The functions behind the fence -/

theorem fenced_eq_none (h : ¬ l.passes s.db) : fenced s.db l.taskId l.attempt l.leaseToken = none := by
  unfold Lease.passes at h
  simpa using h

def Idle {α : Type} (x : Result (α × Session)) (a : α) (s : Session) : Prop :=
  x = .ok (a, s) ∨ ∃ message, x = .error (invalidParameter message)

theorem Idle.map {α : Type} {x : Result (α × Session)} {a : α} (h : Idle x a s) (f : α → Reply) :
    Idle (x.map (reply f)) (f a) s := by
  rcases h with rfl | ⟨message, rfl⟩
  · exact .inl rfl
  · exact .inr ⟨message, rfl⟩

section Single

variable (lost : ¬ l.passes s.db)
include lost

theorem completeTask_lost (result : Option Json) :
    Idle (completeTask e l.taskId l.attempt l.leaseToken result s) false s := by
  unfold completeTask
  rw [fenced_eq_none lost]
  exact .inl rfl

theorem failTask_lost (error : Option Json) (ms : Option Int) :
    Idle (failTask e l.taskId l.attempt l.leaseToken error ms s) none s := by
  unfold failTask
  rw [fenced_eq_none lost]
  exact .inl rfl

theorem commitCheckpoint_lost (stepName : String) (occurrence : Int) (value : Json) :
    Idle (commitCheckpoint l.taskId l.attempt l.leaseToken stepName occurrence value s) none s := by
  unfold commitCheckpoint
  rw [fenced_eq_none lost]
  exact .inl rfl

theorem spawnTask_lost (stepName : String) (occurrence : Int) (request : EnqueueRequest) :
    Idle (spawnTask e l.taskId l.attempt l.leaseToken stepName occurrence request s) none s := by
  unfold spawnTask
  rw [fenced_eq_none lost]
  exact .inl rfl

theorem suspendTask_lost (stepName : String) (occurrence : Int) (wakeAt : Option Timestamp)
    (delay : Option Int) :
    Idle (suspendTask e l.taskId l.attempt l.leaseToken stepName occurrence wakeAt delay s) none s := by
  unfold suspendTask wakeTime
  rw [fenced_eq_none lost]
  split
  · exact .inr ⟨_, rfl⟩
  · exact .inr ⟨_, rfl⟩
  · exact .inl rfl
  · split
    · exact .inr ⟨_, rfl⟩
    · exact .inl rfl

theorem waitForSignal_lost (stepName : String) (occurrence : Int) (signalName : String)
    (signalOccurrence : Int) (timeout : Option Int) :
    Idle (waitForSignal e l.taskId l.attempt l.leaseToken stepName occurrence signalName
      signalOccurrence timeout s) none s := by
  unfold waitForSignal
  rw [fenced_eq_none lost]
  split
  · exact .inr ⟨_, rfl⟩
  · exact .inl rfl

theorem waitForResult_lost (stepName : String) (occurrence : Int) (resultTaskId : Uuid)
    (timeout : Option Int) :
    Idle (waitForResult e l.taskId l.attempt l.leaseToken stepName occurrence resultTaskId
      timeout s) none s := by
  unfold waitForResult
  rw [fenced_eq_none lost]
  split
  · exact .inr ⟨_, rfl⟩
  · split
    · exact .inr ⟨_, rfl⟩
    · exact .inl rfl

end Single

/-! ## Batches -/

theorem Stops.keeps_lost {id : Uuid} {s' : Session} (h : Stops id s s') (lost : ¬ l.passes s.db) :
    ¬ l.passes s'.db := by
  obtain ⟨new, htasks, hstopped⟩ := h
  rw [passes_iff] at lost ⊢
  rw [htasks, Table.get?_put]
  split
  · rintro ⟨t, ht, hr, -⟩
    cases ht
    exact hstopped hr
  · exact lost

section Batch

variable {α β : Type} {lease : α → Lease} {answer : β}
  {act : α → Task → Session → Result (β × Session)}

theorem forFenced_lost {as : List α} (lost : ∀ a ∈ as, ¬ (lease a).passes s.db) :
    forFenced lease answer act as s = .ok (as.map fun _ => answer, s) := by
  induction as with
  | nil => rfl
  | cons a as ih =>
    rw [forall_mem_cons] at lost
    unfold forFenced
    rw [fenced_eq_none lost.1, ih lost.2]
    rfl

theorem forFenced_skip (stops : ∀ a t b s s', act a t s = .ok (b, s') → Stops (lease a).taskId s s')
    {as bs : List α} {a : α} (lost : ¬ (lease a).passes s.db) :
    forFenced lease answer act (as ++ a :: bs) s =
      (forFenced lease answer act (as ++ bs) s).map fun x =>
        (x.1.take as.length ++ answer :: x.1.drop as.length, x.2) := by
  induction as generalizing s with
  | nil =>
    rw [nil_append, nil_append, forFenced, fenced_eq_none lost]
    cases forFenced lease answer act bs s <;> rfl
  | cons d as ih =>
    rw [cons_append, cons_append, forFenced, forFenced]
    split
    · rw [ih lost]
      cases forFenced lease answer act (as ++ bs) s <;> rfl
    · rename_i t ht
      cases hact : act d t s with
      | error err => rfl
      | ok x =>
        obtain ⟨b, s1⟩ := x
        simp only [bind, Except.bind]
        rw [ih ((stops d t b s s1 hact).keeps_lost lost)]
        cases forFenced lease answer act (as ++ bs) s1 <;> rfl

end Batch

theorem owns_passes {id : Uuid} {t : Task} (row : s.db.tasks.get? id = some t)
    (h : l.owns id t = true) : l.passes s.db := by
  unfold Lease.owns at h
  simp only [Bool.and_eq_true, decide_eq_true_eq] at h
  obtain ⟨⟨⟨rfl, hr⟩, hattempt⟩, htoken⟩ := h
  exact passes_iff.mpr ⟨t, row, hr, hattempt, htoken⟩

theorem select_skip (lost : ¬ l.passes s.db) (as bs : List Lease) (p : Uuid → Task → Bool) :
    (s.db.tasks.select fun id t => (as ++ l :: bs).any (·.owns id t) && p id t) =
      s.db.tasks.select fun id t => (as ++ bs).any (·.owns id t) && p id t := by
  unfold Table.select
  refine filter_congr ?_
  rintro ⟨id, t⟩ hx
  have hown : l.owns id t = false := by
    rw [Bool.eq_false_iff]
    exact fun h => lost (owns_passes (Table.mem_rows_iff.mp hx) h)
  simp [hown]

theorem select_lost {leases : List Lease} (lost : ∀ l ∈ leases, ¬ l.passes s.db)
    (p : Uuid → Task → Bool) :
    (s.db.tasks.select fun id t => leases.any (·.owns id t) && p id t) = [] := by
  induction leases with
  | nil => simp [Table.select]
  | cons l leases ih =>
    rw [forall_mem_cons] at lost
    exact (select_skip lost.1 [] leases p).trans (ih lost.2)

/-! ## Calls -/

theorem fireTriggers_empty (h : s.queued = []) : fireTriggers e s = .ok s := by
  unfold fireTriggers drain
  rw [h]

theorem walkAncestry_cases (db : Database) (ids : List Uuid) :
    walkAncestry db ids = .ok () ∨ walkAncestry db ids = .error .endlessRecursion := by
  unfold walkAncestry
  split
  · exact .inl rfl
  · exact .inr rfl

theorem exec_lost {c : Call} (owned : c.leaseOwned = true) (hq : s.queued = [])
    (walk : walkAncestry s.db c.walked = .ok ()) (lost : ∀ l ∈ c.leases, ¬ l.passes s.db) :
    Idle (exec e c s) c.loss s := by
  cases c with
  | completeTask l => exact (completeTask_lost (lost l mem_cons_self) _).map _
  | failTask l => exact (failTask_lost (lost l mem_cons_self) _ _).map _
  | commitCheckpoint l => exact (commitCheckpoint_lost (lost l mem_cons_self) _ _ _).map _
  | spawnTask l => exact (spawnTask_lost (lost l mem_cons_self) _ _ _).map _
  | suspendTask l => exact (suspendTask_lost (lost l mem_cons_self) _ _ _ _).map _
  | waitForSignal l => exact (waitForSignal_lost (lost l mem_cons_self) _ _ _ _ _).map _
  | waitForResult l => exact (waitForResult_lost (lost l mem_cons_self) _ _ _ _).map _
  | completeTasks cs =>
    refine Idle.map ?_ Reply.flags
    unfold completeTasks
    split
    · left
      rw [completeRows, forFenced_lost fun c hc => lost c.lease (List.mem_map_of_mem hc)]
      simp only [bind, Except.bind, fireTriggers_empty hq]
    · exact .inr ⟨_, rfl⟩
  | failTasks fs =>
    refine Idle.map ?_ Reply.states
    unfold failTasks
    split
    · left
      rw [failRows, forFenced_lost fun f hf => lost f.lease (List.mem_map_of_mem hf)]
      simp only [bind, Except.bind, fireTriggers_empty hq]
    · exact .inr ⟨_, rfl⟩
  | renewLeases leases ms =>
    have lost : ∀ l ∈ leases, ¬ l.passes s.db := lost
    have walk : walkAncestry s.db (leases.map Lease.taskId) = .ok () := walk
    refine Idle.map (.inl ?_) Reply.ids
    unfold renewLeases
    rw [select_lost lost, walk]
    rfl
  | releaseTasks leases =>
    have lost : ∀ l ∈ leases, ¬ l.passes s.db := lost
    have walk : walkAncestry s.db (leases.map Lease.taskId) = .ok () := walk
    have hrows := select_lost lost fun _ _ => true
    simp only [Bool.and_true] at hrows
    refine Idle.map (.inl ?_) Reply.ids
    unfold releaseTasks
    rw [hrows, walk]
    rfl
  | _ => cases owned

theorem exec_endless {c : Call} (walk : walkAncestry s.db c.walked ≠ .ok ()) :
    exec e c s = .error .endlessRecursion := by
  have hwalk := (walkAncestry_cases s.db c.walked).resolve_left walk
  cases c with
  | renewLeases leases ms =>
    have hwalk : walkAncestry s.db (leases.map Lease.taskId) = .error .endlessRecursion := hwalk
    unfold exec renewLeases
    simp only [hwalk]
    rfl
  | releaseTasks leases =>
    have hwalk : walkAncestry s.db (leases.map Lease.taskId) = .error .endlessRecursion := hwalk
    unfold exec releaseTasks
    simp only [hwalk]
    rfl
  | _ => exact absurd rfl walk

theorem refused_iff {w : World} {r : Request} (owned : r.call.leaseOwned = true)
    (lost : ∀ l ∈ r.call.leases, ¬ l.passes w.db) : Refused server w r ↔
      ∀ id ∈ r.call.walked, w.db.tasks.get? id ≠ none → ¬ CycleAbove (parentOf w.db) id := by
  rw [← walkAncestry_ok_iff]
  unfold Refused step
  constructor
  · intro h
    by_contra hwalk
    rw [exec_endless (s := w.session) hwalk] at h
    rcases h.2 with h | ⟨message, h⟩ <;> cases h
  · intro hwalk
    rcases exec_lost (s := w.session) owned rfl hwalk lost with h | ⟨message, h⟩
    · rw [h]
      exact ⟨rfl, .inl rfl⟩
    · rw [h]
      exact ⟨rfl, .inr ⟨message, rfl⟩⟩

/-- An answer with the loss of one more entry, at position `n`. -/
def Reply.withLoss (n : Nat) : Reply → Reply
  | .flags values => .flags (values.take n ++ false :: values.drop n)
  | .states values => .states (values.take n ++ none :: values.drop n)
  | r => r

/-- `Adds l c c' f`: `c'` is the batch `c` with one more entry, for the lease `l`, and `f` puts
the loss of that entry into an answer of `c`. Renewal and release answer with no row for it. -/
inductive Call.Adds (l : Lease) : Call → Call → (Reply → Reply) → Prop
  | renew (as bs : List Lease) (ms : Int) :
      Adds l (.renewLeases (as ++ bs) ms) (.renewLeases (as ++ l :: bs) ms) id
  | release (as bs : List Lease) : Adds l (.releaseTasks (as ++ bs)) (.releaseTasks (as ++ l :: bs)) id
  | complete (as bs : List Completion) (c : Completion) (lease : c.lease = l) :
      Adds l (.completeTasks (as ++ bs)) (.completeTasks (as ++ c :: bs)) (Reply.withLoss as.length)
  | fail (as bs : List Failure) (f : Failure) (lease : f.lease = l) :
      Adds l (.failTasks (as ++ bs)) (.failTasks (as ++ f :: bs)) (Reply.withLoss as.length)

def Outcome.map (f : Reply → Reply) : Outcome → Outcome
  | .returned reply => .returned (f reply)
  | .raised error => .raised error

theorem nodup_skip {α : Type} {as bs : List α} {a : α} (h : (as ++ a :: bs).Nodup) :
    (as ++ bs).Nodup :=
  h.sublist (List.Sublist.append_left (List.sublist_cons_self a bs) as)

theorem walked_skip {db : Database} {as bs : List Uuid} {a : Uuid}
    (h : walkAncestry db (as ++ a :: bs) = .ok ()) : walkAncestry db (as ++ bs) = .ok () := by
  rw [walkAncestry_ok_iff] at h ⊢
  refine fun id hid => h id ?_
  rcases mem_append.mp hid with hid | hid
  · exact mem_append_left _ hid
  · exact mem_append_right _ (mem_cons_of_mem _ hid)

section Skip

variable (lost : ¬ l.passes s.db)
include lost

theorem renewLeases_skip {as bs : List Lease} {ms : Int}
    (walk : walkAncestry s.db ((as ++ l :: bs).map Lease.taskId) = .ok ()) :
    renewLeases e (as ++ l :: bs) ms s = renewLeases e (as ++ bs) ms s := by
  have walk' : walkAncestry s.db ((as ++ bs).map Lease.taskId) = .ok () := by
    rw [map_append] at walk ⊢
    exact walked_skip walk
  unfold renewLeases
  rw [walk, walk', select_skip lost]

theorem releaseTasks_skip {as bs : List Lease}
    (walk : walkAncestry s.db ((as ++ l :: bs).map Lease.taskId) = .ok ()) :
    releaseTasks e (as ++ l :: bs) s = releaseTasks e (as ++ bs) s := by
  have walk' : walkAncestry s.db ((as ++ bs).map Lease.taskId) = .ok () := by
    rw [map_append] at walk ⊢
    exact walked_skip walk
  have hrows := select_skip lost as bs fun _ _ => true
  simp only [Bool.and_true] at hrows
  unfold releaseTasks
  rw [walk, walk', hrows]

theorem completeTasks_skip {as bs : List Completion} {c : Completion} (lease : c.lease = l)
    (nodup : ((as ++ c :: bs).map Completion.spelling).Nodup) :
    completeTasks e (as ++ c :: bs) s = (completeTasks e (as ++ bs) s).map fun x =>
      (x.1.take as.length ++ false :: x.1.drop as.length, x.2) := by
  subst lease
  have nodup' : ((as ++ bs).map Completion.spelling).Nodup := by
    rw [map_append] at nodup ⊢
    exact nodup_skip nodup
  unfold completeTasks
  rw [if_pos nodup, if_pos nodup', completeRows, forFenced_skip completeRequest_stops lost]
  cases hrows : forFenced Completion.lease false (completeRequest e) (as ++ bs) s with
  | error err => rfl
  | ok x =>
    simp only [bind, Except.bind, Except.map]
    cases fireTriggers e x.2 <;> rfl

theorem failTasks_skip {as bs : List Failure} {f : Failure} (lease : f.lease = l)
    (nodup : ((as ++ f :: bs).map Failure.spelling).Nodup) :
    failTasks e (as ++ f :: bs) s = (failTasks e (as ++ bs) s).map fun x =>
      (x.1.take as.length ++ none :: x.1.drop as.length, x.2) := by
  subst lease
  have nodup' : ((as ++ bs).map Failure.spelling).Nodup := by
    rw [map_append] at nodup ⊢
    exact nodup_skip nodup
  unfold failTasks
  rw [if_pos nodup, if_pos nodup', failRows, forFenced_skip failRequest_stops lost]
  cases hrows : forFenced Failure.lease none (failRequest e) (as ++ bs) s with
  | error err => rfl
  | ok x =>
    simp only [bind, Except.bind, Except.map]
    cases fireTriggers e x.2 <;> rfl

/-- An entry with a lost lease changes nothing of what its batch does. -/
theorem exec_adds {c c' : Call} {f : Reply → Reply} (adds : Call.Adds l c c' f)
    (walk : walkAncestry s.db c'.walked = .ok ()) :
    exec e c' s = (exec e c s).map (fun x => (f x.1, x.2)) ∨
      ∃ message, exec e c' s = .error (invalidParameter message) := by
  cases adds with
  | renew as bs ms =>
    left
    unfold exec
    simp only
    rw [renewLeases_skip lost walk]
    cases renewLeases e (as ++ bs) ms s <;> rfl
  | release as bs =>
    left
    unfold exec
    simp only
    rw [releaseTasks_skip lost walk]
    cases releaseTasks e (as ++ bs) s <;> rfl
  | complete as bs c lease =>
    by_cases nodup : ((as ++ c :: bs).map Completion.spelling).Nodup
    · left
      unfold exec
      simp only
      rw [completeTasks_skip lost lease nodup]
      cases completeTasks e (as ++ bs) s <;> rfl
    · right
      unfold exec completeTasks
      simp only [if_neg nodup]
      exact ⟨_, rfl⟩
  | fail as bs f lease =>
    by_cases nodup : ((as ++ f :: bs).map Failure.spelling).Nodup
    · left
      unfold exec
      simp only
      rw [failTasks_skip lost lease nodup]
      cases failTasks e (as ++ bs) s <;> rfl
    · right
      unfold exec failTasks
      simp only [if_neg nodup]
      exact ⟨_, rfl⟩

end Skip

theorem step_adds {w : World} {now : Timestamp} {c c' : Call} {f : Reply → Reply}
    (adds : Call.Adds l c c' f) (lost : ¬ l.passes w.db)
    (walk : ∀ id ∈ c'.walked, w.db.tasks.get? id ≠ none → ¬ CycleAbove (parentOf w.db) id) :
    (step server w ⟨now, c'⟩ = ((step server w ⟨now, c⟩).1.map f, (step server w ⟨now, c⟩).2)) ∨
      ∃ message, step server w ⟨now, c'⟩ = (.raised (invalidParameter message), w) := by
  unfold step
  rcases exec_adds (e := server.envAt now) (s := w.session) lost adds (walkAncestry_ok_iff.mpr walk)
    with h | ⟨message, h⟩
  · left
    rw [h]
    cases exec (server.envAt now) c w.session <;> rfl
  · right
    rw [h]
    exact ⟨message, rfl⟩

/-! ## Runs -/

/-- An earlier claim has handed out the lease, and it is not held any more. -/
def Lost (server : Server) (rs : List Request) (l : Lease) : Prop :=
  ∃ before r since, rs = before ++ r :: since ∧ l ∈ handsOut server (run server before) r ∧
    ¬ StillHeld server before r since l

theorem Lost.not_passes {rs : List Request} (distinct : server.Distinct (run server rs).drawn)
    (h : Lost server rs l) : ¬ l.passes (run server rs).db := by
  obtain ⟨before, r, since, rfl, hl, hlost⟩ := h
  exact fun hpass => hlost ((passes_iff_stillHeld distinct hl).2.mp hpass)

/-- A lease passes the fence exactly while the claim that handed it out is the latest of its task
and the task runs. A call with lost leases only is refused, if and only if the walk up from the
tasks it names ends, and a lost lease in a batch counts for nothing. At most one lease of a task
passes the fence, and one that has stopped passing does not pass again. -/
theorem lost_leases_refused (server : Server) (rs : List Request)
    (distinct : server.Distinct (run server rs).drawn) :
    (∀ before r since l, rs = before ++ r :: since → l ∈ handsOut server (run server before) r →
      (l.passes (run server rs).db ↔ StillHeld server before r since l)) ∧
    (∀ r : Request, r.call.leaseOwned = true → (∀ l ∈ r.call.leases, Lost server rs l) →
      (Refused server (run server rs) r ↔ ∀ id ∈ r.call.walked,
        (run server rs).db.tasks.get? id ≠ none → ¬ CycleAbove (parentOf (run server rs).db) id)) ∧
    (∀ now c c' f l, Call.Adds l c c' f → Lost server rs l →
      (∀ id ∈ c'.walked, (run server rs).db.tasks.get? id ≠ none →
        ¬ CycleAbove (parentOf (run server rs).db) id) → step server (run server rs) ⟨now, c'⟩ =
          ((step server (run server rs) ⟨now, c⟩).1.map f, (step server (run server rs) ⟨now, c⟩).2) ∨
        ∃ message, step server (run server rs) ⟨now, c'⟩ =
          (.raised (invalidParameter message), run server rs)) ∧
    (∀ l l' : Lease, l.passes (run server rs).db → l'.passes (run server rs).db →
      l.taskId = l'.taskId → l = l') ∧
    (∀ before r a b l, rs = before ++ r :: (a ++ b) → l ∈ handsOut server (run server before) r →
      ¬ l.passes (run server (before ++ r :: a)).db → ¬ l.passes (run server rs).db) := by
  refine ⟨?_, ?_, ?_, ?_, ?_⟩
  · rintro before r since l rfl hl
    exact (passes_iff_stillHeld distinct hl).2
  · intro r owned lost
    exact refused_iff owned fun l hl => (lost l hl).not_passes distinct
  · intro now c c' f l adds lost walk
    exact step_adds adds (lost.not_passes distinct) walk
  · rintro ⟨id, n, token⟩ ⟨id', n', token'⟩ h h' rfl
    obtain ⟨t, ht, -, hattempt, htoken⟩ := passes_iff.mp h
    obtain ⟨t', ht', -, hattempt', htoken'⟩ := passes_iff.mp h'
    rw [ht] at ht'
    cases ht'
    simp_all
  · rintro before r a b l rfl hl hlost hpass
    have hheld := (passes_iff_stillHeld distinct hl).2.mp hpass
    have hle : (run server (before ++ r :: a)).drawn ≤ (run server (before ++ r :: (a ++ b))).drawn := by
      rw [← cons_append, ← append_assoc]
      exact run_drawn_le server _ b
    refine hlost ((passes_iff_stillHeld (distinct.mono hle) hl).2.mpr ⟨?_, ?_⟩)
    · rintro a' b' rfl
      exact hheld.1 a' (b' ++ b) (append_assoc _ _ _)
    · rintro a' r' b' rfl
      exact hheld.2 a' r' (b' ++ b) (append_assoc _ _ _)

def completedRun : List Request :=
  [⟨0, .enqueue { taskName := some "a", payload := some .null }⟩,
   ⟨1, .claim "default" (Uuid.ofNat 100) ["a"] [1] 1 1000⟩,
   ⟨2, .completeTask ⟨Uuid.ofNat 1, 1, Uuid.ofNat 2⟩ none⟩]

theorem lost_of_stopped {rs : List Request} (n : Fin rs.length)
    (hl : l ∈ handsOut server (run server (rs.take n)) (rs.get n))
    (stopped : ((run server rs).db.tasks.get? l.taskId).all fun t => t.state ≠ .running) :
    Lost server rs l := by
  have hrs : rs = rs.take n ++ rs.get n :: rs.drop (n + 1) := by simp
  refine ⟨rs.take n, rs.get n, rs.drop (n + 1), hrs, hl, fun held => ?_⟩
  obtain ⟨t, ht, hr⟩ := held.1 _ [] (append_nil _).symm
  rw [← hrs] at ht
  rw [ht] at stopped
  simp [hr] at stopped

theorem second_completion_refused :
    countingServer.Distinct (run countingServer completedRun).drawn ∧
      Lost countingServer completedRun ⟨Uuid.ofNat 1, 1, Uuid.ofNat 2⟩ ∧
      Refused countingServer (run countingServer completedRun)
        ⟨3, .completeTask ⟨Uuid.ofNat 1, 1, Uuid.ofNat 2⟩ none⟩ := by
  have hdrawn : (run countingServer completedRun).drawn = 2 := by decide +kernel
  have distinct : countingServer.Distinct (run countingServer completedRun).drawn := by
    rw [hdrawn]
    exact countingServer_distinct (by decide)
  have lost : Lost countingServer completedRun ⟨Uuid.ofNat 1, 1, Uuid.ofNat 2⟩ :=
    lost_of_stopped ⟨1, by decide⟩ (by decide +kernel) (by decide +kernel)
  refine ⟨distinct, lost, ?_⟩
  refine ((lost_leases_refused countingServer completedRun distinct).2.1 _ rfl ?_).mpr ?_
  · intro l hl
    rw [mem_singleton.mp hl]
    exact lost
  · intro id hid
    cases hid

theorem lost_renewal_not_refused : let l : Lease := ⟨Uuid.ofNat 1, 1, Uuid.ofNat 2⟩
    let rs := adoptionRun ++ [⟨5, .spawnTask ⟨Uuid.ofNat 3, 1, Uuid.ofNat 4⟩ "x" 0
      { taskName := some "a", payload := some .null }⟩, ⟨6, .completeTask l none⟩]
    countingServer.Distinct (run countingServer rs).drawn ∧ Lost countingServer rs l ∧
      ¬ Refused countingServer (run countingServer rs) ⟨7, .renewLeases [l] 1000⟩ := by
  intro l rs
  refine ⟨?_, ?_, ?_⟩
  · rw [show (run countingServer rs).drawn = 4 by decide +kernel]
    exact countingServer_distinct (by decide)
  · exact lost_of_stopped ⟨1, by decide⟩ (by decide +kernel) (by decide +kernel)
  · rintro ⟨-, hreply⟩
    have hraised : (step countingServer (run countingServer rs) ⟨7, .renewLeases [l] 1000⟩).1 =
        .raised .endlessRecursion := by decide +kernel
    rw [hraised] at hreply
    rcases hreply with h | ⟨message, h⟩ <;> cases h

end Pgtask
