import Pgtask.Worker.TaskResult

/-!
# Waiting for a result with the Go client

`TaskHandle.Result`. The caller names the task by a text, which the database casts to a
`uuid`. The notification carries the canonical text.
-/

open Sql

namespace Pgtask.Sdk

/-! ## The tasks -/

inductive Change
  | progress (r : TaskResult)
  | finish (r : TaskResult)
  | retry
  | delete

/-- The new row. `none` is an operation that does not find the task in a state for it. -/
def Change.row : Change → Option TaskResult → Option (Option TaskResult)
  | .progress r, some old => if !old.state.terminal && !r.state.terminal then some (some r) else none
  | .finish r, some old => if !old.state.terminal && r.state.terminal then some (some r) else none
  | .retry, some old =>
    if old.state = .failed || old.state = .cancelled then some (some { state := .pending }) else none
  | .delete, some _ => some none
  | _, none => none

/-- `notify_result_shard` runs for a task that finishes. -/
def Change.notifies : Change → Bool
  | .finish _ => true
  | _ => false

/-- The tasks as a client reads them. `sent` are the tasks that have finished, in the order in
which their notifications were sent. -/
structure Results where
  rows : Uuid → Option TaskResult
  sent : List Uuid := []

def Results.change (db : Results) (id : Uuid) (c : Change) : Option Results :=
  (c.row (db.rows id)).map fun row =>
    { rows := Function.update db.rows id row, sent := if c.notifies then db.sent ++ [id] else db.sent }

def Finished (row : Option TaskResult) : Prop := ∃ r, row = some r ∧ r.state.terminal = true

def Settled (row : Option TaskResult) : Prop := ∀ r, row = some r → r.state.terminal = true

theorem Change.finished {c : Change} {row row' : Option TaskResult} (h : c.row row = some row')
    (finished : Finished row') : c.notifies = true := by
  obtain ⟨r, rfl, hr⟩ := finished
  cases c <;> cases row <;> simp [Change.row] at h
  · simp [← h.2, h.1] at hr
  · rfl
  · simp [← h.2, TaskState.terminal] at hr

theorem Change.settled {c : Change} {row row' : Option TaskResult} (h : c.row row = some row')
    (calm : c ≠ .retry) (settled : Settled row ∨ c.notifies = true) : Settled row' := by
  cases c <;> cases row <;> simp [Change.row] at h
  · simp [Settled, Change.notifies, h] at settled
  · rintro r' rfl
    obtain ⟨⟨-, hr⟩, hrow⟩ := h
    cases hrow
    exact hr
  · exact absurd rfl calm
  · rintro r rfl
    cases h

variable {db db' : Results} {c : Change} {id j : Uuid}

theorem change_spec (h : db.change j c = some db') :
    ∃ row, c.row (db.rows j) = some row ∧ db'.rows = Function.update db.rows j row ∧
      db'.sent = if c.notifies then db.sent ++ [j] else db.sent := by
  obtain ⟨row, hrow, rfl⟩ := Option.map_eq_some_iff.mp h
  exact ⟨row, hrow, rfl, rfl⟩

theorem change_sent (h : db.change j c = some db') : ∃ more, db'.sent = db.sent ++ more := by
  obtain ⟨row, -, -, hsent⟩ := change_spec h
  rw [hsent]
  split
  · exact ⟨_, rfl⟩
  · exact ⟨[], (List.append_nil _).symm⟩

theorem change_finished (h : db.change j c = some db') (finished : Finished (db'.rows id)) :
    Finished (db.rows id) ∨ db'.sent = db.sent ++ [id] := by
  obtain ⟨row, hrow, hrows, hsent⟩ := change_spec h
  rw [hrows] at finished
  by_cases hid : id = j
  · subst hid
    rw [Function.update_self] at finished
    rw [if_pos (Change.finished hrow finished)] at hsent
    exact .inr hsent
  · rw [Function.update_of_ne hid] at finished
    exact .inl finished

theorem change_settled (h : db.change j c = some db') (calm : j = id → c ≠ .retry)
    (settled : id ∈ db.sent → Settled (db.rows id)) (mem : id ∈ db'.sent) : Settled (db'.rows id) := by
  obtain ⟨row, hrow, hrows, hsent⟩ := change_spec h
  rw [hrows]
  rw [hsent] at mem
  by_cases hid : id = j
  · subst hid
    rw [Function.update_self]
    refine Change.settled hrow (calm rfl) ?_
    split at mem
    · exact .inr ‹_›
    · exact .inl (settled mem)
  · rw [Function.update_of_ne hid]
    refine settled ?_
    split at mem
    · simpa [hid] using mem
    · exact mem

/-! ## The call -/

inductive Answer
  | missing
  | result (r : TaskResult)
  | failed
  deriving DecidableEq

def Answer.Fits (seen : Option TaskResult) : Answer → Prop
  | .missing => seen = none
  | .result r => seen = some r ∧ r.state.terminal = true
  | .failed => True

namespace Go

inductive Phase
  | listening
  | reading
  | waiting
  | done (answer : Answer)
  deriving DecidableEq

/-- `next` is the next notification that the connection hands out. The ghost fields say how many
had been sent at the LISTEN and at the last read, and what that read has found. -/
structure Call where
  db : Results
  phase : Phase := .listening
  next : Nat := 0
  start : Nat := 0
  readAt : Nat := 0
  seen : Option TaskResult := none

inductive Move
  | change (id : Uuid) (c : Change)
  /-- The connection comes from a pool and may still hold notifications of its earlier uses. -/
  | listen (held : Nat)
  | read
  | receive
  | fail

/-- `isTerminal`, after `readTaskResult`. -/
def answered : Option TaskResult → Phase
  | none => .done .missing
  | some r => if r.state.terminal then .done (.result r) else .waiting

/-- `id` is what the database makes of the caller's `text`. -/
def Call.move (hash : String → BitVec 64) (id : Uuid) (text : String) (s : Call) : Move → Option Call
  | .change j c => (s.db.change j c).map fun db => { s with db }
  | .listen held =>
    match s.phase with
    | .listening =>
      some { s with phase := .reading, next := s.db.sent.length - held, start := s.db.sent.length }
    | _ => none
  | .read =>
    match s.phase with
    | .reading =>
      some { s with phase := answered (s.db.rows id), readAt := s.db.sent.length, seen := s.db.rows id }
    | _ => none
  | .receive =>
    match s.phase with
    | .waiting => (s.db.sent[s.next]?).map fun j =>
      let notification := resultNotification hash j
      let own := notification.channel = resultChannel hash id && notification.payload = text
      { s with next := s.next + 1, phase := if own then .reading else .waiting }
    | _ => none
  | .fail =>
    match s.phase with
    | .done _ => none
    | _ => some { s with phase := .done .failed }

/-- The call waits, though the task has finished and the notification of its last end has reached
the call since it listens. -/
structure Call.Missed (id : Uuid) (s : Call) : Prop where
  waits : s.phase = .waiting
  finished : Finished (s.db.rows id)
  notified : ∃ i, s.start ≤ i ∧ i < s.next ∧ s.db.sent[i]? = some id ∧ ∀ k, i < k → s.db.sent[k]? ≠ some id

structure Call.Agrees (id : Uuid) (s : Call) : Prop where
  fits : ∀ answer, s.phase = .done answer → answer.Fits s.seen
  heard : ¬ s.Missed id

/-! ## Nothing is missed -/

/-- A call that waits has read the task after every notification that it has passed, and before
the task has finished. -/
structure Call.Inv (id : Uuid) (s : Call) : Prop where
  fits : ∀ answer, s.phase = .done answer → answer.Fits s.seen
  read : s.readAt ≤ s.db.sent.length
  position : s.next ≤ s.db.sent.length
  heard : s.phase = .waiting → ∀ i, s.start ≤ i → i < s.next → s.db.sent[i]? = some id → i < s.readAt
  owed : s.phase = .waiting → Finished (s.db.rows id) → ∃ i, s.readAt ≤ i ∧ s.db.sent[i]? = some id

variable {hash : String → BitVec 64} {id : Uuid} {text : String} {s s' : Call}

theorem Call.Inv.not_missed (inv : s.Inv id) : ¬ s.Missed id := by
  rintro ⟨waits, finished, i, hstart, hi, hown, last⟩
  obtain ⟨k, hk, hkown⟩ := inv.owed waits finished
  have hread := inv.heard waits i hstart hi hown
  exact last k (by omega) hkown

theorem answered_fits {row : Option TaskResult} {answer : Answer} (h : answered row = .done answer) :
    answer.Fits row := by
  cases row with
  | none =>
    cases h
    rfl
  | some r =>
    simp only [answered] at h
    split at h
    · cases h
      exact ⟨rfl, ‹_›⟩
    · cases h

theorem answered_waiting {row : Option TaskResult} (h : answered row = .waiting) : ¬ Finished row := by
  rintro ⟨r, rfl, hr⟩
  simp [answered, hr] at h

theorem change_keeps_inv {db : Results} {j : Uuid} {c : Change} (h : s.db.change j c = some db)
    (inv : s.Inv id) : Call.Inv id { s with db } := by
  obtain ⟨more, hsent⟩ := change_sent h
  have hlength : s.db.sent.length ≤ db.sent.length := by
    rw [hsent, List.length_append]
    omega
  have hold : ∀ {i}, i < s.db.sent.length → db.sent[i]? = s.db.sent[i]? := fun hi => by
    rw [hsent, List.getElem?_append_left hi]
  refine ⟨inv.fits, inv.read.trans hlength, inv.position.trans hlength, ?_, ?_⟩
  · intro waits i hstart hi hown
    rw [hold (lt_of_lt_of_le hi inv.position)] at hown
    exact inv.heard waits i hstart hi hown
  · intro waits finished
    rcases change_finished h finished with finished | hnew
    · obtain ⟨i, hi, hown⟩ := inv.owed waits finished
      have hlt := (List.getElem?_eq_some_iff.mp hown).1
      exact ⟨i, hi, (hold hlt).trans hown⟩
    · refine ⟨s.db.sent.length, inv.read, ?_⟩
      rw [hnew]
      exact List.getElem?_concat_length

theorem move_keeps_inv {m : Move} (h : s.move hash id id.text m = some s') (inv : s.Inv id) : s'.Inv id := by
  cases m with
  | change j c =>
    obtain ⟨db, hdb, rfl⟩ := Option.map_eq_some_iff.mp h
    exact change_keeps_inv hdb inv
  | listen held =>
    simp only [Call.move] at h
    split at h
    · cases h
      exact ⟨nofun, inv.read, Nat.sub_le _ _, nofun, nofun⟩
    · cases h
  | read =>
    simp only [Call.move] at h
    split at h
    · cases h
      refine ⟨fun answer hanswer => answered_fits hanswer, le_rfl, inv.position, ?_, ?_⟩
      · intro _ i _ hi _
        exact lt_of_lt_of_le hi inv.position
      · intro waits finished
        exact absurd finished (answered_waiting waits)
    · cases h
  | receive =>
    simp only [Call.move] at h
    split at h
    · rename_i waits
      obtain ⟨j, hj, rfl⟩ := Option.map_eq_some_iff.mp h
      have hlt := (List.getElem?_eq_some_iff.mp hj).1
      refine ⟨?_, inv.read, hlt, ?_, fun _ => inv.owed waits⟩
      · intro answer hanswer
        dsimp only at hanswer
        split at hanswer <;> cases hanswer
      · intro waits' i hstart hi hown
        rcases Nat.lt_succ_iff_lt_or_eq.mp hi with hi | rfl
        · exact inv.heard waits i hstart hi hown
        · -- The call would have gone on to read the task.
          rw [hown] at hj
          cases hj
          simp [resultNotification] at waits'
    · cases h
  | fail =>
    simp only [Call.move] at h
    split at h
    · cases h
    · cases h
      refine ⟨?_, inv.read, inv.position, nofun, nofun⟩
      intro answer hanswer
      cases hanswer
      trivial

theorem runs_agree (rows : Uuid → Option TaskResult) {moves : List Move}
    (h : Machine.runs (Call.move hash id id.text) { db := { rows } } moves = some s) : s.Agrees id := by
  have inv : s.Inv id := Machine.runs_rule (p := fun _ _ => True) (fun _ _ _ _ => move_keeps_inv)
    (Machine.everyMove_of_forall fun _ _ => trivial) h ⟨nofun, le_rfl, le_rfl, nofun, nofun⟩
  exact ⟨inv.fits, inv.not_missed⟩

def completion (id : Uuid) : List Move :=
  [.listen 0, .read, .change id (.finish { state := .succeeded }), .receive]

theorem completion_missed (hash : String → BitVec 64) {id : Uuid} {text : String} (other : text ≠ id.text) :
    ∃ s, Machine.runs (Call.move hash id text) { db := { rows := fun _ => some { state := .running } } }
      (completion id) = some s ∧ s.Missed id := by
  let rows : Uuid → Option TaskResult := fun _ => some { state := .running }
  let ended : Uuid → Option TaskResult := Function.update rows id (some { state := .succeeded })
  have hended : ended id = some { state := .succeeded } := Function.update_self ..
  refine ⟨⟨⟨ended, [id]⟩, .waiting, 1, 0, 0, rows id⟩, ?_, rfl,
    ⟨_, hended, rfl⟩,
    0, le_rfl, Nat.one_pos, rfl, ?_⟩
  · simp [Machine.runs, completion, Call.move, Results.change, Change.row, Change.notifies, answered,
      resultNotification, TaskState.terminal, Ne.symm other, rows, ended]
  · intro k hk
    simp [List.getElem?_eq_none (l := [id]) (i := k) hk]

end Go

end Pgtask.Sdk
