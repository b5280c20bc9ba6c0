import Pgtask.Lib.Machine
import Pgtask.Worker.Listener

/-!
# Waiting for the result of a task

`Store::wait_for_task_result` without a timeout. The call takes turns with the
database, which changes the task, and with the hub, which sends events. The ghost
fields `start` and `readAt` count the events that had been sent when the call
subscribed and when it last read the task.
-/

open Sql Broadcast

namespace Pgtask

structure TaskResult where
  state : TaskState
  result : Option Json := none
  error : Option Json := none
  completedAt : Option Timestamp := none
  deriving DecidableEq

inductive TaskResultWait
  | ready (result : TaskResult)
  | notFound
  deriving DecidableEq

/-- `result_channel`. `hash` is `hashtextextended(_, 0)`. -/
def resultChannel (hash : String → BitVec 64) (id : Uuid) : String :=
  "pgtask_result_" ++ lpad 2 (toString (hash id.text &&& 63).toNat)

def resultNotification (hash : String → BitVec 64) (id : Uuid) : Notification :=
  ⟨resultChannel hash id, id.text⟩

def resultFilters (hash : String → BitVec 64) (id : Uuid) : Filters :=
  Table.empty.put (resultChannel hash id) (some id.text)

namespace TaskResult

inductive Phase
  | subscribing
  | firstRead
  | receiving
  | reading
  | done (answer : Except PostgresError TaskResultWait)
  deriving DecidableEq

/-- `row` is the task in the database. -/
structure Call where
  row : Option TaskResult
  events : Channel NotificationEvent := {}
  phase : Phase := .subscribing
  next : Nat := 0
  start : Nat := 0
  readAt : Nat := 0

inductive Move
  | task (row : Option TaskResult)
  | send (event : NotificationEvent)
  | close
  | subscribe
  | subscribeFailed (error : PostgresError)
  | read
  | readFailed (error : PostgresError)
  | recv

def Move.own : Move → Bool
  | .task _ | .send _ | .close => false
  | _ => true

/-- What the call does with the task that it has read. A task that was there is there no more when
a later read does not find it. -/
def seen (gone : Except PostgresError TaskResultWait) : Option TaskResult → Phase
  | none => .done gone
  | some r => if r.state.terminal then .done (.ok (.ready r)) else .receiving

def answered (id : Uuid) : Except PostgresError Notification → Phase
  | .ok n => if n.payload = id.text then .reading else .receiving
  | .error .notificationReconnected => .reading
  | .error error => .done (.error error)

variable (hash : String → BitVec 64) (id : Uuid) (capacity : Nat)

def Call.move (s : Call) : Move → Option Call
  | .task row => some { s with row }
  | .send event => if s.events.closed then none else some { s with events := s.events.send event }
  | .close => some { s with events := { s.events with closed := true } }
  | .subscribe =>
    match s.phase with
    | .subscribing =>
      some { s with phase := .firstRead, next := s.events.sent.length, start := s.events.sent.length }
    | _ => none
  | .subscribeFailed error =>
    match s.phase with
    | .subscribing => some { s with phase := .done (.error error) }
    | _ => none
  | .read =>
    match s.phase with
    | .firstRead => some { s with phase := seen (.ok .notFound) s.row, readAt := s.events.sent.length }
    | .reading =>
      let gone := PostgresError.invalidTask "task disappeared while waiting for result"
      some { s with phase := seen (.error gone) s.row, readAt := s.events.sent.length }
    | _ => none
  | .readFailed error =>
    match s.phase with
    | .firstRead | .reading => some { s with phase := .done (.error error) }
    | _ => none
  | .recv =>
    match s.phase with
    | .receiving => do
      let (received, next) ← s.events.recv capacity s.next
      match ReadyListener.round (resultFilters hash id) received with
      | some answer => some { s with next, phase := answered id answer }
      | none => some { s with next }
    | _ => none

/-- The call blocks in `recv` with nothing left to receive, though the task has finished and its
notification has come and gone since the call last read the task. -/
structure Call.Missed (s : Call) : Prop where
  blocked : s.phase = .receiving
  received : s.next = s.events.sent.length
  finished : ∃ r, s.row = some r ∧ r.state.terminal = true
  notified : ∃ i, s.start ≤ i ∧ s.readAt ≤ i ∧
    s.events.sent[i]? = some (.ready (resultNotification hash id))

/-- The move does not lag past a notification of the task. -/
def Call.Hears (s : Call) : Move → Prop
  | .recv => ∀ missed next, s.events.recv capacity s.next = some (.lagged missed, next) →
      ∀ i, s.next ≤ i → i < next →
        s.events.sent[i]? ≠ some (.ready (resultNotification hash id))
  | _ => True

variable {hash : String → BitVec 64} {id : Uuid} {capacity : Nat} {s s' : Call}

/-! ## Moves -/

def received (hash : String → BitVec 64) (id : Uuid) (r : Received NotificationEvent) : Phase :=
  match ReadyListener.round (resultFilters hash id) r with
  | some answer => answered id answer
  | none => .receiving

theorem recv_of_move (h : s.move hash id capacity .recv = some s') :
    ∃ r next, s.phase = .receiving ∧ s.events.recv capacity s.next = some (r, next) ∧
      s' = { s with next, phase := received hash id r } := by
  simp only [Call.move] at h
  split at h
  · rename_i hphase
    obtain ⟨⟨r, next⟩, hrecv, h⟩ := Option.bind_eq_some_iff.mp h
    refine ⟨r, next, hphase, hrecv, ?_⟩
    unfold received
    split at h
    · rename_i hround
      cases h
      rw [hround]
    · rename_i hround
      cases h
      rw [hround, ← hphase]
  · cases h

theorem received_own : received hash id (.value (.ready (resultNotification hash id))) = .reading := by
  have accepted : ReadyListener.accepts (resultFilters hash id) (resultNotification hash id) = true := by
    unfold ReadyListener.accepts resultFilters resultNotification
    simp
  unfold received
  rw [ReadyListener.round_ok.mpr ⟨rfl, accepted⟩]
  exact if_pos rfl

theorem received_cases (hash : String → BitVec 64) (id : Uuid) (r : Received NotificationEvent) :
    received hash id r = .receiving ∨ received hash id r = .reading ∨
      ∃ error, received hash id r = .done (.error error) := by
  unfold received answered
  split
  · split
    · split
      · exact .inr (.inl rfl)
      · exact .inl rfl
    · exact .inr (.inl rfl)
    · exact .inr (.inr ⟨_, rfl⟩)
  · exact .inl rfl

theorem read_of_move (h : s.move hash id capacity .read = some s') :
    ∃ gone, (s.phase = .firstRead ∧ gone = .ok .notFound ∨ s.phase = .reading ∧ gone.isOk = false) ∧
      s' = { s with phase := seen gone s.row, readAt := s.events.sent.length } := by
  simp only [Call.move] at h
  split at h
  · cases h
    exact ⟨_, .inl ⟨‹_›, rfl⟩, rfl⟩
  · cases h
    exact ⟨_, .inr ⟨‹_›, rfl⟩, rfl⟩
  · cases h

/-! ## Nothing is missed -/

/-- A call that waits has read the task after every notification that it has passed. -/
structure Call.Inv (hash : String → BitVec 64) (id : Uuid) (s : Call) : Prop where
  subscribed : s.start ≤ s.next
  position : s.next ≤ s.events.sent.length
  heard : s.phase = .receiving → ∀ i, s.start ≤ i → i < s.next →
    s.events.sent[i]? = some (.ready (resultNotification hash id)) → i < s.readAt

theorem move_keeps_inv {m : Move} (hears : s.Hears hash id capacity m)
    (h : s.move hash id capacity m = some s') (inv : s.Inv hash id) : s'.Inv hash id := by
  obtain ⟨subscribed, position, heard⟩ := inv
  cases m with
  | task | close =>
    cases h
    exact ⟨subscribed, position, heard⟩
  | send event =>
    simp only [Call.move] at h
    split at h
    · cases h
    · cases h
      have hlength : (s.events.send event).sent.length = s.events.sent.length + 1 := by
        simp [Channel.send]
      refine ⟨subscribed, by simp only [hlength]; omega, fun hphase i hstart hi hown => ?_⟩
      refine heard hphase i hstart hi ?_
      rw [← hown]
      exact (List.getElem?_append_left (lt_of_lt_of_le hi position)).symm
  | subscribe =>
    simp only [Call.move] at h
    split at h
    · cases h
      exact ⟨le_rfl, le_rfl, nofun⟩
    · cases h
  | subscribeFailed =>
    simp only [Call.move] at h
    split at h
    · cases h
      exact ⟨subscribed, position, nofun⟩
    · cases h
  | read =>
    obtain ⟨gone, -, rfl⟩ := read_of_move h
    exact ⟨subscribed, position, fun _ i _ hi _ => lt_of_lt_of_le hi position⟩
  | readFailed =>
    simp only [Call.move] at h
    split at h
    · cases h
      exact ⟨subscribed, position, nofun⟩
    · cases h
      exact ⟨subscribed, position, nofun⟩
    · cases h
  | recv =>
    obtain ⟨r, next, hphase, hrecv, rfl⟩ := recv_of_move h
    cases r with
    | value event =>
      obtain ⟨hevent, rfl⟩ := Channel.recv_value hrecv
      have hlt := (List.getElem?_eq_some_iff.mp hevent).1
      refine ⟨Nat.le_succ_of_le subscribed, hlt, fun hwaits i hstart hi hown => ?_⟩
      rcases Nat.lt_succ_iff_lt_or_eq.mp hi with hi | rfl
      · exact heard hphase i hstart hi hown
      · -- The notification itself would have made the call read the task.
        rw [hown] at hevent
        cases hevent
        rw [received_own] at hwaits
        cases hwaits
    | lagged missed =>
      obtain ⟨hlt, hle⟩ := Channel.recv_lagged hrecv
      refine ⟨le_trans subscribed hlt.le, hle, fun _ i hstart hi hown => ?_⟩
      by_cases hold : i < s.next
      · exact heard hphase i hstart hold hown
      · exact absurd hown (hears missed next hrecv i (not_lt.mp hold) hi)
    | closed =>
      obtain rfl := Channel.recv_closed hrecv
      exact ⟨subscribed, position, nofun⟩

theorem Call.Inv.not_missed (inv : s.Inv hash id) : ¬ s.Missed hash id := by
  rintro ⟨blocked, received, -, i, hstart, hread, hown⟩
  have hlt := (List.getElem?_eq_some_iff.mp hown).1
  have := inv.heard blocked i hstart (by omega) hown
  omega

/-! ## The call ends -/

/-- The moves that are left to a call when no more events come. -/
def Call.left (s : Call) : Nat :=
  match s.phase with
  | .subscribing => 3
  | .firstRead | .reading => 2 * (s.events.sent.length - s.next) + 2
  | .receiving => 2 * (s.events.sent.length - s.next) + 1
  | .done _ => 0

theorem own_move_falls {m : Move} (own : m.own = true) (h : s.move hash id capacity m = some s') :
    s'.left < s.left := by
  cases m with
  | task | send | close => cases own
  | subscribe =>
    simp only [Call.move] at h
    split at h
    · rename_i hphase
      cases h
      simp [Call.left, hphase]
    · cases h
  | subscribeFailed =>
    simp only [Call.move] at h
    split at h
    · rename_i hphase
      cases h
      simp [Call.left, hphase]
    · cases h
  | read =>
    obtain ⟨gone, hphase, rfl⟩ := read_of_move h
    have hleft : s.left = 2 * (s.events.sent.length - s.next) + 2 := by
      rcases hphase with ⟨hphase, -⟩ | ⟨hphase, -⟩ <;> simp [Call.left, hphase]
    rw [hleft]
    unfold seen
    split
    · simp [Call.left]
    · split <;> simp [Call.left]
  | readFailed =>
    simp only [Call.move] at h
    split at h
    · rename_i hphase
      cases h
      simp [Call.left, hphase]
    · rename_i hphase
      cases h
      simp [Call.left, hphase]
    · cases h
  | recv =>
    obtain ⟨r, next, hphase, hrecv, rfl⟩ := recv_of_move h
    have hleft : s.left = 2 * (s.events.sent.length - s.next) + 1 := by simp [Call.left, hphase]
    rw [hleft]
    cases r with
    | value event =>
      obtain ⟨hevent, rfl⟩ := Channel.recv_value hrecv
      have hlt := (List.getElem?_eq_some_iff.mp hevent).1
      rcases received_cases hash id (.value event) with hnew | hnew | ⟨error, hnew⟩
      · simp only [Call.left, hnew]
        omega
      · simp only [Call.left, hnew]
        omega
      · simp [Call.left, hnew]
    | lagged missed =>
      obtain ⟨hlt, hle⟩ := Channel.recv_lagged hrecv
      have hnew : received hash id (.lagged missed) = .receiving := rfl
      simp only [Call.left, hnew]
      omega
    | closed => simp [Call.left, received, ReadyListener.round, answered]

/-- The task has finished, and the call has still to read it or is about to hear of it. -/
def Call.Owed (hash : String → BitVec 64) (id : Uuid) (s : Call) : Prop :=
  s.phase = .subscribing ∨ s.phase = .firstRead ∨ s.phase = .reading ∨
    s.phase = .receiving ∧ ∃ i, s.start ≤ i ∧ s.readAt ≤ i ∧
      s.events.sent[i]? = some (.ready (resultNotification hash id))

def Call.Ended (r : TaskResult) (s : Call) : Prop :=
  s.phase = .done (.ok (.ready r)) ∨ ∃ error, s.phase = .done (.error error)

def Call.Rests (hash : String → BitVec 64) (id : Uuid) (capacity : Nat) (s : Call) : Prop :=
  ∀ m : Move, m.own = true → s.move hash id capacity m = none

theorem own_move_owed {m : Move} {r : TaskResult} (own : m.own = true)
    (h : s.move hash id capacity m = some s') (row : s.row = some r)
    (finished : r.state.terminal = true) (owed : s.Owed hash id ∨ s.Ended r) :
    s'.row = some r ∧ (s'.Owed hash id ∨ s'.Ended r) := by
  cases m with
  | task | send | close => cases own
  | subscribe =>
    simp only [Call.move] at h
    split at h
    · cases h
      exact ⟨row, .inl (.inr (.inl rfl))⟩
    · cases h
  | subscribeFailed error =>
    simp only [Call.move] at h
    split at h
    · cases h
      exact ⟨row, .inr (.inr ⟨error, rfl⟩)⟩
    · cases h
  | read =>
    obtain ⟨gone, -, rfl⟩ := read_of_move h
    refine ⟨row, .inr (.inl ?_)⟩
    simp [seen, row, finished]
  | readFailed error =>
    simp only [Call.move] at h
    split at h
    · cases h
      exact ⟨row, .inr (.inr ⟨error, rfl⟩)⟩
    · cases h
      exact ⟨row, .inr (.inr ⟨error, rfl⟩)⟩
    · cases h
  | recv =>
    obtain ⟨received, next, hphase, -, rfl⟩ := recv_of_move h
    refine ⟨row, ?_⟩
    have notified : ∃ i, s.start ≤ i ∧ s.readAt ≤ i ∧
        s.events.sent[i]? = some (.ready (resultNotification hash id)) := by
      simpa [Call.Owed, Call.Ended, hphase] using owed
    rcases received_cases hash id received with hnew | hnew | ⟨error, hnew⟩
    · exact .inl (.inr (.inr (.inr ⟨hnew, notified⟩)))
    · exact .inl (.inr (.inr (.inl hnew)))
    · exact .inr (.inr ⟨error, hnew⟩)

theorem Call.Rests.ended {r : TaskResult} (rests : s.Rests hash id capacity) (inv : s.Inv hash id)
    (owed : s.Owed hash id ∨ s.Ended r) : s.Ended r := by
  refine owed.resolve_left ?_
  rintro (hphase | hphase | hphase | ⟨hphase, i, hstart, hread, hown⟩)
  · simpa [Call.move, hphase] using rests .subscribe rfl
  · simpa [Call.move, hphase] using rests .read rfl
  · simpa [Call.move, hphase] using rests .read rfl
  · have hblocked : s.events.recv capacity s.next = none := by
      cases hrecv : s.events.recv capacity s.next with
      | none => rfl
      | some x =>
        have hmove := rests .recv rfl
        simp only [Call.move, hphase, hrecv, bind, Option.bind] at hmove
        split at hmove <;> cases hmove
    have hend := Channel.recv_blocks hblocked
    have hlt := (List.getElem?_eq_some_iff.mp hown).1
    have := inv.heard hphase i hstart (by omega) hown
    omega

end TaskResult

open TaskResult in
/-- For every hash, buffer capacity and interleaving of the call with the database and the hub: as
long as the call does not lag past a notification of its task, it never waits for one that has come
and gone. If the task has finished, and the call is before a read or the notification was sent since
its last one, then it makes finitely many moves and ends with the result of the task or an error. -/
theorem task_result_not_missed (hash : String → BitVec 64) (id : Uuid) (capacity : Nat)
    (row : Option TaskResult) (moves : List TaskResult.Move) (s : TaskResult.Call)
    (h : Machine.runs (TaskResult.Call.move hash id capacity) { row } moves = some s)
    (hears : Machine.EveryMove (TaskResult.Call.move hash id capacity)
      (TaskResult.Call.Hears hash id capacity) { row } moves) : ¬ s.Missed hash id ∧
    ∀ r more s', s.row = some r → r.state.terminal = true → s.Owed hash id →
      (∀ m ∈ more, m.own = true) → Machine.runs (TaskResult.Call.move hash id capacity) s more = some s' →
      Machine.EveryMove (TaskResult.Call.move hash id capacity) (TaskResult.Call.Hears hash id capacity)
        s more → more.length ≤ s.left ∧ (s'.Rests hash id capacity → s'.Ended r) := by
  have inv : s.Inv hash id :=
    Machine.runs_rule (fun _ _ _ => move_keeps_inv) hears h ⟨le_rfl, le_rfl, nofun⟩
  refine ⟨inv.not_missed, fun r more s' hrow finished owed own hmore hears' => ⟨?_, fun rests => ?_⟩⟩
  · exact Machine.runs_length_le (fun _ _ m hm => own_move_falls (own m hm)) hmore
  · have inv' : s'.Inv hash id := Machine.runs_rule (fun _ _ _ => move_keeps_inv) hears' hmore inv
    have owed' : s'.row = some r ∧ (s'.Owed hash id ∨ s'.Ended r) :=
      Machine.runs_rule (p := fun _ m => m.own = true)
        (I := fun s => s.row = some r ∧ (s.Owed hash id ∨ s.Ended r))
        (fun _ _ _ own hmove held => own_move_owed own hmove held.1 finished held.2)
        (Machine.everyMove_of_forall own) hmore ⟨hrow, Or.inl owed⟩
    exact rests.ended inv' owed'.2

namespace TaskResult

def completion : List Move :=
  [.subscribe, .read, .task (some { state := .succeeded }),
   .send (.ready (resultNotification (fun _ => 0) (Uuid.ofNat 1)))]

theorem completion_heard :
    ∃ s, Machine.runs (Call.move (fun _ => 0) (Uuid.ofNat 1) 1024) { row := some { state := .pending } }
        completion = some s ∧ ¬ s.Missed (fun _ => 0) (Uuid.ofNat 1) ∧
      ∃ s', Machine.runs (Call.move (fun _ => 0) (Uuid.ofNat 1) 1024) s [.recv, .read] = some s' ∧
        s'.Ended { state := .succeeded } := by
  have run : Machine.runs (Call.move (fun _ => 0) (Uuid.ofNat 1) 1024)
      { row := some { state := .pending } } completion = some _ := rfl
  obtain ⟨missed, ends⟩ := task_result_not_missed (fun _ => 0) (Uuid.ofNat 1) 1024 _ _ _ run
    ⟨trivial, trivial, trivial, trivial, trivial⟩
  refine ⟨_, run, missed, _, rfl, (ends _ [.recv, .read] _ rfl rfl ?_ ?_ rfl ?_).2 ?_⟩
  · exact Or.inr (Or.inr (Or.inr ⟨rfl, 0, le_rfl, le_rfl, rfl⟩))
  · decide
  · refine ⟨fun missed next h => ?_, trivial, trivial⟩
    cases h
  · intro m own
    cases m with
  | task | send | close => cases own
  | _ => rfl

theorem completion_missed :
    ∃ s, Machine.runs (Call.move (fun _ => 0) (Uuid.ofNat 1) 1) { row := some { state := .pending } }
        (completion ++ [.send (.ready (resultNotification (fun _ => 0) (Uuid.ofNat 2))), .recv, .recv]) =
          some s ∧
      s.Missed (fun _ => 0) (Uuid.ofNat 1) ∧ s.Rests (fun _ => 0) (Uuid.ofNat 1) 1 := by
  refine ⟨_, rfl, ⟨rfl, rfl, ⟨_, rfl, rfl⟩, 0, le_rfl, le_rfl, rfl⟩, ?_⟩
  intro m own
  cases m with
  | task | send | close => cases own
  | _ => rfl

end TaskResult

end Pgtask
