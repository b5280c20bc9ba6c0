import Pgtask.Run

/-!
# `enqueue_many`

One statement enqueues a whole JSON array. It does what a sequence of `enqueue`
statements at the same instant does.
-/

open Sql Checked

namespace Pgtask

/-! ## Requests in JSON -/

/-- The casts of a text to the types of the parameters. That to `timestamptz` knows words like
`now`, so it reads the clock. -/
structure Casts where
  integer : String → Result Int
  smallint : String → Result Int
  timestamptz : Timestamp → String → Result Timestamp

/-- `value -> field`: a JSON null is not NULL here. -/
def jsonField (j : Json) (field : String) : Option Json :=
  match j with
  | .obj fields => fields.lookup field
  | _ => none

def enqueueItem (casts : Casts) (e : Env) (task : Json) : Result EnqueueItem := do
  let handlerVersion ← (task.fieldText "handler_version").mapM casts.integer
  let runAt ← (task.fieldText "run_at").mapM (casts.timestamptz e.now)
  let priority ← (task.fieldText "priority").mapM casts.smallint
  let maxAttempts ← (task.fieldText "max_attempts").mapM casts.integer
  .ok { taskName := task.fieldText "task_name", payload := jsonField task "payload"
        queueName := task.fieldText "queue_name", handlerVersion, runAt, priority, maxAttempts
        idempotencyKey := task.fieldText "idempotency_key", headers := jsonField task "headers" }

structure EnqueuedRow where
  requestIndex : Int
  taskId : Uuid
  created : Bool
  deriving DecidableEq

/-- The lateral join: `enqueue` runs for one element after another, and each of its statements sees
what the elements before have written. -/
def enqueueLateral (casts : Casts) (e : Env) :
    List (Json × Nat) → Session → Result (List EnqueuedRow × Session)
  | [], s => .ok ([], s)
  | (task, ordinality) :: items, s => do
    let item ← enqueueItem casts e task
    let ((taskId, created), s) ← enqueue e item.request s
    let (rows, s) ← enqueueLateral casts e items s
    .ok (⟨ordinality - 1, taskId, created⟩ :: rows, s)

def enqueueManyJson (casts : Casts) (e : Env) (tasks : Option Json) (s : Session) :
    Result (List EnqueuedRow × Session) :=
  match tasks with
  | some (.arr elements) => do
    let (rows, s) ← enqueueLateral casts e (elements.zipIdx 1) s
    .ok (rows.insertionSort fun x y => x.requestIndex ≤ y.requestIndex, s)
  | _ => .error (invalidParameter "tasks must be a JSON array")

def enqueueManyStep (server : Server) (casts : Casts) (now : Timestamp) (tasks : Option Json) (w : World) :
    Result (List EnqueuedRow) × World :=
  match enqueueManyJson casts (server.envAt now) tasks w.session with
  | .ok (rows, s) => (.ok rows, ⟨s.db, s.drawn⟩)
  | .error error => (.error error, w)

/-! ## The sequence of single calls -/

section Sequence

variable (server : Server) (casts : Casts) (now : Timestamp)

/-- The elements are enqueued by one statement each, and all of these return. -/
inductive EnqueueSequence : List Json → World → List (Uuid × Bool) → World → Prop
  | nil {w : World} : EnqueueSequence [] w [] w
  | cons {task : Json} {tasks : List Json} {item : EnqueueItem} {w w₁ w' : World} {r : Uuid × Bool}
      {rs : List (Uuid × Bool)}
      (fields : enqueueItem casts (server.envAt now) task = .ok item)
      (head : step server w ⟨now, .enqueue item.request⟩ = (.returned (.enqueued [r]), w₁))
      (tail : EnqueueSequence tasks w₁ rs w') :
      EnqueueSequence (task :: tasks) w (r :: rs) w'

def enqueuedRows (n : Nat) (rs : List (Uuid × Bool)) : List EnqueuedRow :=
  (rs.zipIdx n).map fun x => ⟨x.2, x.1.1, x.1.2⟩

variable {server casts now} {w w' : World} {tasks : List Json} {rs : List (Uuid × Bool)}

theorem enqueue_step {r : EnqueueRequest} {a : Uuid × Bool} :
    step server w ⟨now, .enqueue r⟩ = (.returned (.enqueued [a]), w') ↔
      enqueue (server.envAt now) r w.session = .ok (a, w'.session) := by
  constructor
  · intro h
    obtain ⟨s', hexec, hs'⟩ := step_returned (congrArg Prod.fst h)
    obtain ⟨a', hcall, ha⟩ := reply_ok hexec
    cases ha
    rw [hcall, hs', h]
  · intro h
    have hexec : exec (server.envAt now) (.enqueue r) w.session = .ok (.enqueued [a], w'.session) :=
      map_eq_ok.mpr ⟨_, h, rfl⟩
    rw [step_of_exec hexec]
    rfl

theorem enqueueLateral_iff {n : Nat} {rows : List EnqueuedRow} {s' : Session} :
    enqueueLateral casts (server.envAt now) (tasks.zipIdx (n + 1)) w.session = .ok (rows, s') ↔
      ∃ rs w', EnqueueSequence server casts now tasks w rs w' ∧ rows = enqueuedRows n rs ∧
        s' = w'.session := by
  induction tasks generalizing n w rows with
  | nil =>
    constructor
    · intro h
      cases h
      exact ⟨[], w, .nil, rfl, rfl⟩
    · rintro ⟨rs, w', sequence, rfl, rfl⟩
      cases sequence
      rfl
  | cons task tasks ih =>
    rw [List.zipIdx_cons]
    constructor
    · intro h
      obtain ⟨item, hitem, hnext⟩ := bind_ok h
      obtain ⟨⟨⟨taskId, created⟩, s1⟩, hcall, hlast⟩ := bind_ok hnext
      obtain ⟨⟨rest, s2⟩, hrest, hdone⟩ := bind_ok hlast
      cases hdone
      have hs1 : s1 = World.session ⟨s1.db, s1.drawn⟩ := by
        unfold World.session
        rw [← (enqueue_effects hcall).2.trans w.session_queued]
      rw [hs1] at hcall hrest
      obtain ⟨rs, w', sequence, rfl, rfl⟩ := ih.mp hrest
      refine ⟨(taskId, created) :: rs, w', .cons hitem (enqueue_step.mpr hcall) sequence, ?_, rfl⟩
      simp [enqueuedRows, List.zipIdx_cons]
    · rintro ⟨rs, w', sequence, rfl, rfl⟩
      cases sequence with
      | cons fields head tail =>
        have hrest := (ih (n := n + 1)).mpr ⟨_, w', tail, rfl, rfl⟩
        refine bind_eq_ok.mpr ⟨_, fields, bind_eq_ok.mpr ⟨_, enqueue_step.mp head,
          bind_eq_ok.mpr ⟨_, hrest, ?_⟩⟩⟩
        simp [enqueuedRows, List.zipIdx_cons]

theorem enqueuedRows_sorted (n : Nat) (rs : List (Uuid × Bool)) :
    (enqueuedRows n rs).insertionSort (fun x y => x.requestIndex ≤ y.requestIndex) =
      enqueuedRows n rs := by
  have hlower : ∀ (n : Nat) (rs : List (Uuid × Bool)), ∀ row ∈ enqueuedRows n rs, n ≤ row.requestIndex := by
    intro n rs row hrow
    obtain ⟨x, hx, rfl⟩ := List.mem_map.mp hrow
    exact Int.ofNat_le.mpr (List.mem_zipIdx hx).1
  have hsorted : (enqueuedRows n rs).Pairwise fun x y => x.requestIndex ≤ y.requestIndex := by
    induction rs generalizing n with
    | nil => exact .nil
    | cons r rs ih =>
      refine .cons (fun row hrow => ?_) (ih (n + 1))
      have := hlower (n + 1) rs row hrow
      simp only
      omega
  exact hsorted.insertionSort_eq

theorem enqueueManyJson_eq_call {e : Env} {items : List EnqueueItem} {s : Session}
    (h : tasks.mapM (enqueueItem casts e) = .ok items) :
    enqueueManyJson casts e (some (.arr tasks)) s =
      (enqueueMany e items s).map fun x => (enqueuedRows 0 x.1, x.2) := by
  have hlateral : ∀ (n : Nat) (s : Session), enqueueLateral casts e (tasks.zipIdx (n + 1)) s =
      (enqueueMany e items s).map fun x => (enqueuedRows n x.1, x.2) := by
    induction mapM_eq_ok.mp h with
    | nil => exact fun n s => rfl
    | cons hitem _ ih =>
      intro n s
      rename_i task item tasks items hitems
      unfold enqueueMany
      rw [List.zipIdx_cons, enqueueLateral, hitem]
      cases henqueue : enqueue e item.request s with
      | error error => simp [henqueue, bind, Except.bind, Except.map]
      | ok x =>
        obtain ⟨⟨taskId, created⟩, s1⟩ := x
        have hrest := ih (mapM_eq_ok.mpr hitems) (n + 1) s1
        cases hmany : enqueueMany e items s1 with
        | error error => simp [henqueue, hrest, hmany, bind, Except.bind, Except.map]
        | ok y =>
          simp [henqueue, hrest, hmany, bind, Except.bind, Except.map, enqueuedRows, List.zipIdx_cons]
  unfold enqueueManyJson
  simp only [hlateral 0 s]
  cases enqueueMany e items s with
  | error error => rfl
  | ok x => simp [bind, Except.bind, Except.map, enqueuedRows_sorted]

/-- `enqueue_many` returns exactly if the sequence of single calls does: one row for each element,
numbered in order, with that call's answer, and the state that the sequence leaves. Otherwise it
raises and changes nothing. -/
theorem enqueue_many_sequential (server : Server) (casts : Casts) (now : Timestamp) (tasks : List Json)
    (w : World) : (∀ rs w', EnqueueSequence server casts now tasks w rs w' →
        enqueueManyStep server casts now (some (.arr tasks)) w = (.ok (enqueuedRows 0 rs), w')) ∧
      ((¬ ∃ rs w', EnqueueSequence server casts now tasks w rs w') →
        ∃ error, enqueueManyStep server casts now (some (.arr tasks)) w = (.error error, w)) := by
  unfold enqueueManyStep
  constructor
  · intro rs w' sequence
    have hrows := (enqueueLateral_iff (n := 0)).mpr ⟨rs, w', sequence, rfl, rfl⟩
    have hjson : enqueueManyJson casts (server.envAt now) (some (.arr tasks)) w.session =
        .ok (enqueuedRows 0 rs, w'.session) := by
      refine bind_eq_ok.mpr ⟨_, hrows, ?_⟩
      simp only [enqueuedRows_sorted]
    rw [hjson]
    rfl
  · intro fails
    cases h : enqueueManyJson casts (server.envAt now) (some (.arr tasks)) w.session with
    | error error => exact ⟨error, rfl⟩
    | ok x =>
      obtain ⟨⟨rows, s⟩, hrows, -⟩ := bind_eq_ok.mp h
      obtain ⟨rs, w', sequence, -⟩ := (enqueueLateral_iff (n := 0)).mp hrows
      exact absurd ⟨rs, w', sequence⟩ fails

end Sequence

def decimalCasts : Casts where
  integer t := .ok (t.toList.foldl (fun n c => 10 * n + (c.toNat - 48)) 0)
  smallint t := .ok (t.toList.foldl (fun n c => 10 * n + (c.toNat - 48)) 0)
  timestamptz now _ := .ok now

-- The second element repeats the key of the first, the third has a version given as a text.
example :
    let keyed : Json := .obj [("idempotency_key", .str "k"), ("payload", .null), ("task_name", .str "a")]
    let versioned : Json := .obj [("handler_version", .str "2"), ("payload", .null), ("task_name", .str "b")]
    (enqueueManyStep countingServer decimalCasts 0 (some (.arr [keyed, keyed, versioned])) {}).1.toOption =
      some [⟨0, Uuid.ofNat 1, true⟩, ⟨1, Uuid.ofNat 1, false⟩, ⟨2, Uuid.ofNat 3, true⟩] := by
  decide +kernel

end Pgtask
