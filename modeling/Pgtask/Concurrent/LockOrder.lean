import Mathlib.Data.Fintype.Basic
import Mathlib.Data.Prod.Lex
import Pgtask.Concurrent.Programs
import Pgtask.Invariant.Parents
import Pgtask.Lib.LockOrder

/-!
# Ancestors first

`renew_leases` and `release_tasks` lock their tasks by the number of their ancestors,
and `wait_for_result` locks a task and then its child. So they all go down the forest
of tasks, and none of them waits in a cycle with the others.
-/

open Sql ReadCommitted List Option

namespace Pgtask.Concurrent

variable {child parent id : Uuid} {t : Task}

/-! ## Programs -/

def depthOf (db : Database) (id : Uuid) : Nat :=
  match Forest.walk (parentOf db) (walkBound db) id with
  | some chain => chain.length - 1
  | none => 0

def byDepth (db : Database) (x y : Uuid) : Bool :=
  lexLe (· ≤ ·) (· ≤ ·) (depthOf db x, x) (depthOf db y, y)

def lockRequested (id : Uuid) : Tx (List (Uuid × Task)) := do
  let row ← lockTask id .noKeyUpdate
  match row with
  | some t => pure [(id, t)]
  | none => pure []

def lockAncestorsFirst (ids : List Uuid) : Tx (List (Uuid × Task)) := do
  let db ← Prog.snapshot
  ofResult (walkAncestry db ids)
  Prog.collect lockRequested
    (((db.tasks.select fun id _ => ids.contains id).map Prod.fst).insertionSort fun x y => byDepth db x y)

def renewLeases (e : Env) (leases : List Lease) (leaseMilliseconds : Int) : Tx Reply := do
  let locked ← lockAncestorsFirst (leases.map Lease.taskId)
  let rows := locked.filter fun x => leases.any (·.owns x.1 x.2) && x.2.cancelRequestedAt.isNone
  Prog.forEach (fun x => do
    let new := { x.2 with leaseExpiresAt := some (e.now + milliseconds leaseMilliseconds) }
    ofResult (require (new.checks x.1))
    Prog.put (.task x.1) new) rows
  pure (.ids (rows.map Prod.fst))

def releaseTasks (e : Env) (leases : List Lease) : Tx Reply := do
  let locked ← lockAncestorsFirst (leases.map Lease.taskId)
  let rows := locked.filter fun x => leases.any (·.owns x.1 x.2)
  Prog.forEach (fun x => do
    let new := x.2.yielded e.now
    ofResult (require (new.checks x.1))
    Prog.put (.task x.1) new) rows
  Prog.forEach (fun x => updateAttempt x.1 x.2.attempt fun a =>
    { a with state := .released, finishedAt := some e.now }) rows
  pure (.ids (rows.map Prod.fst))

inductive LeaseCall
  | renewLeases (leases : List Lease) (leaseMilliseconds : Int)
  | releaseTasks (leases : List Lease)
  | waitForResult (lease : Lease) (stepName : String) (occurrence : Int) (resultTaskId : Uuid)
      (timeoutMilliseconds : Option Int)

def LeaseCall.program (e : Env) : LeaseCall → Tx Reply
  | .renewLeases leases ms => Concurrent.renewLeases e leases ms
  | .releaseTasks leases => Concurrent.releaseTasks e leases
  | .waitForResult l stepName occurrence resultTaskId timeoutMilliseconds =>
    Concurrent.waitForResult e l stepName occurrence resultTaskId timeoutMilliseconds

/-! ## Depth -/

/-- The rows of tasks keep the parents that they have in `start`. -/
def KeepsParent (start : Database) : (r : RowId) → Option (Row r) → Prop
  | .task id, v => (v : Option Task).map Task.parentTaskId = (start.tasks.get? id).map Task.parentTaskId
  | _, _ => True

def place (db : Database) (id : Uuid) : ℕ ×ₗ ℕ := toLex (depthOf db id, id.bits.toNat)

def taskRank (start : Database) : RowId → Option (ℕ ×ₗ ℕ)
  | .task id => some (place start id)
  | _ => none

variable {start db : Database}

theorem parentOf_eq (keeps : ∀ r, KeepsParent start r (getRow db r)) : parentOf db = parentOf start := by
  have hrow : ∀ id, (db.tasks.get? id).map Task.parentTaskId = (start.tasks.get? id).map Task.parentTaskId :=
    fun id => keeps (.task id)
  have hsome : ∀ id, (db.tasks.get? id).isSome = (start.tasks.get? id).isSome := by
    intro id
    have := congrArg Option.isSome (hrow id)
    simpa using this
  funext id
  unfold parentOf
  have hbind : (db.tasks.get? id).bind Task.parentTaskId = (start.tasks.get? id).bind Task.parentTaskId := by
    have := congrArg (Option.bind · fun p => p) (hrow id)
    simpa [Option.bind_map, Function.comp_def] using this
  rw [hbind]
  congr 1
  funext p
  rw [hsome]

theorem walks (acyclic : Forest.Acyclic (parentOf db)) (id : Uuid) :
    ∃ chain, Forest.walk (parentOf db) (walkBound db) id = some chain :=
  isSome_iff_exists.mp ((walk_ends_iff db id).mpr (acyclic.no_cycle id))

theorem depthOf_eq (acyclic : Forest.Acyclic (parentOf start)) (keeps : ∀ r, KeepsParent start r (getRow db r))
    (id : Uuid) : depthOf db id = depthOf start id := by
  have hparent := parentOf_eq keeps
  obtain ⟨chain, hchain⟩ := walks acyclic id
  obtain ⟨chain', hchain'⟩ := walks (hparent ▸ acyclic) id
  unfold depthOf
  rw [hchain, hchain']
  rw [hparent] at hchain'
  rw [Forest.walk_unique hchain' hchain]

theorem depthOf_child (acyclic : Forest.Acyclic (parentOf start))
    (h : parentOf start child = some parent) : depthOf start child = depthOf start parent + 1 := by
  obtain ⟨chain, hchain⟩ := walks acyclic child
  obtain ⟨chain', hchain'⟩ := walks acyclic parent
  have hlength := length_pos_iff.mpr (Forest.walk_ne_nil hchain')
  unfold depthOf
  rw [hchain, hchain', Forest.walk_parent h hchain hchain']
  simp only [length_cons]
  omega

theorem place_le {x y : Uuid} :
    place db x ≤ place db y ↔ depthOf db x < depthOf db y ∨
      depthOf db x = depthOf db y ∧ x.bits.toNat ≤ y.bits.toNat := by
  unfold place
  rw [Prod.Lex.toLex_le_toLex]

theorem place_inj {x y : Uuid} (h : place db x = place db y) : x = y := by
  unfold place at h
  have hbits := congrArg Prod.snd (toLex_inj.mp h)
  obtain ⟨x⟩ := x
  obtain ⟨y⟩ := y
  exact congrArg Uuid.mk (BitVec.eq_of_toNat_eq hbits)

theorem byDepth_iff (x y : Uuid) : byDepth db x y = true ↔ place db x ≤ place db y := by
  rw [place_le]
  unfold byDepth lexLe
  by_cases h : depthOf db x = depthOf db y
  · simp only [h, if_true, decide_eq_true_eq, lt_irrefl, true_and, false_or]
    exact Iff.rfl
  · simp only [h, if_false, decide_eq_true_eq, false_and, or_false]
    omega

theorem place_eq (acyclic : Forest.Acyclic (parentOf start)) (keeps : ∀ r, KeepsParent start r (getRow db r))
    (id : Uuid) : place db id = place start id := by
  unfold place
  rw [depthOf_eq acyclic keeps]

theorem sorted_places {ids : List Uuid} (nodup : ids.Nodup) :
    (ids.insertionSort fun x y => byDepth db x y).Pairwise fun x y => place db x < place db y := by
  have : Std.Total fun x y => byDepth db x y = true := ⟨fun x y => by
    rw [byDepth_iff, byDepth_iff]
    exact le_total _ _⟩
  have : IsTrans Uuid fun x y => byDepth db x y = true := ⟨fun x y z => by
    rw [byDepth_iff, byDepth_iff, byDepth_iff]
    exact le_trans⟩
  have hsorted := pairwise_insertionSort (fun x y => byDepth db x y = true) ids
  have hnodup : (ids.insertionSort fun x y => byDepth db x y).Nodup :=
    (perm_insertionSort _ ids).nodup_iff.mpr nodup
  refine (hsorted.and hnodup).imp fun {x y} h => ?_
  exact lt_of_le_of_ne ((byDepth_iff x y).mp h.1) fun heq => h.2 (place_inj heq)

/-! ## Orderly calls -/

variable {held : Locks} {α β : Type}

abbrev Descends (start : Database) (Q : α → Locks → Prop) (prog : Tx α) (held : Locks) : Prop :=
  Orderly (taskRank start) (KeepsParent start) Q prog held

theorem orderly_ofResult [Preorder ω] {rank : RowId → Option ω} {row : (r : RowId) → Option (Row r) → Prop}
    {Q : α → Locks → Prop} {r : Result β} {f : β → Tx α}
    (next : ∀ b, r = .ok b → Orderly rank row Q (f b) held) : Orderly rank row Q (ofResult r >>= f) held := by
  cases r with
  | error => trivial
  | ok b => exact next b rfl

def Below (start : Database) (rest : List Uuid) (held : Locks) : Prop :=
  rest.Pairwise (fun x y => place start x < place start y) ∧
    ∀ id m, (RowId.task id, m) ∈ held → ∀ x ∈ rest, place start id < place start x

theorem lockRequested_descends {rest : List Uuid} (h : Below start (id :: rest) held) :
    Descends start (fun rows held => (∀ x ∈ rows, KeepsParent start (.task x.1) (some x.2)) ∧
      Below start rest held) (lockRequested id) held := by
  obtain ⟨sorted, below⟩ := h
  rw [pairwise_cons] at sorted
  refine orderly_lockRow ?_ fun v hv => ?_
  · intro a ha
    cases ha
    refine .inr fun r m a' hr ha' => ?_
    cases r with
    | task j =>
      cases ha'
      exact below j m hr id mem_cons_self
    | _ => cases ha'
  · have hrest : Below start rest ((RowId.task id, .noKeyUpdate) :: held) := by
      refine ⟨sorted.2, fun j m hj x hx => ?_⟩
      rcases mem_cons.mp hj with heq | hj
      · cases heq
        exact sorted.1 x hx
      · exact below j m hj x (mem_cons_of_mem _ hx)
    cases v with
    | none =>
      refine ⟨fun x hx => ?_, hrest⟩
      cases hx
    | some t =>
      refine ⟨fun x hx => ?_, hrest⟩
      rw [mem_singleton.mp hx]
      exact hv

theorem lockAncestorsFirst_descends (acyclic : Forest.Acyclic (parentOf start)) (ids : List Uuid) :
    Descends start (fun rows _ => ∀ x ∈ rows, KeepsParent start (.task x.1) (some x.2))
      (lockAncestorsFirst ids) [] := by
  refine orderly_snapshot fun db keeps => orderly_ofResult fun _ _ => ?_
  refine Orderly.mono (fun _ _ h => h.1) (Orderly.collect (I := Below start) (fun b bs held h => ?_) ?_)
  · exact lockRequested_descends h
  · refine ⟨?_, fun _ _ h => absurd h not_mem_nil⟩
    refine (sorted_places (Table.nodup_select _ _)).imp fun {x y} h => ?_
    rwa [place_eq acyclic keeps, place_eq acyclic keeps] at h

theorem updateAttempt_descends (id : Uuid) (n : Nat) (f : Attempt → Attempt) :
    Descends start (fun _ _ => True) (updateAttempt id n f) held := by
  refine orderly_lockRow (permits_of_none rfl) fun v _ => ?_
  cases v with
  | none => trivial
  | some a => exact orderly_ofResult fun _ _ => ⟨trivial, trivial⟩

theorem putRows_descends {rows : List (Uuid × Task)} {f : Uuid × Task → Task}
    (same : ∀ x, (f x).parentTaskId = x.2.parentTaskId)
    (keeps : ∀ x ∈ rows, KeepsParent start (.task x.1) (some x.2)) :
    Descends start (fun _ _ => True)
      (Prog.forEach (fun x => do
        ofResult (require ((f x).checks x.1))
        Prog.put (.task x.1) (f x)) rows) held := by
  refine Orderly.mono (fun _ _ _ => trivial) (Orderly.forEach
    (I := fun rest _ => ∀ x ∈ rest, KeepsParent start (.task x.1) (some x.2)) (fun x rest held h => ?_) keeps)
  rw [forall_mem_cons] at h
  refine orderly_ofResult fun _ _ => ⟨?_, h.2⟩
  have hx := h.1
  unfold KeepsParent at hx ⊢
  simpa [same] using hx

theorem renewLeases_descends (acyclic : Forest.Acyclic (parentOf start)) (e : Env) (leases : List Lease) (ms : Int) :
    Descends start (fun _ _ => True) (renewLeases e leases ms) [] := by
  refine (lockAncestorsFirst_descends acyclic _).andThen fun locked held keeps => ?_
  refine Orderly.andThen (putRows_descends (f := fun x =>
    { x.2 with leaseExpiresAt := some (e.now + milliseconds ms) }) (fun _ => rfl) ?_) fun _ _ _ => trivial
  exact fun x hx => keeps x (mem_filter.mp hx).1

theorem releaseTasks_descends (acyclic : Forest.Acyclic (parentOf start)) (e : Env) (leases : List Lease) :
    Descends start (fun _ _ => True) (releaseTasks e leases) [] := by
  refine (lockAncestorsFirst_descends acyclic _).andThen fun locked held keeps => ?_
  refine Orderly.andThen (putRows_descends (f := fun x => x.2.yielded e.now) (fun _ => rfl) ?_) fun _ held _ => ?_
  · exact fun x hx => keeps x (mem_filter.mp hx).1
  · refine Orderly.andThen (Orderly.forEach (I := fun _ _ => True) (fun x rest held _ => ?_) trivial)
      fun _ _ _ => trivial
    exact updateAttempt_descends _ _ _

/-! ## Waits -/

def Grows (I : Locks → Prop) : Prop := ∀ l held, I held → I (l :: held)

def HoldsBoth (parent child : Uuid) (held : Locks) : Prop :=
  (RowId.task parent, .update) ∈ held ∧ (RowId.task child, .noKeyUpdate) ∈ held

theorem holdsBoth_grows (parent child : Uuid) : Grows (HoldsBoth parent child) :=
  fun _ _ h => ⟨mem_cons_of_mem _ h.1, mem_cons_of_mem _ h.2⟩

variable {I : Locks → Prop}

theorem foreignKey_descends (grows : Grows I) {m : LockMode}
    (locked : ∀ held, I held → (RowId.task id, m) ∈ held) (covers : m.covers .keyShare = true) (h : I held) :
    Descends start (fun _ => I) (foreignKey id) held := by
  refine orderly_lockRow (permits_of_held (locked held h) covers) fun v _ => ?_
  cases v with
  | none => trivial
  | some t => exact grows _ _ h

theorem foreignKeyOf_descends {ρ : Type} (grows : Grows I) {m : LockMode}
    (locked : ∀ held, I held → (RowId.task id, m) ∈ held) (covers : m.covers .keyShare = true) (h : I held)
    (row : Option ρ) : Descends start (fun _ => I) (foreignKeyOf id row) held := by
  cases row with
  | none => exact foreignKey_descends grows locked covers h
  | some r => exact h

theorem saveCheckpoint_descends (grows : Grows I) (value : Json) (k : StepKey) (h : I held) :
    Descends start (fun saved held => (∀ id ∈ saved.2, id = k.taskId) ∧ I held) (saveCheckpoint value k) held := by
  refine orderly_ofResult fun _ _ => orderly_lockRow (permits_of_none rfl) fun v _ => ?_
  cases v with
  | none => exact ⟨trivial, fun id hid => mem_singleton.mp hid, grows _ _ h⟩
  | some stored => exact ⟨trivial, fun id hid => absurd hid not_mem_nil, grows _ _ h⟩

theorem answerReady_descends (k : StepKey) (value : Json) (h : HoldsBoth k.taskId child held) :
    Descends start (fun _ _ => True) (answerReady k value) held := by
  have grows := holdsBoth_grows k.taskId child
  refine (saveCheckpoint_descends grows value k h).andThen fun saved held hsaved => ?_
  refine Orderly.andThen (Orderly.forEach (I := fun rest held => (∀ id ∈ rest, id = k.taskId) ∧
    HoldsBoth k.taskId child held) (fun id rest held hrest => ?_) hsaved) fun _ _ _ => trivial
  rw [forall_mem_cons] at hrest
  obtain ⟨⟨rfl, hids⟩, hboth⟩ := hrest
  exact (foreignKey_descends grows (fun _ h => h.1) rfl hboth).mono fun _ _ h => ⟨hids, h⟩

theorem armResultWait_descends (k : StepKey) (w : ResultWait) (h : HoldsBoth k.taskId w.resultTaskId held) :
    Descends start (fun _ _ => True) (armResultWait k w) held := by
  have grows := holdsBoth_grows k.taskId w.resultTaskId
  refine orderly_ofResult fun _ _ => orderly_snapshot fun db _ => ?_
  split
  · trivial
  refine orderly_lockRow (permits_of_none rfl) fun v _ => ?_
  refine (foreignKeyOf_descends grows (fun _ h => h.1) rfl (grows _ _ h) v).andThen fun _ held h => ?_
  exact (foreignKey_descends grows (fun _ h => h.2) rfl h).andThen fun _ held h => ⟨trivial, trivial⟩

theorem park_descends (e : Env) (keeps : KeepsParent start (.task id) (some t)) :
    Descends start (fun _ _ => True) (park e id t) held := by
  refine orderly_ofResult fun _ _ => orderly_put keeps ?_
  exact Orderly.andThen (updateAttempt_descends _ _ _) fun _ _ _ => trivial

theorem lockFenced_descends (l : Lease) :
    Descends start (fun row held => ∀ t, row = some t → KeepsParent start (.task l.taskId) (some t) ∧
      held = [(RowId.task l.taskId, .update)]) (lockFenced l) [] := by
  refine orderly_snapshot fun db _ => ?_
  split
  · refine orderly_lockRow (fun a _ => .inr fun _ _ _ h => absurd h not_mem_nil) fun v hv => ?_
    intro t ht
    rw [(filter_eq_some_iff.mp ht).1] at hv
    exact ⟨hv, rfl⟩
  · intro t ht
    cases ht

theorem parentOf_of_row (keeps : KeepsParent start (.task parent) (some t))
    (row : (start.tasks.get? child).map Task.parentTaskId = some (some parent)) :
    parentOf start child = some parent := by
  obtain ⟨c, hc, hparent⟩ := map_eq_some_iff.mp row
  have hsome : (start.tasks.get? parent).isSome = true := by
    have := congrArg Option.isSome keeps
    simpa using this.symm
  unfold parentOf
  rw [hc]
  simp [hparent, Option.filter, hsome]

theorem lockChild_descends (acyclic : Forest.Acyclic (parentOf start))
    (keeps : KeepsParent start (.task parent) (some t)) :
    Descends start (fun row held => row ≠ none → HoldsBoth parent child held) (lockChild parent child)
      [(RowId.task parent, .update)] := by
  refine orderly_snapshot fun db hdb => ?_
  split
  next found =>
    obtain ⟨c, hc, hparent⟩ := (Option.any_eq_true _ _).mp found
    have hlink : parentOf start child = some parent := by
      refine parentOf_of_row keeps ?_
      have hchild : KeepsParent start (.task child) (db.tasks.get? child) := hdb (.task child)
      rw [hc] at hchild
      rw [← (show _ = _ from hchild), map_some, of_decide_eq_true hparent]
    have hbelow : place start parent < place start child := by
      unfold place
      rw [Prod.Lex.toLex_lt_toLex, depthOf_child acyclic hlink]
      exact .inl (Nat.lt_succ_self _)
    refine orderly_lockRow (fun a ha => .inr fun r m a' hr ha' => ?_) fun v hv => ?_
    · cases mem_singleton.mp hr
      cases ha
      cases ha'
      exact hbelow
    · exact fun _ => ⟨mem_cons_of_mem _ mem_cons_self, mem_cons_self⟩
  next => exact fun h => absurd rfl h

theorem waitForResult_descends (acyclic : Forest.Acyclic (parentOf start)) (e : Env) (l : Lease) (stepName : String)
    (occurrence : Int) (resultTaskId : Uuid) (timeoutMilliseconds : Option Int) :
    Descends start (fun _ _ => True)
      (waitForResult e l stepName occurrence resultTaskId timeoutMilliseconds) [] := by
  unfold waitForResult
  split
  · trivial
  refine (lockFenced_descends l).andThen fun row held hrow => ?_
  split
  · trivial
  rename_i t
  obtain ⟨keeps, rfl⟩ := hrow t rfl
  refine orderly_snapshot fun db _ => ?_
  dsimp only
  split
  · trivial
  refine (lockChild_descends acyclic keeps).andThen fun row held hboth => ?_
  split
  · trivial
  have hboth := hboth (some_ne_none _)
  split
  · exact answerReady_descends ⟨l.taskId, _, _, _⟩ _ hboth
  · exact (armResultWait_descends _ _ hboth).andThen fun _ _ _ => park_descends e keeps

theorem program_descends (acyclic : Forest.Acyclic (parentOf start)) (e : Env) (call : LeaseCall) :
    Descends start (fun _ _ => True) (call.program e) [] := by
  cases call with
  | renewLeases leases ms => exact renewLeases_descends acyclic e leases ms
  | releaseTasks leases => exact releaseTasks_descends acyclic e leases
  | waitForResult l stepName occurrence resultTaskId timeout =>
    exact waitForResult_descends acyclic e l stepName occurrence resultTaskId timeout

def IsTask : RowId → Prop
  | .task _ => True
  | _ => False

/-- Renewals, releases and result waits of any workers over a forest of tasks: no interleaving
reaches a cycle of transactions that wait for task rows of each other. -/
theorem lease_calls_no_deadlock {ι : Type} [Fintype ι] [DecidableEq ι] (db : Database)
    (acyclic : Forest.Acyclic (parentOf db)) (env : ι → Env) (calls : ι → LeaseCall) (turns : List (Turn ι)) (i : ι) :
    ¬ Relation.TransGen (WaitsFor IsTask (interleave db (fun i => (calls i).program (env i)) turns)) i i := by
  have rows : ∀ r, KeepsParent db r (Store.get db r) := by
    intro r
    cases r with
    | task id => rfl
    | _ => trivial
  have ranked : ∀ r, IsTask r → ∃ a, taskRank db r = some a := by
    intro r hr
    cases r with
    | task id => exact ⟨_, rfl⟩
    | _ => cases hr
  exact interleave_no_cycle rows (fun i => program_descends acyclic (env i) (calls i)) ranked turns i

def family : Database where
  tasks := (Table.empty.put (Uuid.ofNat 1)
    { queueName := "q", taskName := "parent", handlerVersion := 1, payload := .null, headers := .obj [],
      priority := 0, runAt := 0, maxAttempts := 1, state := .running, attempt := 1,
      leaseToken := some (Uuid.ofNat 7), leaseOwner := some (Uuid.ofNat 8), leaseExpiresAt := some 1000 }).put
    (Uuid.ofNat 2)
    { queueName := "q", taskName := "child", handlerVersion := 1, payload := .null, headers := .obj [],
      priority := 0, runAt := 0, maxAttempts := 1, parentTaskId := some (Uuid.ofNat 1) }

theorem family_links {k p : Uuid} (h : parentOf family k = some p) : k = Uuid.ofNat 2 ∧ p = Uuid.ofNat 1 := by
  unfold parentOf at h
  obtain ⟨t, ht, hp⟩ := bind_eq_some_iff.mp (filter_eq_some_iff.mp h).1
  unfold family at ht
  rw [Table.get?_put, Table.get?_put] at ht
  split at ht
  · cases ht
    cases hp
    exact ⟨‹_›, rfl⟩
  · split at ht <;> cases ht
    cases hp

theorem family_acyclic : Forest.Acyclic (parentOf family) := by
  intro k cycle
  obtain ⟨p, first, rest⟩ := Relation.TransGen.head'_iff.mp cycle
  obtain ⟨rfl, rfl⟩ := family_links first
  rcases rest.cases_head with heq | ⟨q, next, -⟩
  · exact absurd heq (by decide)
  · exact absurd (family_links next).1 (by decide)

def familyCalls : Fin 2 → LeaseCall
  | 0 => .waitForResult ⟨Uuid.ofNat 1, 1, Uuid.ofNat 7⟩ "step" 0 (Uuid.ofNat 2) none
  | 1 => .renewLeases [⟨Uuid.ofNat 1, 1, Uuid.ofNat 7⟩] 30000

theorem family_no_deadlock :
    let s := interleave family (fun i => (familyCalls i).program (countingServer.envAt 0))
      [.advance 0, .advance 0, .advance 1]
    WaitsFor IsTask s 1 0 ∧ ¬ Relation.TransGen (WaitsFor IsTask s) 1 1 := by
  refine ⟨⟨.task (Uuid.ofNat 1), .noKeyUpdate, _, _, _, .update, rfl, trivial, by decide,
    mem_cons_self, rfl⟩, ?_⟩
  exact lease_calls_no_deadlock family family_acyclic _ familyCalls _ 1

end Pgtask.Concurrent
