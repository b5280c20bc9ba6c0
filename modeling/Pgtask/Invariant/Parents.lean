import Pgtask.Effect.Task
import Pgtask.Run

/-!
# The parent relation

The links from a task to its `parent_task_id`. `spawn_task` walks the ancestors
before it adopts a task, except when a stored checkpoint names the task.
-/

open Sql Checked Relation Forest Option

namespace Pgtask

variable {e : Env} {l : Label} {s s' : Session} {db db' : Database} {id : Uuid}

/-! ## Walks -/

theorem walk_ends_iff (db : Database) (id : Uuid) :
    (walk (parentOf db) (walkBound db) id).isSome = true ↔ ¬ CycleAbove (parentOf db) id := by
  have within : Within (parentOf db) (db.tasks.rows.map Prod.fst).toFinset := by
    intro k p hp
    unfold parentOf at hp
    obtain ⟨t, ht, -⟩ := bind_eq_some_iff.mp (filter_eq_some_iff.mp hp).1
    exact List.mem_toFinset.mpr (List.mem_map.mpr ⟨(k, t), Table.mem_rows_iff.mpr ht, rfl⟩)
  refine walk_isSome_iff within ?_
  have hle := List.toFinset_card_le (db.tasks.rows.map Prod.fst)
  rw [List.length_map] at hle
  unfold walkBound
  omega

theorem walkAncestry_ok_iff {ids : List Uuid} : walkAncestry db ids = .ok () ↔
      ∀ id ∈ ids, db.tasks.get? id ≠ none → ¬ CycleAbove (parentOf db) id := by
  have hall : (ids.all fun id => (db.tasks.get? id).isNone ||
      (walk (parentOf db) (walkBound db) id).isSome) = true ↔
      ∀ id ∈ ids, db.tasks.get? id ≠ none → ¬ CycleAbove (parentOf db) id := by
    simp only [List.all_eq_true, Bool.or_eq_true, isNone_iff_eq_none, walk_ends_iff,
      or_iff_not_imp_left, ne_eq]
  unfold walkAncestry
  rw [← hall]
  split <;> simp_all

/-! ## The invariant -/

/-- A parent exists as long as it has children, and nobody is above itself. -/
structure ParentInv (db : Database) : Prop where
  closed : ∀ id t p, db.tasks.get? id = some t → t.parentTaskId = some p →
    (db.tasks.get? p).isSome = true
  acyclic : Acyclic (parentOf db)

theorem ParentInv.parentOf_eq (h : ParentInv db) (id : Uuid) :
    parentOf db id = (db.tasks.get? id).bind Task.parentTaskId := by
  unfold parentOf
  cases hp : (db.tasks.get? id).bind Task.parentTaskId with
  | none => rfl
  | some p =>
    obtain ⟨t, ht, htp⟩ := bind_eq_some_iff.mp hp
    rw [filter_some, if_pos (h.closed id t p ht htp)]

theorem ParentInv.of_column (closed : ∀ id t p, db.tasks.get? id = some t →
    t.parentTaskId = some p → (db.tasks.get? p).isSome = true)
    (acyclic : Acyclic fun id => (db.tasks.get? id).bind Task.parentTaskId) : ParentInv db :=
  ⟨closed, acyclic.mono fun _ _ h => (filter_eq_some_iff.mp h).1⟩

theorem ParentInv.fewer (h : ParentInv db)
    (links : ∀ id t' p, db'.tasks.get? id = some t' → t'.parentTaskId = some p →
      ∃ t, db.tasks.get? id = some t ∧ t.parentTaskId = some p)
    (stay : ∀ id t' p, db'.tasks.get? id = some t' → t'.parentTaskId = some p →
      (db.tasks.get? p).isSome = true → (db'.tasks.get? p).isSome = true) : ParentInv db' := by
  refine .of_column ?_ (h.acyclic.mono ?_)
  · intro id t' p ht' hp
    obtain ⟨t, ht, hp'⟩ := links id t' p ht' hp
    exact stay id t' p ht' hp (h.closed id t p ht hp')
  · intro id p hp
    obtain ⟨t', ht', hp⟩ := bind_eq_some_iff.mp hp
    obtain ⟨t, ht, hp'⟩ := links id t' p ht' hp
    rw [h.parentOf_eq, ht, bind_some, hp']

theorem ParentInv.adopt {child parent : Uuid} {c p : Task} (h : ParentInv db)
    (owner : db.tasks.get? parent = some p)
    (apart : ¬ ReflTransGen (Link (parentOf db)) parent child) :
    ParentInv { db with tasks := db.tasks.put child { c with parentTaskId := some parent } } := by
  have hstay : ∀ id, (db.tasks.get? id).isSome = true →
      ((db.tasks.put child { c with parentTaskId := some parent }).get? id).isSome = true := by
    intro id hid
    rw [Table.get?_put]
    split
    · rfl
    · exact hid
  refine .of_column ?_ (h.acyclic.adopt (k := child) (p := parent) ?_ apart)
  · intro id t q ht hq
    dsimp only at ht ⊢
    refine hstay q ?_
    rw [Table.get?_put] at ht
    split at ht
    · cases ht
      cases hq
      rw [owner]
      rfl
    · exact h.closed id t q ht hq
  · intro id
    dsimp only
    rw [h.parentOf_eq, Table.get?_put]
    split <;> rfl

/-! ## One effect -/

theorem RowStep.parent {row : Option Task} {t' : Task} {p : Uuid}
    (step : RowStep e db id l row (some t')) (hp : t'.parentTaskId = some p) :
    (∃ t, row = some t ∧ t.parentTaskId = some p) ∨ l = .adopt id p ∨ l = .adoptStored id p := by
  generalize hnew : some t' = new at step
  cases step with
  | same => exact .inl ⟨t', hnew.symm, hp⟩
  | insert new label =>
    cases hnew
    rw [new.parentTaskId] at hp
    cases hp
  | adopt _ label =>
    cases hnew
    cases hp
    exact .inr label
  | wake =>
    obtain ⟨t, rfl, ht⟩ := map_eq_some_iff.mp hnew.symm
    refine .inl ⟨t, rfl, ?_⟩
    rw [← hp, ← ht]
    unfold Task.woken
    split <;> rfl
  | delete => cases hnew
  | claim =>
    cases hnew
    exact .inl ⟨_, rfl, hp⟩
  | renew =>
    cases hnew
    exact .inl ⟨_, rfl, hp⟩
  | yield =>
    cases hnew
    exact .inl ⟨_, rfl, hp⟩
  | park =>
    cases hnew
    exact .inl ⟨_, rfl, hp⟩
  | complete =>
    cases hnew
    exact .inl ⟨_, rfl, hp⟩
  | fail =>
    cases hnew
    exact .inl ⟨_, rfl, hp⟩
  | cancel =>
    cases hnew
    exact .inl ⟨_, rfl, hp⟩
  | retry =>
    cases hnew
    exact .inl ⟨_, rfl, hp⟩

theorem effect_keeps_parents (effect : Effect e l s s') (h : ParentInv s.db)
    (safe : ∀ child parent, l = .adoptStored child parent →
      ¬ ReflTransGen (Link (parentOf s.db)) parent child) : ParentInv s'.db := by
  have rows := effect.row
  by_cases hadopt : ∃ child parent, l = .adopt child parent ∨ l = .adoptStored child parent
  · obtain ⟨child, parent, rfl | rfl⟩ := hadopt
    · cases effect with
      | adopt row orphan owner running apart => exact h.adopt owner (search_none apart)
    · cases effect with
      | adoptStored row orphan owner => exact h.adopt owner (safe child parent rfl)
  · have links : ∀ id t' p, s'.db.tasks.get? id = some t' → t'.parentTaskId = some p →
        ∃ t, s.db.tasks.get? id = some t ∧ t.parentTaskId = some p := by
      intro id t' p ht' hp
      have step := rows id
      rw [ht'] at step
      exact (step.parent hp).resolve_right fun hl => hadopt ⟨id, p, hl⟩
    refine h.fewer links fun id t' p ht' hp hsome => ?_
    obtain ⟨c, hc⟩ := isSome_iff_exists.mp hsome
    have step := rows p
    rw [hc] at step
    refine step.stays.resolve_right ?_
    rintro rfl
    -- A task with children is not deleted.
    obtain ⟨t, ht, hp'⟩ := links id t' p ht' hp
    cases effect with
    | delete row finished childless => exact childless id t ht hp'

/-! ## Runs -/

def replayedOrphan (db : Database) : Call → Option (Uuid × Uuid)
  | .spawnTask lease stepName occurrence _ => do
    let t ← fenced db lease.taskId lease.attempt lease.leaseToken
    let v ← db.checkpoints.get? ⟨lease.taskId, t.handlerVersion, stepName, occurrence⟩
    let child ← storedOrphan db v
    some (lease.taskId, child)
  | _ => none

def AdoptsAncestor (db : Database) (c : Call) : Prop :=
  ∃ parent child, replayedOrphan db c = some (parent, child) ∧
    TransGen (Link (parentOf db)) parent child

variable {server : Server}

theorem effects_no_adoptStored {c : Call} {child parent : Uuid} (h : c.effects (.adoptStored child parent)) :
    ∃ lease stepName occ request, c = .spawnTask lease stepName occ request := by
  cases c <;> simp_all [Call.effects, Label.enqueues, Label.cascade, Label.waits, Label.timesOut,
    Label.bookkeeping, Label.materializes]

theorem step_keeps_parents {w : World} {r : Request} (h : ParentInv w.db)
    (safe : ¬ AdoptsAncestor w.db r.call) : ParentInv (step server w r).2.db := by
  have keep : ∀ ls s s', Effects (server.envAt r.now) ls s s' →
      (∀ l ∈ ls, ∀ child parent, l ≠ .adoptStored child parent) → ParentInv s.db →
      ParentInv s'.db := by
    intro ls s s' path hls hs
    exact path.keeps (P := fun s => ParentInv s.db) (fun l s s' hl effect hs =>
      effect_keeps_parents effect hs fun child parent heq => absurd heq (hl child parent)) hls hs
  rcases step_spec server w r with ⟨reply, s', hexec, hs', -, ls, path, hls⟩ | ⟨-, -, hw⟩
  · by_cases hspawn : ∃ lease stepName occ request, r.call = .spawnTask lease stepName occ request
    · obtain ⟨lease, stepName, occ, request, hcall⟩ := hspawn
      rw [hcall] at hexec
      obtain ⟨a, h1, -⟩ := reply_ok hexec
      rw [← World.session_db, ← hs']
      rcases (spawnTask_spec h1).1 with ⟨ls, path, hls⟩ | ⟨t, v, child, hf, hv, hchild, effect⟩
      · refine keep ls _ _ path ?_ h
        rintro l hl child parent rfl
        exact hls _ hl
      · refine effect_keeps_parents effect h ?_
        rintro c p ⟨⟩ habove
        rcases reflTransGen_iff_eq_or_transGen.mp habove with heq | habove
        · cases effect with
          | adoptStored _ _ _ _ _ _ _ _ distinct => exact distinct heq
        · refine safe ⟨lease.taskId, child, ?_, habove⟩
          rw [hcall]
          simp only [World.session_db] at hf hv hchild
          simp [replayedOrphan, hf, hv, hchild]
    · refine keep ls _ _ path ?_ h
      rintro l hl child parent rfl
      exact hspawn (effects_no_adoptStored (hls _ hl))
  · rw [hw]
    exact h

theorem run_parents {rs : List Request}
    (safe : EveryStep server (fun w r => ¬ AdoptsAncestor w.db r.call) rs) :
    ParentInv (run server rs).db := by
  refine run_rule_of (I := fun w => ParentInv w.db) ⟨?_, ?_⟩ ?_ rs safe
  · intro id t p ht
    simp at ht
  · intro id hid
    obtain ⟨p, hp, -⟩ := TransGen.head'_iff.mp hid
    simp [Link, parentOf] at hp
  · intro rs r hsafe h
    exact step_keeps_parents h hsafe

/-! ## Termination -/

def Ends {α : Type} (x : Result α) : Prop := x ≠ .error .endlessRecursion

theorem ends_bind {α β : Type} {x : Result α} {f : α → Result β} (hx : Ends x)
    (hf : ∀ a, x = .ok a → Ends (f a)) : Ends (x >>= f) := by
  intro h
  rcases bind_eq_error.mp h with h | ⟨a, ha, h⟩
  · exact hx h
  · exact hf a ha h

theorem ends_ok {α : Type} (a : α) : Ends (.ok a) := by
  intro h
  cases h

theorem ends_require (checks : List (String × Bool)) : Ends (require checks) := by
  intro h
  obtain ⟨c, hc⟩ := require_error h
  cases hc

theorem ends_argument {α : Type} (value : Option α) (valid : α → Bool) (message : String) :
    Ends (argument value valid message) := by
  unfold argument Ends invalidParameter
  repeat' split
  all_goals
    intro h
    cases h

theorem ends_capacity (old : Option TaskState) (new : TaskState) (queueName : String)
    (db : Database) : Ends (enforceQueueCapacity old new queueName db) := by
  unfold enforceQueueCapacity Ends
  simp only
  repeat' split
  all_goals
    intro h
    cases h

theorem ends_insertTask (id : Uuid) (t : Task) (s : Session) : Ends (insertTask id t s) := by
  unfold insertTask beforeInsertTask
  refine ends_bind (ends_bind (ends_capacity _ _ _ _) fun _ _ =>
    ends_bind (ends_require _) fun _ _ => ends_ok _) fun _ _ => ?_
  unfold Ends
  repeat' split
  all_goals
    intro h
    cases h

theorem ends_enqueue (e : Env) (request : EnqueueRequest) (s : Session) :
    Ends (enqueue e request s) := by
  unfold enqueue enqueueRow addQueue
  refine ends_bind ?_ fun row _ => ends_bind (ends_bind (ends_require _) fun _ _ => ?_) fun s1 _ => ?_
  · refine ends_bind (ends_argument _ _ _) fun _ _ => ends_bind (ends_argument _ _ _) fun _ _ =>
      ends_bind (ends_argument _ _ _) fun _ _ => ends_bind (ends_argument _ _ _) fun _ _ =>
      ends_bind (ends_argument _ _ _) fun _ _ => ends_bind (ends_argument _ _ _) fun _ _ => ends_ok _
  · split <;> (intro h; cases h)
  · split
    · exact ends_bind (ends_insertTask _ _ _) fun _ _ => ends_ok _
    · split
      · intro h; cases h
      · exact ends_bind (ends_insertTask _ _ _) fun _ _ => ends_ok _

theorem ends_updateTask (id : Uuid) (old new : Task) (s : Session) : Ends (updateTask id old new s) := by
  unfold updateTask
  refine ends_bind (ends_capacity _ _ _ _) fun _ _ => ends_bind (ends_require _) fun _ _ => ends_ok _

theorem ends_updateAttempt (k : Uuid × Nat) (f : Attempt → Attempt) (s : Session) :
    Ends (updateAttempt k f s) := by
  unfold updateAttempt
  split
  · intro h; cases h
  · exact ends_bind (ends_require _) fun _ _ => ends_ok _

theorem ends_adoptOrRaise (child parent : Uuid) (message : String) (s : Session) :
    Ends (adoptOrRaise child parent message s) := by
  unfold adoptOrRaise adopt updateTaskColumns
  refine ends_bind ?_ fun _ _ => by split <;> (intro h; cases h)
  split
  · split
    · exact ends_bind (ends_require _) fun _ _ => ends_ok _
    · intro h; cases h
  · intro h; cases h

theorem ends_foldlM {α : Type} {f : Session → α → Result Session} (h : ∀ s a, Ends (f s a))
    (l : List α) (s : Session) : Ends (l.foldlM f s) := by
  induction l generalizing s with
  | nil => nofun
  | cons a l ih => exact ends_bind (h s a) fun s1 _ => ih s1

def Call.walks : Call → Bool
  | .renewLeases .. | .releaseTasks _ | .spawnTask .. => true
  | _ => false

theorem ends_rejectCycle (h : ParentInv db) (child parent : Uuid) : Ends (rejectCycle db child parent) := by
  have hends := search_ends child ((walk_ends_iff db parent).mpr (h.acyclic.no_cycle parent))
  unfold rejectCycle
  split
  · rename_i hnone
    rw [hnone] at hends
    cases hends
  · intro h; cases h
  · intro h; cases h

theorem ends_exec {c : Call} (walks : c.walks = true) (h : ParentInv s.db) : Ends (exec e c s) := by
  have hwalk : ∀ ids, Ends (walkAncestry s.db ids) := by
    intro ids
    rw [walkAncestry_ok_iff.mpr fun id _ _ => h.acyclic.no_cycle id]
    exact ends_ok _
  have hmap : ∀ {α : Type} {x : Result (α × Session)} {f : α → Reply}, Ends x →
      Ends (x.map (reply f)) := fun hx hx' => hx (map_eq_error.mp hx')
  cases c with
  | renewLeases leases ms =>
    refine hmap (ends_bind (hwalk _) fun _ _ => ends_bind (ends_foldlM ?_ _ _) fun _ _ => ends_ok _)
    exact fun s x => ends_bind (ends_require _) fun _ _ => ends_ok _
  | releaseTasks leases =>
    refine hmap (ends_bind (hwalk _) fun _ _ => ends_bind (ends_foldlM ?_ _ _) fun _ _ => ends_ok _)
    exact fun s x => ends_bind (ends_updateTask _ _ _ _) fun _ _ => ends_updateAttempt _ _ _
  | spawnTask lease stepName occ request =>
    refine hmap ?_
    unfold spawnTask
    split
    · intro h; cases h
    · extract_lets k
      split
      · unfold replaySpawn
        repeat' split
        · intro h; cases h
        · intro h; cases h
        · exact ends_bind (ends_adoptOrRaise _ _ _ _) fun _ _ => ends_ok _
      · refine ends_bind (ends_enqueue e _ s) fun x hx => ends_bind ?_ fun _ _ =>
          ends_bind (ends_adoptOrRaise _ _ _ _) fun _ _ => ends_bind ?_ fun _ _ => ends_ok _
        · obtain ⟨⟨ls, path, hls⟩, -⟩ := enqueue_effects hx
          refine ends_rejectCycle ?_ _ _
          refine path.keeps (P := fun s => ParentInv s.db) (fun l s s' hl effect hs =>
            effect_keeps_parents effect hs fun child parent heq => ?_) hls h
          rw [heq] at hl
          cases hl
        · unfold insertCheckpoint
          refine ends_bind (ends_require _) fun _ _ => ?_
          split <;> (intro h; cases h)
  | _ => cases walks

/-- As long as no replayed `spawn_task` adopts an ancestor of its caller, every parent exists, no
task is above itself, and the recursive queries end. -/
theorem parents_form_forest (server : Server) (rs : List Request)
    (safe : EveryStep server (fun w r => ¬ AdoptsAncestor w.db r.call) rs) :
    (∀ id t p, (run server rs).db.tasks.get? id = some t → t.parentTaskId = some p →
      ((run server rs).db.tasks.get? p).isSome) ∧
    Acyclic (fun id => ((run server rs).db.tasks.get? id).bind Task.parentTaskId) ∧
    ∀ r, r.call.walks = true → (step server (run server rs) r).1 ≠ .raised .endlessRecursion := by
  have inv := run_parents safe
  refine ⟨inv.closed, inv.acyclic.mono fun id p hp => ?_, fun r walks hraised => ?_⟩
  · rw [inv.parentOf_eq]
    exact hp
  · exact ends_exec walks inv (step_raised hraised).1

def adoptionRun : List Request :=
  let request : EnqueueRequest := { taskName := some "a", payload := some .null }
  let parent : Lease := ⟨Uuid.ofNat 1, 1, Uuid.ofNat 2⟩
  let child : Lease := ⟨Uuid.ofNat 3, 1, Uuid.ofNat 4⟩
  [⟨0, .enqueue request⟩,
   ⟨1, .claim "default" (Uuid.ofNat 100) ["a"] [1] 1 1000⟩,
   ⟨2, .spawnTask parent "s" 0 request⟩,
   ⟨3, .claim "default" (Uuid.ofNat 100) ["a"] [1] 1 1000⟩,
   ⟨4, .commitCheckpoint child "x" 0 (.obj [("task_id", .str (Uuid.ofNat 1).text)])⟩]

theorem adoptionRun_forest :
    EveryStep countingServer (fun w r => ¬ AdoptsAncestor w.db r.call) adoptionRun ∧
      Acyclic (fun id => ((run countingServer adoptionRun).db.tasks.get? id).bind Task.parentTaskId) ∧
      ((run countingServer adoptionRun).db.tasks.get? (Uuid.ofNat 3)).bind Task.parentTaskId =
        some (Uuid.ofNat 1) := by
  have safe : EveryStep countingServer (fun w r => ¬ AdoptsAncestor w.db r.call) adoptionRun := by
    refine everyStep_of_fin fun i => ?_
    have hnone : ∀ i : Fin adoptionRun.length, replayedOrphan
        (run countingServer (adoptionRun.take i)).db (adoptionRun.get i).call = none := by
      decide +kernel
    rintro ⟨parent, child, h, -⟩
    rw [hnone i] at h
    cases h
  exact ⟨safe, (parents_form_forest countingServer adoptionRun safe).2.1, by decide +kernel⟩

theorem adoption_closes_cycle :
    let rs := adoptionRun ++ [⟨5, .spawnTask ⟨Uuid.ofNat 3, 1, Uuid.ofNat 4⟩ "x" 0
      { taskName := some "a", payload := some .null }⟩]
    ¬ Acyclic (fun id => ((run countingServer rs).db.tasks.get? id).bind Task.parentTaskId) ∧
      (step countingServer (run countingServer rs)
        ⟨6, .renewLeases [⟨Uuid.ofNat 1, 1, Uuid.ofNat 2⟩] 1000⟩).1 = .raised .endlessRecursion := by
  intro rs
  constructor
  · intro h
    have up : Link (fun id => ((run countingServer rs).db.tasks.get? id).bind Task.parentTaskId)
        (Uuid.ofNat 1) (Uuid.ofNat 3) := by
      unfold Link
      decide +kernel
    have down : Link (fun id => ((run countingServer rs).db.tasks.get? id).bind Task.parentTaskId)
        (Uuid.ofNat 3) (Uuid.ofNat 1) := by
      unfold Link
      decide +kernel
    exact h _ (.tail (.single up) down)
  · decide +kernel

end Pgtask
