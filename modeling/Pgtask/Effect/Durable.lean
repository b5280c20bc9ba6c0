import Pgtask.Effect.Worker
import Pgtask.Effect.Enqueue

/-! # Durable execution as effects -/

open Sql Checked

namespace Pgtask

variable {k : StepKey} {v : Json} {t : Task} {s s' : Session} {id token : Uuid} {attempt : Nat}
  {stepName : String} {occ : Int} {r : Option (Uuid × Bool)}

variable {e : Env}

/-! ## Checkpoints -/

theorem saveCheckpoint_effects {stored : Json}
    (row : s.db.tasks.get? k.taskId = some t) (running : t.state = .running)
    (h : saveCheckpoint k v s = .ok (stored, s')) :
    ∃ ls, Effects e ls s s' ∧ (∀ l ∈ ls, l = .checkpoint k) ∧ s'.queued = s.queued ∧
      s'.db.checkpoints.get? k = some stored := by
  obtain ⟨rfl, hstored, checked⟩ := saveCheckpoint_spec h
  have hget : (s.db.checkpoints.putNew k v).get? k = some stored := by
    rw [Table.get?_putNew, if_pos rfl, hstored]
  cases hk : s.db.checkpoints.get? k with
  | some c => exact ⟨[], by rw [Table.putNew_of_some v hk]; exact .nil _, by simp, rfl, hget⟩
  | none =>
    refine ⟨[.checkpoint k], ?_, by simp, rfl, hget⟩
    rw [Table.putNew_of_none v hk]
    exact .single (.checkpoint row running hk checked)

theorem commitCheckpoint_spec {r : Option Json}
    (h : commitCheckpoint id attempt token stepName occ v s = .ok (r, s')) :
    (r = none ∧ s' = s ∧ fenced s.db id attempt token = none) ∨
      ∃ t stored ls, fenced s.db id attempt token = some t ∧ r = some stored ∧
        Effects e ls s s' ∧ (∀ l ∈ ls, l = .checkpoint ⟨id, t.handlerVersion, stepName, occ⟩) ∧
        s'.queued = s.queued ∧
        s'.db.checkpoints.get? ⟨id, t.handlerVersion, stepName, occ⟩ = some stored := by
  unfold commitCheckpoint at h
  split at h
  · rename_i hf
    cases h
    exact .inl ⟨rfl, rfl, hf⟩
  · rename_i t hf
    obtain ⟨⟨stored, s1⟩, h1, h⟩ := bind_ok h
    cases h
    obtain ⟨row, running, -, -⟩ := fenced_eq_some.mp hf
    obtain ⟨ls, path, hls, hq, hget⟩ := saveCheckpoint_effects (e := e) row running h1
    exact .inr ⟨t, stored, ls, hf, rfl, path, hls, hq, hget⟩

/-! ## Sleep -/

theorem suspendTask_spec {wakeAt : Option Timestamp} {delay : Option Int} {r : Option Timestamp}
    (h : suspendTask e id attempt token stepName occ wakeAt delay s = .ok (r, s')) :
    (∃ ls, Effects e ls s s' ∧ ∀ l ∈ ls, (∃ k, l = .checkpoint k) ∨ l = .yield id) ∧
      s'.queued = s.queued := by
  unfold suspendTask at h
  obtain ⟨w, -, h⟩ := bind_ok h
  split at h
  · cases h
    exact ⟨⟨[], .nil _, by simp⟩, rfl⟩
  · rename_i t hf
    obtain ⟨row, running, hattempt, -⟩ := fenced_eq_some.mp hf
    obtain ⟨u, hu, h⟩ := bind_ok h
    split at h
    · cases h
      exact ⟨⟨[], .nil _, by simp⟩, rfl⟩
    · rename_i hk
      obtain ⟨s1, h1, h⟩ := bind_ok h
      obtain ⟨s2, h2, h⟩ := bind_ok h
      cases h
      obtain ⟨rfl, checked, -⟩ := updateTask_spec h1
      have hs2 := updateAttempt_spec h2
      subst hs2 hattempt
      refine ⟨⟨_, .cons (.checkpoint row running (by simpa using hk) (require_ok hu))
        (.single (.yield row running (.inl rfl) checked)), ?_⟩, ?_⟩
      · simp
      · rw [write_outstanding (running_outstanding running) (by rfl)]
        rfl

/-! ## Spawn -/

theorem adopt_spec {child parent : Uuid} {message : String}
    (h : adoptOrRaise child parent message s = .ok s') :
    s' = s ∨ ∃ c, s.db.tasks.get? child = some c ∧ c.parentTaskId = none ∧ child ≠ parent ∧
      Holds (Task.checks child { c with parentTaskId := some parent }) ∧ s' = { s with db := { s.db with
        tasks := s.db.tasks.put child { c with parentTaskId := some parent } } } := by
  unfold adoptOrRaise adopt at h
  obtain ⟨s1, h1, h⟩ := bind_ok h
  split at h
  on_goal 2 => cases h
  cases h
  split at h1
  · rename_i c hc
    split at h1
    · rename_i hp
      obtain ⟨hs, hchecks⟩ := updateTaskColumns_spec h1
      have hne := hchecks ("tasks_parent_check", _) (by simp [Task.checks]; rfl)
      have hne : parent ≠ child := by simpa using hne
      exact .inr ⟨c, hc, by simpa using hp, hne.symm, hchecks, hs⟩
    · cases h1
      exact .inl rfl
  · cases h1
    exact .inl rfl

def Label.freshlySpawns (parent : Uuid) : Label → Prop
  | .addQueue _ | .insert _ | .draw => True
  | .adopt _ p => p = parent
  | .checkpoint k => k.taskId = parent
  | _ => False

def Label.spawns (parent : Uuid) (l : Label) : Prop :=
  l.freshlySpawns parent ∨ ∃ child, l = .adoptStored child parent

def storedOrphan (db : Database) (checkpoint : Json) : Option Uuid := do
  let text ← checkpoint.fieldText "task_id"
  let child ← Uuid.ofText? text
  let c ← db.tasks.get? child
  if c.parentTaskId.isNone then some child else none

theorem replaySpawn_spec (row : s.db.tasks.get? k.taskId = some t) (running : t.state = .running)
    (stored : s.db.checkpoints.get? k = some v) (h : replaySpawn k.taskId v s = .ok (r, s')) :
    (s' = s ∨ ∃ child, storedOrphan s.db v = some child ∧
      Effect e (.adoptStored child k.taskId) s s') ∧ s'.queued = s.queued := by
  unfold replaySpawn at h
  split at h
  · cases h
  · rename_i text hfield
    split at h
    · cases h
    · rename_i child hnames
      obtain ⟨s1, h1, h⟩ := bind_ok h
      cases h
      rcases adopt_spec h1 with rfl | ⟨c, hc, horphan, hne, checked, rfl⟩
      · exact ⟨.inl rfl, rfl⟩
      · refine ⟨.inr ⟨child, ?_, .adoptStored hc horphan row running rfl stored hfield hnames hne
          checked⟩, rfl⟩
        simp [storedOrphan, hfield, hnames, hc, horphan]

theorem enqueues_keep_row {j : Uuid} {l : Label} (hl : l.enqueues = true)
    (h : Effect e l s s') (row : s.db.tasks.get? j = some t) : s'.db.tasks.get? j = some t := by
  cases h with
  | insert fresh free =>
    rw [Table.get?_put_of_ne _ _ ?_]
    · exact row
    · rintro rfl
      rw [free] at row
      cases row
  | draw => exact row
  | addQueue => exact row
  | _ => cases hl

theorem freshSpawn_spec {request : EnqueueRequest} (row : s.db.tasks.get? k.taskId = some t)
    (running : t.state = .running) (h : freshSpawn e k request s = .ok (r, s')) :
    (∃ ls, Effects e ls s s' ∧ ∀ l ∈ ls, l.freshlySpawns k.taskId) ∧ s'.queued = s.queued := by
  unfold freshSpawn at h
  obtain ⟨⟨⟨child, created⟩, s1⟩, h1, h⟩ := bind_ok h
  obtain ⟨u, hu, h⟩ := bind_ok h
  obtain ⟨s2, h2, h⟩ := bind_ok h
  obtain ⟨s3, h3, h⟩ := bind_ok h
  cases h
  obtain ⟨⟨ls, path, hls⟩, hq⟩ := enqueue_effects h1
  have row1 := path.keeps (fun l s s' hl h => enqueues_keep_row hl h) hls row
  have hls' : ∀ l ∈ ls, l.freshlySpawns k.taskId := by
    intro l hl
    have := hls l hl
    cases l <;> trivial
  have hapart : Forest.search (parentOf s1.db) child (walkBound s1.db) k.taskId = some false := by
    unfold rejectCycle at hu
    split at hu
    · cases hu
    · cases hu
    · assumption
  obtain ⟨hfree, hvalue, rfl⟩ := insertCheckpoint_spec h3
  rcases adopt_spec h2 with rfl | ⟨c, hc, horphan, hne, checked, rfl⟩
  · refine ⟨⟨_, path.append (.single (.checkpoint row1 running hfree hvalue)), ?_⟩, hq⟩
    intro l hl
    rcases List.mem_append.mp hl with hl | hl
    · exact hls' l hl
    · rw [List.mem_singleton.mp hl]
      rfl
  · have row2 := Table.get?_put_of_ne s1.db.tasks { c with parentTaskId := some k.taskId } (Ne.symm hne)
    refine ⟨⟨_, path.append (.cons (.adopt hc horphan row1 running hapart checked)
      (.single (.checkpoint (row2.trans row1) running hfree hvalue))), ?_⟩, hq⟩
    intro l hl
    simp only [List.mem_append, List.mem_cons, List.not_mem_nil, or_false] at hl
    rcases hl with hl | rfl | rfl
    · exact hls' l hl
    · rfl
    · rfl

theorem spawnTask_spec {request : EnqueueRequest}
    (h : spawnTask e id attempt token stepName occ request s = .ok (r, s')) :
    ((∃ ls, Effects e ls s s' ∧ ∀ l ∈ ls, l.freshlySpawns id) ∨
      ∃ t v child, fenced s.db id attempt token = some t ∧
        s.db.checkpoints.get? ⟨id, t.handlerVersion, stepName, occ⟩ = some v ∧
        storedOrphan s.db v = some child ∧ Effect e (.adoptStored child id) s s') ∧
      s'.queued = s.queued := by
  unfold spawnTask at h
  split at h
  · cases h
    exact ⟨.inl ⟨[], .nil _, by simp⟩, rfl⟩
  · rename_i t hf
    obtain ⟨row, running, -, -⟩ := fenced_eq_some.mp hf
    extract_lets k at h
    split at h
    · rename_i v hv
      obtain ⟨hspawn, hq⟩ := replaySpawn_spec (e := e) (k := k) row running hv h
      refine ⟨?_, hq⟩
      rcases hspawn with rfl | ⟨child, hchild, effect⟩
      · exact .inl ⟨[], .nil _, by simp⟩
      · exact .inr ⟨t, v, child, hf, hv, hchild, effect⟩
    · obtain ⟨hspawn, hq⟩ := freshSpawn_spec (k := k) row running h
      exact ⟨.inl hspawn, hq⟩

end Pgtask
