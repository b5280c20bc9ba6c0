import Pgtask.Invariant.Checkpoints
import Pgtask.Lib.Decimal

/-!
# Spawning again

The checkpoint of a spawn names the child. A later `spawn_task` at the same step
reads it and looks the child up, so it answers as long as the child's row is
there, and raises when retention has deleted it.
-/

open Sql Checked List

namespace Pgtask

variable {e : Env} {l : Label} {db : Database} {id : Uuid} {server : Server} {s s' : Session}
  {rs since : List Request}

/-! ## The link to the parent -/

theorem row_stays {P : Task → Prop}
    (keeps : ∀ e l db t t', RowStep e db id l (some t) (some t') → P t → P t')
    (distinct : server.Distinct (run server (rs ++ since)).drawn)
    (born : Born server (run server rs).drawn id)
    (start : ∀ t, (run server rs).db.tasks.get? id = some t → P t) :
    ∀ t, (run server (rs ++ since)).db.tasks.get? id = some t → P t := by
  induction since using List.reverseRecOn with
  | nil => rwa [append_nil]
  | append_singleton since r ih =>
    rw [← append_assoc] at distinct ⊢
    have before := ih (distinct.mono (run_drawn_le server _ [r]))
    have hborn : Born server (run server (rs ++ since)).drawn id :=
      born.mono (run_drawn_le server rs since)
    rw [run_concat] at distinct ⊢
    rcases step_spec server (run server (rs ++ since)) r with ⟨-, -, -, -, -, ls, path, -⟩ | ⟨-, -, hw⟩
    · refine path.keeps (P := fun s => ∀ t, s.db.tasks.get? id = some t → P t) ?_
        (born_not_inserted hborn distinct path) before
      rintro l s s' ⟨hinsert, hmaterialize⟩ effect h t' row'
      have step := effect.row id
      rw [row'] at step
      rcases step.fixed with ⟨t, row, -⟩ | ⟨-, label⟩
      · rw [row] at step
        exact keeps _ _ _ t t' step (h t row)
      · rcases label with h | h
        · exact absurd h hinsert
        · exact absurd h hmaterialize
    · rw [hw]
      exact before

/-! ## The checkpoint of a spawn -/

def Names (v : Json) (child : Uuid) : Prop :=
  ∃ text, v.fieldText "task_id" = some text ∧ Uuid.ofText? text = some child

theorem adoptOrRaise_parent {child parent : Uuid} {message : String}
    (h : adoptOrRaise child parent message s = .ok s') :
    (s'.db.tasks.get? child).bind Task.parentTaskId = some parent ∧
      s'.db.checkpoints = s.db.checkpoints := by
  have hcheckpoints : s'.db.checkpoints = s.db.checkpoints := by
    rcases adopt_spec h with rfl | ⟨c, -, -, -, -, rfl⟩
    · rfl
    · rfl
  unfold adoptOrRaise at h
  obtain ⟨s1, -, h⟩ := bind_ok h
  split at h
  · rename_i hparent
    cases h
    exact ⟨hparent, hcheckpoints⟩
  · cases h

theorem spawnTask_returned {attempt : Nat} {token child : Uuid} {stepName : String} {occurrence : Int}
    {request : EnqueueRequest} {created : Bool}
    (h : spawnTask e id attempt token stepName occurrence request s = .ok (some (child, created), s')) :
    ∃ t v, s.db.tasks.get? id = some t ∧
      s'.db.checkpoints.get? ⟨id, t.handlerVersion, stepName, occurrence⟩ = some v ∧
      Names v child ∧ (s'.db.tasks.get? child).bind Task.parentTaskId = some id := by
  unfold spawnTask at h
  split at h
  · cases h
  · rename_i t ht
    obtain ⟨row, -⟩ := fenced_eq_some.mp ht
    dsimp only at h
    split at h
    · rename_i v stored
      unfold replaySpawn at h
      split at h
      · cases h
      · rename_i text hfield
        split at h
        · cases h
        · rename_i child' hnames
          obtain ⟨s1, h1, h⟩ := bind_ok h
          cases h
          obtain ⟨hparent, hcheckpoints⟩ := adoptOrRaise_parent h1
          exact ⟨t, v, row, by rw [hcheckpoints, stored], ⟨text, hfield, hnames⟩, hparent⟩
    · unfold freshSpawn at h
      obtain ⟨⟨⟨child', created'⟩, s1⟩, -, h⟩ := bind_ok h
      obtain ⟨-, -, h⟩ := bind_ok h
      obtain ⟨s2, h2, h⟩ := bind_ok h
      obtain ⟨s3, h3, h⟩ := bind_ok h
      cases h
      obtain ⟨hparent, -⟩ := adoptOrRaise_parent h2
      unfold insertCheckpoint at h3
      obtain ⟨-, -, h3⟩ := bind_ok h3
      split at h3
      · cases h3
      · cases h3
        exact ⟨t, _, row, Table.get?_put_self _ _ _, ⟨child.text, rfl, Uuid.ofText?_text child⟩,
          hparent⟩

theorem spawnTask_replays {attempt : Nat} {token child : Uuid} {stepName : String} {occurrence : Int}
    {request : EnqueueRequest} {t : Task} {v : Json} (fence : fenced s.db id attempt token = some t)
    (stored : s.db.checkpoints.get? ⟨id, t.handlerVersion, stepName, occurrence⟩ = some v)
    (names : Names v child)
    (linked : ∀ c, s.db.tasks.get? child = some c → c.parentTaskId = some id) :
    spawnTask e id attempt token stepName occurrence request s =
      if (s.db.tasks.get? child).isSome then .ok (some (child, false), s)
      else .error (.exception "23514" foreignCheckpoint) := by
  obtain ⟨text, hfield, hnames⟩ := names
  have hadopt : adopt child id s = .ok s := by
    unfold adopt
    cases hc : s.db.tasks.get? child with
    | none => rfl
    | some c => simp [linked c hc]
  have hreplay : replaySpawn id v s =
      (adoptOrRaise child id foreignCheckpoint s).bind fun s => .ok (some (child, false), s) := by
    unfold replaySpawn
    rw [hfield]
    dsimp only
    rw [hnames]
    rfl
  unfold spawnTask
  rw [fence]
  dsimp only
  rw [stored]
  dsimp only
  rw [hreplay]
  unfold adoptOrRaise
  rw [hadopt]
  cases hc : s.db.tasks.get? child with
  | none => simp [hc, bind, Except.bind]
  | some c => simp [hc, linked c hc, bind, Except.bind]

/-- After a spawn has returned a child, and while the parent's row is there, a spawn at the same
step under a valid lease returns that child again and creates no task, if and only if the row of
the child is still there. -/
theorem spawn_replays (server : Server) (rs since : List Request) (r r' : Request) (l l' : Lease)
    (stepName : String) (occurrence : Int) (request request' : EnqueueRequest) (child : Uuid)
    (created : Bool) (call : r.call = .spawnTask l stepName occurrence request)
    (returned : (step server (run server rs) r).1 = .returned (.spawned (some (child, created))))
    (kept : RowKept server (rs ++ [r]) since l.taskId)
    (call' : r'.call = .spawnTask l' stepName occurrence request') (same : l'.taskId = l.taskId)
    (valid : l'.passes (run server (rs ++ [r] ++ since)).db)
    (distinct : server.Distinct (run server (rs ++ [r] ++ since)).drawn) :
    let w := run server (rs ++ [r] ++ since)
    ((step server w r').1 = .returned (.spawned (some (child, false))) ∧
        ∀ id, w.db.tasks.get? id = none → (step server w r').2.db.tasks.get? id = none) ↔
      (w.db.tasks.get? child).isSome = true := by
  intro w
  obtain ⟨s', hexec, hs'⟩ := step_returned returned
  rw [call] at hexec
  obtain ⟨a, hspawn, ha⟩ := reply_ok hexec
  cases ha
  obtain ⟨t, v, row, stored, names, hparent⟩ := spawnTask_returned hspawn
  rw [hs', ← run_concat, World.session_db] at stored hparent
  -- The row, the checkpoint and the link are the same when the second call comes.
  have hkept : RowKept server rs (r :: since) l.taskId := by
    rintro (_ | ⟨r₀, a⟩) b hab
    · rw [append_nil]
      exact Option.isSome_iff_exists.mpr ⟨t, row⟩
    · cases hab
      have := kept a b rfl
      rwa [append_assoc] at this
  obtain ⟨t', row', hfixed⟩ := hkept.fixed row (append_nil _).symm
  rw [append_cons] at row'
  have hversion : t'.handlerVersion = t.handlerVersion := by
    simp only [Task.fixed, Prod.mk.injEq] at hfixed
    exact hfixed.2.2.1
  have stored' : w.db.checkpoints.get? ⟨l.taskId, t.handlerVersion, stepName, occurrence⟩ = some v :=
    kept.checkpoint stored (append_nil _).symm
  have linked : ∀ c, w.db.tasks.get? child = some c → c.parentTaskId = some l.taskId := by
    obtain ⟨c, hc, hlink⟩ := Option.bind_eq_some_iff.mp hparent
    refine row_stays (fun _ _ _ _ _ step h => step.keeps_parent h) distinct
      (run_born server _ child c hc) fun c' hc' => ?_
    obtain rfl := Option.some.inj (hc.symm.trans hc')
    exact hlink
  obtain ⟨t'', fence⟩ := Option.isSome_iff_exists.mp valid
  obtain rfl : t'' = t' := by
    have row'' := (fenced_eq_some.mp fence).1
    rw [same] at row''
    exact Option.some.inj (row''.symm.trans row')
  rw [← hversion, ← same] at stored'
  rw [← same] at linked
  have hcall : exec (server.envAt r'.now) r'.call w.session =
      if (w.db.tasks.get? child).isSome then .ok (.spawned (some (child, false)), w.session)
      else .error (.exception "23514" foreignCheckpoint) := by
    rw [call']
    show (spawnTask (server.envAt r'.now) l'.taskId l'.attempt l'.leaseToken stepName occurrence
      request' w.session).map (reply .spawned) = _
    rw [spawnTask_replays fence stored' names linked, World.session_db]
    split <;> rfl
  constructor
  · rintro ⟨hreturned, -⟩
    by_contra hgone
    rw [if_neg hgone] at hcall
    unfold step at hreturned
    rw [hcall] at hreturned
    cases hreturned
  · intro hthere
    rw [if_pos hthere] at hcall
    rw [step_of_exec hcall]
    exact ⟨rfl, fun _ h => h⟩

def spawnRun : List Request :=
  [⟨0, .putQueue "default" ⟨0, 604800, none, 300⟩⟩,
   ⟨0, .enqueue { taskName := some "a", payload := some .null }⟩,
   ⟨1, .claim "default" (Uuid.ofNat 100) ["a"] [1] 1 1000⟩]

def spawnChild (now : Timestamp) : Request :=
  ⟨now, .spawnTask ⟨Uuid.ofNat 1, 1, Uuid.ofNat 2⟩ "s" 0 { taskName := some "b", payload := some .null }⟩

def finishChild : List Request :=
  [⟨3, .claim "default" (Uuid.ofNat 100) ["b"] [1] 1 1000⟩,
   ⟨4, .completeTask ⟨Uuid.ofNat 3, 1, Uuid.ofNat 4⟩ none⟩]

theorem spawn_replays_finished_child :
    (step countingServer (run countingServer (spawnRun ++ [spawnChild 2] ++ finishChild))
      (spawnChild 5)).1 = .returned (.spawned (some (Uuid.ofNat 3, false))) := by
  refine ((spawn_replays countingServer spawnRun finishChild (spawnChild 2) (spawnChild 5)
    ⟨Uuid.ofNat 1, 1, Uuid.ofNat 2⟩ ⟨Uuid.ofNat 1, 1, Uuid.ofNat 2⟩ "s" 0 _ _ (Uuid.ofNat 3) true rfl
    (by decide +kernel) (rowKept_of_fin (by decide +kernel)) rfl rfl (by decide +kernel) ?_).mpr
    (by decide +kernel)).1
  rw [show (run countingServer (spawnRun ++ [spawnChild 2] ++ finishChild)).drawn = 4 by
    decide +kernel]
  exact countingServer_distinct (by decide)

theorem spawn_raises_after_retention :
    let rs := spawnRun ++ [spawnChild 2] ++ finishChild ++ [⟨5, .deleteExpiredTerminal "default" 10⟩]
    Lease.passes ⟨Uuid.ofNat 1, 1, Uuid.ofNat 2⟩ (run countingServer rs).db ∧
      ((run countingServer rs).db.tasks.get? (Uuid.ofNat 3)).isNone = true ∧
      (step countingServer (run countingServer rs) (spawnChild 6)).1 =
        .raised (.exception "23514" foreignCheckpoint) := by
  decide +kernel

/-! ## The key of a spawn -/

theorem colon_first {a b x y : List Char} (ha : ':' ∉ a) (hb : ':' ∉ b) (h : a ++ ':' :: x = b ++ ':' :: y) :
    a = b ∧ x = y := by
  induction a generalizing b with
  | nil =>
    cases b with
    | nil => simpa using h
    | cons c b => simp_all
  | cons c a ih =>
    simp only [mem_cons, not_or] at ha
    cases b with
    | nil => exact absurd (List.cons.inj h).1.symm ha.1
    | cons d b =>
      simp only [mem_cons, not_or, cons_append, List.cons.injEq] at hb h
      obtain ⟨hab, hxy⟩ := ih ha.2 hb.2 h.2
      exact ⟨by rw [h.1, hab], hxy⟩

theorem colon_last {a b x y : List Char} (hx : ':' ∉ x) (hy : ':' ∉ y) (h : a ++ ':' :: x = b ++ ':' :: y) :
    a = b ∧ x = y := by
  have h := congrArg List.reverse h
  simp only [List.reverse_append, List.reverse_cons, append_assoc, singleton_append] at h
  have hsplit := colon_first (by simpa using hx) (by simpa using hy) h
  simpa [and_comm] using hsplit

theorem int_no_colon (n : Int) : ':' ∉ (toString n).toList := by
  rw [Decimal.int_toList, mem_append, not_or]
  refine ⟨by split <;> decide, fun h => ?_⟩
  exact absurd (Decimal.isDigit_of_mem_repr h) (by decide)

theorem uuid_no_colon (u : Uuid) : ':' ∉ u.text.toList := by
  have digit : ∀ d : Fin 16, ':' ≠ hexDigit d := by decide
  rw [Uuid.text_toList]
  induction 16 with
  | zero => simp [Uuid.spell]
  | succ left ih =>
    have hhigh := digit ⟨u.bits.toNat / 256 ^ left % 256 / 16, by omega⟩
    have hlow := digit ⟨u.bits.toNat / 256 ^ left % 256 % 16, by omega⟩
    unfold Uuid.spell
    simp only [mem_cons, not_or]
    refine ⟨hhigh, hlow, ?_⟩
    split <;> simp [ih]

theorem spawnKey_toList (k : StepKey) : (spawnKey k).toList = "pgtask:spawn:".toList ++ (k.taskId.text.toList ++
    ':' :: ((toString k.handlerVersion).toList ++ ':' :: (k.stepName.toList ++
      ':' :: (toString k.occurrence).toList))) := by
  have hcolon : (toString ":").toList = [':'] := rfl
  unfold spawnKey
  simp only [String.toList_append, append_assoc, hcolon, singleton_append]
  rfl

/-- The key of a spawn is read from both ends: no colon is in the id and the version, and none in the
occurrence. What is left in the middle is the step name, with whatever colons it has. -/
theorem spawn_keys_distinct (k k' : StepKey) : spawnKey k = spawnKey k' ↔ k = k' := by
  refine ⟨fun h => ?_, congrArg spawnKey⟩
  have h := congrArg String.toList h
  rw [spawnKey_toList, spawnKey_toList, List.append_cancel_left_eq] at h
  obtain ⟨htask, h⟩ := colon_first (uuid_no_colon _) (uuid_no_colon _) h
  obtain ⟨hversion, h⟩ := colon_first (int_no_colon _) (int_no_colon _) h
  obtain ⟨hname, hoccurrence⟩ := colon_last (int_no_colon _) (int_no_colon _) h
  have htask : k.taskId = k'.taskId := by
    have hread := congrArg Uuid.ofText? (String.toList_inj.mp htask)
    simpa [Uuid.ofText?_text] using hread
  cases k
  cases k'
  simp only [StepKey.mk.injEq]
  exact ⟨htask, Decimal.int_inj hversion, String.toList_inj.mp hname, Decimal.int_inj hoccurrence⟩

end Pgtask
