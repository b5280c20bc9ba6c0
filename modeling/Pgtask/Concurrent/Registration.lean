import Pgtask.Concurrent.Programs
import Pgtask.Run
import Mathlib.Data.Fintype.Basic

/-!
# Registration between statements

`register_worker` looks for a conflicting policy in one statement and inserts
its own with ON CONFLICT DO NOTHING in the next. A policy that another worker
commits in between is not looked at again.
-/

open Sql ReadCommitted List Promise

namespace Pgtask.Concurrent

/-! ## The program -/

def putWorker (id : Uuid) (w : Worker) : Tx Unit := do
  let _ ← Prog.lockRow (RowId.worker id) .noKeyUpdate
  Prog.put (.worker id) w
  queueForeignKey w.queueName

def deleteCapability (k : Capability) : Tx Unit := do
  let _ ← Prog.lockRow (RowId.capability k) .update
  Prog.remove (.capability k)

def insertCapability (workerId : Uuid) (c : String × Int) : Tx Unit := do
  ofResult (require [("worker_capabilities_handler_version_check", 0 < c.2)])
  let inserted ← Prog.insertRow (.capability ⟨workerId, c.1, c.2⟩) ()
  if inserted then pure () else .raise

def insertPolicy (p : PolicyKey × RetryColumns) : Tx Unit := do
  ofResult (require (policyChecks p.1 p.2))
  let inserted ← Prog.insertRow (.policy p.1) p.2
  if inserted then queueForeignKey p.1.queueName else pure ()

structure RegisterCall where
  workerId : Uuid
  queueName : String
  version : String
  registration : Registration
  ttlMilliseconds : Int

def RegisterCall.policies (c : RegisterCall) : List (PolicyKey × RetryColumns) :=
  c.registration.policies c.queueName

def registerWorker (e : Env) (c : RegisterCall) : Tx Unit :=
  if !c.registration.aligned then .raise
  else if !decide c.registration.capabilities.Nodup then .raise
  else if c.ttlMilliseconds ≤ 0 then .raise
  else do
    addQueue c.queueName
    putWorker c.workerId { queueName := c.queueName, version := c.version,
                           expiresAt := e.now + milliseconds c.ttlMilliseconds }
    let db ← Prog.snapshot
    Prog.forEach deleteCapability
      ((db.workerCapabilities.select fun k _ => k.workerId = c.workerId).map Prod.fst)
    Prog.forEach (insertCapability c.workerId) c.registration.capabilities
    let db ← Prog.snapshot
    if c.policies.any fun p => (db.handlerPolicies.get? p.1).any (· ≠ p.2) then .raise
    else Prog.forEach insertPolicy c.policies

/-! ## Policies are only inserted -/

def policyPromise : Promise Database RowId Row where
  Inv _ := True
  change _ r old _ := match r with
    | .policy _ => old = none
    | _ => True
  mono h := h

variable {held : Locks} {ws : Writes RowId Row} {db db' : Database} {k : PolicyKey}

theorem keeps_policy {v : RetryColumns} (keeps : policyPromise.Keeps held db db')
    (h : db.handlerPolicies.get? k = some v) : db'.handlerPolicies.get? k = some v := by
  rcases keeps.2 (.policy k) with same | ⟨-, absent⟩
  · exact same.trans h
  · exact absurd (h.symm.trans absent) nofun

/-! ## One registration -/

abbrev Framed (A : Promise.Assn Database RowId Row) : Prop :=
  policyPromise.Frame (fun r => ∀ k, r ≠ .policy k) A

section Framed

variable {A : Promise.Assn Database RowId Row}

theorem putWorker_wp (hA : Framed A) {id : Uuid} {w : Worker} (h : A held ws db) :
    policyPromise.wp (fun _ => A) (putWorker id w) held ws db := by
  refine wp_lockRow hA.stable h fun db' h' => ?_
  refine wp_put ?_
  exact queueForeignKey_wp hA (hA.write (hA.lock _ h') ⟨_, mem_cons_self, rfl⟩ nofun)

theorem deleteCapability_wp (hA : Framed A) {k : Capability} (h : A held ws db) :
    policyPromise.wp (fun _ => A) (deleteCapability k) held ws db := by
  refine wp_lockRow hA.stable h fun db' h' => ?_
  exact hA.write (hA.lock _ h') ⟨_, mem_cons_self, rfl⟩ nofun

theorem insertCapability_wp (hA : Framed A) {id : Uuid} {c : String × Int} (h : A held ws db) :
    policyPromise.wp (fun _ => A) (insertCapability id c) held ws db := by
  refine wp_ofResult fun _ _ => ?_
  refine wp_insertRow hA.stable h fun db' h' => ⟨fun _ => trivial, fun _ => ?_⟩
  exact hA.write (hA.lock _ h') ⟨_, mem_cons_self, rfl⟩ nofun

end Framed

/-- Before the test: the policies of the database it started from are still there, and it has
written none. -/
structure Starting (start : Database) (held : Locks) (ws : Writes RowId Row) (db : Database) :
    Prop where
  lawful : policyPromise.Lawful held ws db
  grown : ∀ k v, start.handlerPolicies.get? k = some v → db.handlerPolicies.get? k = some v
  unwritten : ∀ k v, (⟨.policy k, v⟩ : (r : RowId) × Option (Row r)) ∉ ws

theorem starting_framed (start : Database) : Framed (Starting start) where
  stable held ws db db' h other :=
    ⟨Promise.lawful_stable _ _ _ _ h.lawful other,
      fun k v hk => keeps_policy other.2.choose_spec.2 (h.grown k v hk), h.unwritten⟩
  lock l h := ⟨h.lawful.cons, h.grown, h.unwritten⟩
  write {held ws db r v} h hw hr := by
    refine ⟨h.lawful.write hw ?_, h.grown, fun k u hu => ?_⟩
    · cases r with
      | policy k => exact absurd rfl (hr k)
      | _ => trivial
    · rcases mem_append.mp hu with hu | hu
      · exact h.unwritten k u hu
      · cases mem_singleton.mp hu
        exact hr k rfl

/-- After the test: none of the policies it started from differs from its own, it has written
only its own, and every policy but the remaining ones is there. -/
structure Registering (c : RegisterCall) (start : Database)
    (rest : List (PolicyKey × RetryColumns)) (held : Locks) (ws : Writes RowId Row)
    (db : Database) : Prop where
  lawful : policyPromise.Lawful held ws db
  agrees : ∀ p ∈ c.policies, ∀ v, start.handlerPolicies.get? p.1 = some v → v = p.2
  own : ∀ k v, (⟨.policy k, v⟩ : (r : RowId) × Option (Row r)) ∈ ws →
    ∃ p ∈ c.policies, k = p.1 ∧ v = some p.2
  unique : ∀ p ∈ c.policies, ∀ q ∈ c.policies, p.1 = q.1 → p = q
  present : ∀ p ∈ c.policies, p ∈ rest ∨ (view ws db).handlerPolicies.get? p.1 ≠ none

theorem registering_framed (c : RegisterCall) (start : Database)
    (rest : List (PolicyKey × RetryColumns)) : Framed (Registering c start rest) where
  stable held ws db db' h other := by
    refine ⟨Promise.lawful_stable _ _ _ _ h.lawful other, h.agrees, h.own, h.unique, fun p hp => ?_⟩
    refine (h.present p hp).imp_right fun there => ?_
    rcases h.lawful.row_cases other (.policy p.1) with ⟨hv, hv'⟩ | ⟨-, -, same, -⟩
    · obtain ⟨v, hd⟩ := Option.ne_none_iff_exists'.mp there
      have kept := keeps_policy other.2.choose_spec.2 (hv.symm.trans hd)
      exact fun hnone => absurd (kept.symm.trans (hv'.symm.trans hnone)) nofun
    · exact fun hnone => there (same.symm.trans hnone)
  lock l h := ⟨h.lawful.cons, h.agrees, h.own, h.unique, h.present⟩
  write {held ws db r v} h hw hr := by
    refine ⟨h.lawful.write hw ?_, h.agrees, fun k u hu => ?_, h.unique, fun p hp => ?_⟩
    · cases r with
      | policy k => exact absurd rfl (hr k)
      | _ => trivial
    · rcases mem_append.mp hu with hu | hu
      · exact h.own k u hu
      · cases mem_singleton.mp hu
        exact absurd rfl (hr k)
    · refine (h.present p hp).imp_right fun there => ?_
      have same := get_view_concat_of_ne ws db v (s := RowId.policy p.1) (Ne.symm (hr p.1))
      exact fun hnone => there (same.symm.trans hnone)

theorem insertPolicy_wp {c : RegisterCall} {start : Database} {p : PolicyKey × RetryColumns}
    {rest : List (PolicyKey × RetryColumns)} (hp : p ∈ c.policies)
    (h : Registering c start (p :: rest) held ws db) :
    policyPromise.wp (fun _ => Registering c start rest) (insertPolicy p) held ws db := by
  refine wp_ofResult fun _ _ => ?_
  refine wp_insertRow (registering_framed c start (p :: rest)).stable h fun db' h' =>
    ⟨fun found => ?_, fun absent => ?_⟩
  · refine ⟨h'.lawful, h'.agrees, h'.own, h'.unique, fun q hq => ?_⟩
    rcases h'.present q hq with hq | hq
    · rcases mem_cons.mp hq with rfl | hq
      · exact .inr (Option.isSome_iff_ne_none.mp found)
      · exact .inl hq
    · exact .inr hq
  · have committed : db'.handlerPolicies.get? p.1 = none := by
      rcases get_view_cases ws db' (.policy p.1) with same | written
      · exact same.symm.trans absent
      · obtain ⟨q, -, -, hq⟩ := h'.own _ _ written
        exact absurd (hq.symm.trans absent) nofun
    refine queueForeignKey_wp (registering_framed c start rest) ?_
    refine ⟨h'.lawful.cons.write ⟨_, mem_cons_self, rfl⟩ committed, h'.agrees, ?_,
      h'.unique, ?_⟩
    · intro k v hv
      rcases mem_append.mp hv with hv | hv
      · exact h'.own k v hv
      · cases mem_singleton.mp hv
        exact ⟨p, hp, rfl, rfl⟩
    · intro q hq
      by_cases hk : q.1 = p.1
      · right
        have written := get_view_concat ws db' (.policy p.1) (some p.2)
        rw [hk]
        exact fun hnone => absurd (written.symm.trans hnone) nofun
      · have same := get_view_concat_of_ne ws db' (r := RowId.policy p.1) (some p.2)
          (s := .policy q.1) (by simpa using hk)
        rcases h'.present q hq with hq | hq
        · rcases mem_cons.mp hq with rfl | hq
          · exact absurd rfl hk
          · exact .inl hq
        · exact .inr fun hnone => hq (same.symm.trans hnone)

theorem registerWorker_wp (e : Env) (c : RegisterCall) (start : Database) :
    policyPromise.wp (fun _ => Registering c start []) (registerWorker e c) [] [] start := by
  unfold registerWorker
  split
  · trivial
  rename_i aligned
  split
  · trivial
  rename_i nodup
  split
  · trivial
  have framed := starting_framed start
  have begins : Starting start [] [] start := ⟨by simp [Promise.Lawful], fun _ _ h => h, by simp⟩
  refine wp_then (addQueue_wp framed (by simp) begins) fun _ _ _ _ h => ?_
  refine wp_then (putWorker_wp framed h) fun _ _ _ _ h => ?_
  refine wp_snapshot framed.stable h fun db _ h => ?_
  refine wp_then (wp_forEach (I := fun _ => Starting start)
    (fun _ _ _ _ _ => deleteCapability_wp framed) h) fun _ _ _ _ h => ?_
  refine wp_then (wp_forEach (I := fun _ => Starting start)
    (fun _ _ _ _ _ => insertCapability_wp framed) h) fun _ held ws _ h => ?_
  refine wp_snapshot framed.stable h fun db _ h => ?_
  split
  · trivial
  rename_i clean
  refine wp_mono (fun _ _ _ _ h => h.2) (wp_forEach
    (I := fun rest held ws db => (∀ p ∈ rest, p ∈ c.policies) ∧ Registering c start rest held ws db)
    (fun p rest _ _ _ h => ?_) ⟨fun _ h => h, h.lawful, fun p hp v hv => ?_, ?_, ?_,
      ?_⟩)
  · refine wp_mono (fun _ _ _ _ h' => ⟨fun q hq => h.1 q (mem_cons_of_mem _ hq), h'⟩)
      (insertPolicy_wp (h.1 p mem_cons_self) h.2)
  · have seen : (view ws db).handlerPolicies.get? p.1 = some v := by
      rcases get_view_cases ws db (.policy p.1) with same | written
      · exact same.trans (h.grown p.1 v hv)
      · exact absurd written (h.unwritten _ _)
    by_contra differs
    refine clean (List.any_eq_true.mpr ⟨p, hp, ?_⟩)
    simp [seen, differs]
  · exact fun k v hv => absurd hv (h.unwritten k v)
  · exact fun p hp q hq =>
      Registration.policies_inj (by simpa using aligned) (by simpa using nodup) hp hq
  · exact fun p hp => .inl hp

/-! ## Every interleaving -/

section Interleavings

variable {ι : Type} [Fintype ι] [DecidableEq ι]

def registrations (db : Database) (env : ι → Env) (calls : ι → RegisterCall) (turns : List (Turn ι)) :
    System Database RowId Row Unit ι :=
  interleave db (fun i => registerWorker (env i) (calls i)) turns

variable {db : Database} {env : ι → Env} {calls : ι → RegisterCall}

omit [Fintype ι] [DecidableEq ι] in
theorem registerWorker_safe (db : Database) (env : ι → Env) (calls : ι → RegisterCall) (i : ι) :
    policyPromise.wp (fun _ => policyPromise.Committable) (registerWorker (env i) (calls i)) [] []
      db :=
  wp_mono (fun _ _ _ _ h => Promise.committable_of (registering_framed _ _ _).stable
    (fun _ _ _ _ h => ⟨h.lawful, trivial⟩) h) (registerWorker_wp (env i) (calls i) db)

theorem registrations_sound (turns : List (Turn ι)) :
    policyPromise.Sound (registrations db env calls turns) :=
  Promise.interleave_sound trivial (registerWorker_safe db env calls) turns

theorem registrations_concat (turns : List (Turn ι)) (t : Turn ι) :
    registrations db env calls (turns ++ [t]) = (registrations db env calls turns).turn t :=
  interleave_concat ..

theorem policy_stays {k : PolicyKey} {v : RetryColumns} {before : List (Turn ι)}
    (h : (registrations db env calls before).db.handlerPolicies.get? k = some v)
    (after : List (Turn ι)) :
    (registrations db env calls (before ++ after)).db.handlerPolicies.get? k = some v := by
  induction after using List.reverseRecOn with
  | nil => rwa [append_nil]
  | append_singleton after t ih =>
    rw [← append_assoc, registrations_concat]
    rcases (registrations_sound (before ++ after)).turn_keeps t with same | ⟨held, keeps⟩
    · exact (congrArg (fun d => d.handlerPolicies.get? k) same).trans ih
    · exact keeps_policy keeps ih

theorem registering_at_commit {i : ι} {before after : List (Turn ι)} (idle : .advance i ∉ before)
    {held : Locks} {ws : Writes RowId Row}
    (h : (registrations db env calls (before ++ after)).txns i = .active (.ret ()) held ws) :
    Registering (calls i) (registrations db env calls before).db [] held ws
      (registrations db env calls (before ++ after)).db :=
  Promise.interleave_expects trivial (registerWorker_safe db env calls)
    (fun _ => (registering_framed _ _ _).stable) idle (registerWorker_wp _ _ _) after _ held ws h

theorem policy_present {i : ι} {turns : List (Turn ι)}
    (h : (registrations db env calls turns).txns i = .committed ()) : ∀ p ∈ (calls i).policies,
      ∃ v, (registrations db env calls turns).db.handlerPolicies.get? p.1 = some v := by
  intro p hp
  obtain ⟨before, after, held, ws, rfl, hi, hdb⟩ := interleave_committed h
  have registering : Registering (calls i) (registrations db env calls []).db [] held ws
    (registrations db env calls ([] ++ before)).db := registering_at_commit not_mem_nil hi
  obtain ⟨v, hv⟩ := Option.ne_none_iff_exists'.mp
    ((registering.present p hp).resolve_left not_mem_nil)
  have stored : (registrations db env calls (before ++ [.advance i])).db.handlerPolicies.get? p.1 =
      some v := (congrArg (fun d => d.handlerPolicies.get? p.1) hdb).trans hv
  rw [append_cons]
  exact ⟨v, policy_stays stored after⟩

def StoresOther (p : PolicyKey × RetryColumns) (s : System Database RowId Row Unit ι) (t : Turn ι) :
    Prop :=
  s.db.handlerPolicies.get? p.1 = none ∧
    ∃ v, v ≠ p.2 ∧ (s.turn t).db.handlerPolicies.get? p.1 = some v

/-- No other transaction stores another policy for one of a registration's identities while the
registration runs. -/
def Undisturbed (race : List (Turn ι) → System Database RowId Row Unit ι) (i : ι)
    (policies : List (PolicyKey × RetryColumns)) (turns : List (Turn ι)) : Prop :=
  ∀ before t after, turns = before ++ t :: after → .advance i ∈ before →
    ((race before).txns i).ended = false → t ≠ .advance i →
    ∀ p ∈ policies, ¬ StoresOther p (race before) t

omit [Fintype ι] [DecidableEq ι] in
theorem starts_before {i : ι} {before rest xs ys : List (Turn ι)} (idle : .advance i ∉ before)
    (h : before ++ rest = xs ++ .advance i :: ys) : ∃ mid, xs = before ++ mid := by
  rcases append_eq_append_iff.mp h with ⟨mid, hxs, -⟩ | ⟨mid, hbefore, hys⟩
  · exact ⟨mid, hxs⟩
  · cases mid with
    | nil => exact ⟨[], by simpa using hbefore.symm⟩
    | cons t mid =>
      cases hys
      exact absurd (by simp [hbefore]) idle

theorem start_agrees {i : ι} {before after : List (Turn ι)}
    (h : (registrations db env calls (before ++ after)).txns i = .committed ())
    (idle : .advance i ∉ before) : ∀ p ∈ (calls i).policies, ∀ v,
      (registrations db env calls before).db.handlerPolicies.get? p.1 = some v → v = p.2 := by
  obtain ⟨xs, ys, held, ws, hturns, hi, -⟩ := interleave_committed h
  obtain ⟨mid, rfl⟩ := starts_before idle hturns
  exact (registering_at_commit idle hi).agrees

theorem own_agrees {i : ι} {before after : List (Turn ι)} (idle : .advance i ∉ before)
    {p : PolicyKey × RetryColumns} (hp : p ∈ (calls i).policies) {v : RetryColumns}
    (absent : (registrations db env calls (before ++ after)).db.handlerPolicies.get? p.1 = none)
    (hv : ((registrations db env calls (before ++ after)).turn (.advance i)).db.handlerPolicies.get?
      p.1 = some v) : v = p.2 := by
  rcases (registrations db env calls (before ++ after)).turn_commit (.advance i) with
    ⟨same, -⟩ | ⟨j, ⟨⟩, held, ws, hij, hi, next⟩
  · rw [same, absent] at hv
    cases hv
  · cases hij
    have registering := registering_at_commit idle hi
    rw [next] at hv
    rcases get_view_cases ws (registrations db env calls (before ++ after)).db (.policy p.1) with
      same | written
    · exact absurd (hv.symm.trans (same.trans absent)) nofun
    · obtain ⟨q, hq, hkey, hvalue⟩ := registering.own _ _ written
      cases registering.unique p hp q hq hkey
      exact Option.some.inj (hv.symm.trans hvalue)

theorem undisturbed_agrees {i : ι} {turns before : List (Turn ι)}
    (h : (registrations db env calls turns).txns i = .committed ())
    (undisturbed : Undisturbed (registrations db env calls) i (calls i).policies turns)
    (idle : .advance i ∉ before) (after rest : List (Turn ι))
    (hturns : turns = before ++ (after ++ rest)) (starts : (after ++ rest).head? = some (.advance i)) :
    ∀ p ∈ (calls i).policies, ∀ v,
      (registrations db env calls (before ++ after)).db.handlerPolicies.get? p.1 = some v →
      v = p.2 := by
  induction after using List.reverseRecOn generalizing rest with
  | nil =>
    rw [append_nil]
    exact start_agrees (hturns ▸ h) idle
  | append_singleton after t ih =>
    intro p hp v hv
    have earlier := ih (t :: rest) (by simpa using hturns) (by simpa using starts) p hp
    cases hrow : (registrations db env calls (before ++ after)).db.handlerPolicies.get? p.1 with
    | some u =>
      have stays := policy_stays hrow [t]
      rw [append_assoc] at stays
      cases stays.symm.trans hv
      exact earlier v hrow
    | none =>
      rw [← append_assoc, registrations_concat] at hv
      by_cases own : t = .advance i
      · subst own
        exact own_agrees idle hp hrow hv
      by_contra differs
      refine undisturbed (before ++ after) t rest (by simpa using hturns) ?_ ?_ own p hp
        ⟨hrow, v, differs, hv⟩
      · cases after with
        | nil => exact absurd (by simpa using starts) own
        | cons u after => simpa using .inr (.inl (by simpa using starts.symm))
      · by_contra ended
        rw [Bool.not_eq_false] at ended
        have same := interleave_ended db (fun j => registerWorker (env j) (calls j)) ended (t :: rest)
        rw [show before ++ after ++ t :: rest = turns by simp [hturns]] at same
        obtain ⟨u, hu⟩ := policy_present (same.symm.trans h) p hp
        exact absurd (hu.symm.trans hrow) nofun

/-- A registration that has committed finds every policy it asked for stored exactly if no other
transaction stored another one for an identity of its own while it ran. -/
theorem registration_stored_iff (db : Database) (env : ι → Env) (calls : ι → RegisterCall) (i : ι)
    (turns : List (Turn ι)) (committed : (registrations db env calls turns).txns i = .committed ()) :
    (∀ p ∈ (calls i).policies,
        (registrations db env calls turns).db.handlerPolicies.get? p.1 = some p.2) ↔
      Undisturbed (registrations db env calls) i (calls i).policies turns := by
  constructor
  · rintro stored before t after rfl - - - p hp ⟨-, v, differs, hv⟩
    rw [← registrations_concat] at hv
    have kept := policy_stays hv after
    rw [← append_cons] at kept
    exact differs (Option.some.inj (kept.symm.trans (stored p hp)))
  · intro undisturbed p hp
    obtain ⟨xs, ys, -, -, hturns, -, -⟩ := interleave_committed committed
    have ran : .advance i ∈ turns := by simp [hturns]
    obtain ⟨before, after, rfl, idle⟩ := List.eq_append_cons_of_mem ran
    obtain ⟨v, hv⟩ := policy_present committed p hp
    have agrees := undisturbed_agrees committed undisturbed idle (.advance i :: after) []
      (by simp) rfl p hp v hv
    rw [← agrees]
    exact hv

end Interleavings

def registerOne (worker : Nat) (baseDelay : Option Int) : RegisterCall where
  workerId := Uuid.ofNat worker
  queueName := "default"
  version := "1"
  ttlMilliseconds := 1000
  registration :=
    { taskNames := ["a"], handlerVersions := [1]
      retryKinds := [some (if baseDelay.isSome then .fixed else .never)]
      baseDelays := [baseDelay], factors := [none], maxDelays := [none] }

def oneQueue : Database :=
  (run countingServer [⟨0, .enqueue { taskName := some "a", payload := some .null }⟩]).db

theorem registration_stored_iff_alone :
    let race := registrations oneQueue (fun _ : Fin 1 => countingServer.envAt 1)
      fun _ => registerOne 100 none
    let turns := List.replicate 10 (Turn.advance 0)
    (∀ p ∈ (registerOne 100 none).policies,
        (race turns).db.handlerPolicies.get? p.1 = some p.2) ↔
      Undisturbed race 0 (registerOne 100 none).policies turns :=
  registration_stored_iff oneQueue (fun _ : Fin 1 => countingServer.envAt 1)
    (fun _ => registerOne 100 none) 0 (List.replicate 10 (.advance 0))
    (Txn.answer_eq_some.mp (by decide +kernel))

theorem both_registrations_commit :
    let calls : Fin 2 → RegisterCall := fun i => registerOne (100 + i) (if i = 0 then none else some 5)
    let race := registrations oneQueue (fun _ => countingServer.envAt 1) calls
    let turns := List.replicate 7 (Turn.advance 0) ++ List.replicate 10 (.advance 1) ++
      List.replicate 10 (.advance 0)
    ((race turns).txns 0).answer = some () ∧ ((race turns).txns 1).answer = some () ∧
      (calls 0).policies = [(⟨"default", "a", 1⟩, { kind := some .never })] ∧
      (race turns).db.handlerPolicies.get? ⟨"default", "a", 1⟩ =
        some { kind := some .fixed, baseDelayMilliseconds := some 5 } := by
  decide +kernel

end Pgtask.Concurrent
