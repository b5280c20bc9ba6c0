import Pgtask.Invariant.Identity

/-!
# The fence

A claim hands out a lease: a task, an attempt and a token. The lease passes the
fence until the task is claimed again or leaves `running`, and never again after
that.
-/

open Sql Checked List

namespace Pgtask

variable {rows : List (Uuid × Task)} {before : List Request} {r : Request}

def Lease.passes (l : Lease) (db : Database) : Prop :=
  (fenced db l.taskId l.attempt l.leaseToken).isSome = true

instance (l : Lease) (db : Database) : Decidable (l.passes db) := by
  unfold Lease.passes
  infer_instance

def leaseOf (row : Uuid × Task) : Option Lease :=
  row.2.leaseToken.map fun token => ⟨row.1, row.2.attempt, token⟩

/-- The leases that a step hands out. Only `claim` returns rows of tasks. -/
def handsOut (server : Server) (w : World) (r : Request) : List Lease :=
  match (step server w r).1 with
  | .returned (.tasks rows) => rows.filterMap leaseOf
  | _ => []

def Runs (w : World) (id : Uuid) : Prop := ∃ t, w.db.tasks.get? id = some t ∧ t.state = .running

/-- The claim in step `r` after `before` is the latest of its task, and the task has been running
in every state since. -/
def StillHeld (server : Server) (before : List Request) (r : Request) (since : List Request)
    (l : Lease) : Prop :=
  (∀ a b, since = a ++ b → Runs (run server (before ++ r :: a)) l.taskId) ∧
    ∀ a r' b, since = a ++ r' :: b →
      ∀ l' ∈ handsOut server (run server (before ++ r :: a)) r', l'.taskId ≠ l.taskId

variable {e : Env} {server : Server} {l : Lease} {label : Label} {row row' : Option Task}
  {db : Database} {id : Uuid}

/-! ## One row -/

def Lease.matchesRow (l : Lease) (row : Option Task) : Prop :=
  ∃ t, row = some t ∧ t.state = .running ∧ t.attempt = l.attempt ∧ t.leaseToken = some l.leaseToken

theorem passes_iff : l.passes db ↔ l.matchesRow (db.tasks.get? l.taskId) := by
  unfold Lease.passes
  rw [Option.isSome_iff_exists]
  simp only [fenced_eq_some]
  rfl

/-- The row is at the lease's attempt or past it, and only the lease's token opens that attempt. -/
def Lease.issued (l : Lease) (row : Option Task) : Prop :=
  ∀ t, row = some t → l.attempt ≤ t.attempt ∧
    (t.attempt = l.attempt → t.state = .running → t.leaseToken = some l.leaseToken)

def Lease.over (l : Lease) (row : Option Task) : Prop :=
  ∀ t, row = some t → l.attempt < t.attempt ∨ l.attempt = t.attempt ∧ t.state ≠ .running

theorem Lease.matchesRow.issued (h : l.matchesRow row) : l.issued row := by
  obtain ⟨t, rfl, -, hattempt, htoken⟩ := h
  rintro t' ⟨⟩
  exact ⟨hattempt.ge, fun _ _ => htoken⟩

theorem Lease.issued.cases (h : l.issued row) : l.matchesRow row ∨ l.over row := by
  by_cases hm : l.matchesRow row
  · exact .inl hm
  · right
    intro t ht
    obtain ⟨hle, htoken⟩ := h t ht
    rcases hle.lt_or_eq with hlt | heq
    · exact .inl hlt
    · exact .inr ⟨heq, fun hr => hm ⟨t, ht, hr, heq.symm, htoken heq.symm hr⟩⟩

theorem Lease.over.not_matches (h : l.over row) : ¬ l.matchesRow row := by
  rintro ⟨t, ht, hr, hattempt, -⟩
  rcases h t ht with hlt | ⟨-, hidle⟩
  · omega
  · exact hidle hr

theorem RowStep.lease {t' : Task} (step : RowStep e db id label row (some t')) :
    (∃ t, row = some t ∧ t'.attempt = t.attempt ∧ (∀ l, label = .claim l → l.taskId ≠ id) ∧
        (t'.state = .running → t.state = .running ∧ t'.leaseToken = t.leaseToken)) ∨
      (∃ t token, row = some t ∧ label = .claim ⟨id, t.attempt + 1, token⟩ ∧
        t'.attempt = t.attempt + 1) ∨ (label = .insert id ∨ label = .materialize id) := by
  generalize hnew : some t' = new at step
  cases step with
  | same other =>
    refine .inl ⟨t', hnew.symm, rfl, ?_, fun h => ⟨h, rfl⟩⟩
    rintro l rfl rfl
    exact other rfl
  | claim =>
    cases hnew
    exact .inr (.inl ⟨_, _, rfl, rfl, rfl⟩)
  | insert _ label => exact .inr (.inr label)
  | renew =>
    cases hnew
    exact .inl ⟨_, rfl, rfl, nofun, fun h => ⟨h, rfl⟩⟩
  | adopt _ label =>
    cases hnew
    exact .inl ⟨_, rfl, rfl, by rcases label with rfl | rfl <;> nofun, fun h => ⟨h, rfl⟩⟩
  | wake _ label =>
    obtain ⟨t, rfl, ht⟩ := Option.map_eq_some_iff.mp hnew.symm
    refine .inl ⟨t, rfl, ?_, by rcases label with rfl | rfl <;> nofun, ?_⟩
    · subst ht
      unfold Task.woken
      split <;> rfl
    · subst ht
      unfold Task.woken
      split
      · nofun
      · exact fun h => ⟨h, rfl⟩
  | park _ _ label =>
    cases hnew
    exact .inl ⟨_, rfl, rfl, by rcases label with rfl | rfl <;> nofun, nofun⟩
  | fail =>
    cases hnew
    refine .inl ⟨_, rfl, rfl, nofun, ?_⟩
    unfold Task.failedWith
    simp only
    split <;> nofun
  | yield =>
    cases hnew
    exact .inl ⟨_, rfl, rfl, nofun, nofun⟩
  | complete =>
    cases hnew
    exact .inl ⟨_, rfl, rfl, nofun, nofun⟩
  | cancel =>
    cases hnew
    exact .inl ⟨_, rfl, rfl, nofun, nofun⟩
  | retry =>
    cases hnew
    exact .inl ⟨_, rfl, rfl, nofun, nofun⟩
  | delete => cases hnew

section Rows

variable (old : label ≠ .insert id ∧ label ≠ .materialize id)
include old

theorem RowStep.keeps_over (step : RowStep e db id label row row') (h : l.over row) : l.over row' := by
  rintro t' rfl
  rcases step.lease with ⟨t, ht, hattempt, -, hrun⟩ | ⟨t, token, ht, -, hattempt⟩ | hinsert
  · rw [hattempt]
    exact (h t ht).imp_right fun ⟨heq, hidle⟩ => ⟨heq, fun hr => hidle (hrun hr).1⟩
  · left
    rcases h t ht with hlt | ⟨heq, -⟩ <;> omega
  · exact absurd hinsert (not_or.mpr old)

theorem RowStep.keeps_issued (step : RowStep e db id label row row') (h : l.issued row) :
    l.issued row' := by
  rintro t' rfl
  rcases step.lease with ⟨t, ht, hattempt, -, hrun⟩ | ⟨t, token, ht, -, hattempt⟩ | hinsert
  · rw [hattempt]
    refine ⟨(h t ht).1, fun heq hr => ?_⟩
    rw [(hrun hr).2]
    exact (h t ht).2 heq (hrun hr).1
  · have := (h t ht).1
    exact ⟨by omega, fun heq => by omega⟩
  · exact absurd hinsert (not_or.mpr old)

theorem RowStep.claim_over {l' : Lease} (step : RowStep e db id label row row') (h : l.issued row)
    (hl : label = .claim l') (hid : l'.taskId = id) : l.over row' := by
  rintro t' rfl
  rcases step.lease with ⟨t, -, -, hother, -⟩ | ⟨t, token, ht, -, hattempt⟩ | hinsert
  · exact absurd hid (hother l' hl)
  · have := (h t ht).1
    exact .inl (by omega)
  · exact absurd hinsert (not_or.mpr old)

theorem RowStep.keeps_match (step : RowStep e db id label row row')
    (unclaimed : ∀ l', label = .claim l' → l'.taskId ≠ id)
    (h : l.matchesRow row ∨ ∀ t, row = some t → t.state ≠ .running) :
    l.matchesRow row' ∨ ∀ t, row' = some t → t.state ≠ .running := by
  by_cases hr : ∃ t', row' = some t' ∧ t'.state = .running
  · obtain ⟨t', rfl, hr⟩ := hr
    left
    rcases step.lease with ⟨t, ht, hattempt, -, hrun⟩ | ⟨t, token, -, hl, -⟩ | hinsert
    · rcases h with ⟨t0, ht0, -, ha, htoken⟩ | hidle
      · rw [ht] at ht0
        cases ht0
        exact ⟨t', rfl, hr, hattempt.trans ha, (hrun hr).2.trans htoken⟩
      · exact absurd (hrun hr).1 (hidle t ht)
    · exact absurd rfl (unclaimed _ hl)
    · exact absurd hinsert (not_or.mpr old)
  · right
    intro t ht hrun
    exact hr ⟨t, ht, hrun⟩

end Rows

/-! ## One step -/

theorem effects_no_claim {c : Call} (h : c.effects (.claim l)) :
    ∃ queueName worker names versions n ms, c = .claim queueName worker names versions n ms := by
  cases c <;> simp_all [Call.effects, Label.enqueues, Label.cascade, Label.spawns,
    Label.freshlySpawns, Label.waits,
    Label.timesOut, Label.bookkeeping, Label.materializes]

theorem exec_tasks {c : Call} {s s' : Session} (h : exec e c s = .ok (.tasks rows, s')) :
    ∃ queueName worker names versions n ms, c = .claim queueName worker names versions n ms := by
  cases c <;> simp_all [exec, map_eq_ok, reply]

theorem filterMap_leaseOf {leases : List Lease}
    (h : List.Forall₂ HandsOut rows leases) : rows.filterMap leaseOf = leases := by
  induction h with
  | nil => rfl
  | cons head _ ih =>
    obtain ⟨hid, hattempt, htoken, -⟩ := head
    rw [filterMap_cons_some (b := _) (by unfold leaseOf; rw [htoken]; rfl), ih, hid, hattempt]

theorem handsOut_row {leases : List Lease}
    (h : List.Forall₂ HandsOut rows leases) (hl : l ∈ leases) : ∃ x ∈ rows, HandsOut x l := by
  induction h with
  | nil => cases hl
  | cons head _ ih =>
    rcases mem_cons.mp hl with rfl | hl
    · exact ⟨_, mem_cons_self, head⟩
    · obtain ⟨x, hx, hands⟩ := ih hl
      exact ⟨x, mem_cons_of_mem _ hx, hands⟩

theorem step_path (server : Server) (w : World) (r : Request) :
    ∃ ls, Effects (server.envAt r.now) ls w.session (step server w r).2.session ∧
      (∀ l ∈ ls, r.call.effects l) ∧ (∀ l, .claim l ∈ ls ↔ l ∈ handsOut server w r) ∧
      ∀ l ∈ handsOut server w r, l.passes (step server w r).2.db := by
  rcases step_spec server w r with ⟨reply', s', hexec, hs', hout, ls, path, hls⟩ | ⟨error, hout, hw⟩
  · by_cases hclaim : ∃ queueName worker names versions n ms,
        r.call = .claim queueName worker names versions n ms
    · obtain ⟨queueName, worker, names, versions, n, ms, hcall⟩ := hclaim
      rw [hcall] at hexec
      obtain ⟨rows, hrows, hreply⟩ := reply_ok hexec
      obtain ⟨leases, path, hf, -, -, hin⟩ := claim_spec hrows
      have hleases : handsOut server w r = leases := by
        unfold handsOut
        rw [hout, ← hreply]
        exact filterMap_leaseOf hf
      refine ⟨_, hs' ▸ path, fun l hl => ?_, fun l => ?_, fun l hl => ?_⟩
      · obtain ⟨lease, -, rfl⟩ := List.mem_map.mp hl
        rw [hcall]
        exact ⟨lease, rfl⟩
      · rw [hleases, List.mem_map_of_injective fun a b h => by cases h; rfl]
      · obtain ⟨x, hx, hid, hattempt, htoken, hrun⟩ := handsOut_row hf (hleases ▸ hl)
        refine passes_iff.mpr ⟨x.2, ?_, hrun, hattempt, htoken⟩
        rw [← World.session_db, ← hs', ← hid]
        exact (hin x hx).1
    · have hnone : handsOut server w r = [] := by
        unfold handsOut
        rw [hout]
        split
        · rename_i rows heq
          cases heq
          exact absurd (exec_tasks hexec) hclaim
        · rfl
      rw [hnone]
      refine ⟨ls, path, hls, fun l => ⟨fun hl => ?_, fun hl => by cases hl⟩, fun l hl => by cases hl⟩
      exact absurd (effects_no_claim (hls _ hl)) hclaim
  · have hnone : handsOut server w r = [] := by
      unfold handsOut
      rw [hout]
    rw [hnone, hw]
    exact ⟨[], .nil _, by simp, fun l => by simp, fun l hl => by cases hl⟩

section Steps

variable {w : World} {r : Request} (born : Born server w.drawn l.taskId)
  (distinct : server.Distinct (step server w r).2.drawn)
include born distinct

theorem step_keeps_over (h : l.over (w.db.tasks.get? l.taskId)) :
    l.over ((step server w r).2.db.tasks.get? l.taskId) := by
  obtain ⟨ls, path, -⟩ := step_path server w r
  exact path.keeps (P := fun s => l.over (s.db.tasks.get? l.taskId))
    (fun _ _ _ old effect => (effect.row _).keeps_over old) (born_not_inserted born distinct path) h

theorem step_keeps_issued (h : l.issued (w.db.tasks.get? l.taskId)) :
    l.issued ((step server w r).2.db.tasks.get? l.taskId) := by
  obtain ⟨ls, path, -⟩ := step_path server w r
  exact path.keeps (P := fun s => l.issued (s.db.tasks.get? l.taskId))
    (fun _ _ _ old effect => (effect.row _).keeps_issued old) (born_not_inserted born distinct path) h

theorem step_claim_over {l' : Lease} (h : l.issued (w.db.tasks.get? l.taskId))
    (hl : l' ∈ handsOut server w r) (hid : l'.taskId = l.taskId) :
    l.over ((step server w r).2.db.tasks.get? l.taskId) := by
  obtain ⟨ls, path, -, hclaims, -⟩ := step_path server w r
  have hold := born_not_inserted born distinct path
  obtain ⟨before, after, s1, s2, rfl, first, claim, last⟩ := path.split ((hclaims l').mpr hl)
  rw [forall_mem_append, forall_mem_cons] at hold
  -- The lease is issued up to the claim, and over from there.
  have h1 := first.keeps (P := fun s => l.issued (s.db.tasks.get? l.taskId))
    (fun _ _ _ old effect => (effect.row _).keeps_issued old) hold.1 h
  have h2 := (claim.row _).claim_over hold.2.1 h1 rfl hid
  exact last.keeps (P := fun s => l.over (s.db.tasks.get? l.taskId))
    (fun _ _ _ old effect => (effect.row _).keeps_over old) hold.2.2 h2

theorem step_keeps_match (unclaimed : ∀ l' ∈ handsOut server w r, l'.taskId ≠ l.taskId)
    (h : l.passes w.db) (hruns : Runs (step server w r).2 l.taskId) :
    l.passes (step server w r).2.db := by
  obtain ⟨ls, path, -, hclaims, -⟩ := step_path server w r
  have hold := born_not_inserted born distinct path
  have hlabels : ∀ label ∈ ls, (label ≠ .insert l.taskId ∧ label ≠ .materialize l.taskId) ∧
      ∀ l', label = .claim l' → l'.taskId ≠ l.taskId := by
    intro label hlabel
    refine ⟨hold label hlabel, ?_⟩
    rintro l' rfl
    exact unclaimed l' ((hclaims l').mp hlabel)
  have hend := path.keeps
    (P := fun s => l.matchesRow (s.db.tasks.get? l.taskId) ∨
      ∀ t, s.db.tasks.get? l.taskId = some t → t.state ≠ .running)
    (fun _ _ _ hl effect => (effect.row _).keeps_match hl.1 hl.2) hlabels (.inl (passes_iff.mp h))
  rcases hend with hm | hidle
  · exact passes_iff.mpr hm
  · obtain ⟨t, ht, hrun⟩ := hruns
    exact absurd hrun (hidle t ht)

end Steps

/-! ## Runs -/

theorem stillHeld_concat {since : List Request} {r' : Request} :
    StillHeld server before r (since ++ [r']) l ↔ StillHeld server before r since l ∧
        (∀ l' ∈ handsOut server (run server (before ++ r :: since)) r', l'.taskId ≠ l.taskId) ∧
        Runs (step server (run server (before ++ r :: since)) r').2 l.taskId := by
  have hlast : run server (before ++ r :: (since ++ [r'])) =
      (step server (run server (before ++ r :: since)) r').2 := by
    rw [← cons_append, ← append_assoc, run_concat]
  constructor
  · rintro ⟨hruns, hclaims⟩
    refine ⟨⟨fun a b h => ?_, fun a r'' b h => ?_⟩, ?_, ?_⟩
    · exact hruns a (b ++ [r']) (by rw [h, append_assoc])
    · exact hclaims a r'' (b ++ [r']) (by rw [h, append_assoc, cons_append])
    · exact hclaims since r' [] rfl
    · rw [← hlast]
      exact hruns _ [] (append_nil _).symm
  · rintro ⟨⟨hruns, hclaims⟩, hnone, hend⟩
    constructor
    · intro a b h
      rcases eq_nil_or_concat b with rfl | ⟨b, x, rfl⟩
      · rw [append_nil] at h
        rw [← h, hlast]
        exact hend
      · rw [concat_eq_append, ← append_assoc] at h
        exact hruns a b (append_inj_left' h rfl)
    · intro a r'' b h
      rcases eq_nil_or_concat b with rfl | ⟨b, x, rfl⟩
      · obtain ⟨rfl, hr⟩ := append_inj' h rfl
        cases hr
        exact hnone
      · rw [concat_eq_append, ← cons_append, ← append_assoc] at h
        exact hclaims a r'' b (append_inj_left' h rfl)

theorem handed_out (hl : l ∈ handsOut server (run server before) r) :
    l.passes (run server (before ++ [r])).db ∧
      Born server (run server (before ++ [r])).drawn l.taskId := by
  have hpass : l.passes (run server (before ++ [r])).db := by
    rw [run_concat]
    obtain ⟨-, -, -, -, h⟩ := step_path server (run server before) r
    exact h l hl
  obtain ⟨t, ht, -⟩ := passes_iff.mp hpass
  exact ⟨hpass, run_born server _ _ t ht⟩

theorem passes_iff_stillHeld {since : List Request}
    (distinct : server.Distinct (run server (before ++ r :: since)).drawn)
    (hl : l ∈ handsOut server (run server before) r) :
    l.issued ((run server (before ++ r :: since)).db.tasks.get? l.taskId) ∧
      (l.passes (run server (before ++ r :: since)).db ↔ StillHeld server before r since l) := by
  induction since using List.reverseRecOn with
  | nil =>
    obtain ⟨hpass, -⟩ := handed_out hl
    refine ⟨(passes_iff.mp hpass).issued, fun _ => ⟨fun a b h => ?_, fun a r' b h => ?_⟩, fun _ => hpass⟩
    · obtain ⟨rfl, rfl⟩ := append_eq_nil_iff.mp h.symm
      obtain ⟨t, ht, hr, -⟩ := passes_iff.mp hpass
      exact ⟨t, ht, hr⟩
    · simp at h
  | append_singleton since r' ih =>
    have hlast : run server (before ++ r :: (since ++ [r'])) =
        (step server (run server (before ++ r :: since)) r').2 := by
      rw [← cons_append, ← append_assoc, run_concat]
    rw [hlast] at distinct ⊢
    set w := run server (before ++ r :: since) with hw
    obtain ⟨hissued, hiff⟩ := ih (distinct.mono (step_drawn_le w r'))
    have hborn : Born server w.drawn l.taskId := by
      refine (handed_out hl).2.mono ?_
      have hle := run_drawn_le server (before ++ [r]) since
      rwa [append_assoc, singleton_append] at hle
    refine ⟨step_keeps_issued hborn distinct hissued, ?_⟩
    rw [stillHeld_concat, ← hiff]
    constructor
    · intro hpass
      have hnow : l.passes w.db := by
        rcases hissued.cases with hm | hover
        · exact passes_iff.mpr hm
        · exact absurd (passes_iff.mp hpass) (step_keeps_over hborn distinct hover).not_matches
      refine ⟨hnow, fun l' hl' hid => ?_, ?_⟩
      · exact (step_claim_over hborn distinct hissued hl' hid).not_matches (passes_iff.mp hpass)
      · obtain ⟨t, ht, hr, -⟩ := passes_iff.mp hpass
        exact ⟨t, ht, hr⟩
    · rintro ⟨hnow, hnone, hruns⟩
      exact step_keeps_match hborn distinct hnone hnow hruns

def HandedOut (server : Server) (rs : List Request) (l : Lease) : Prop :=
  ∃ before r since, rs = before ++ r :: since ∧ l ∈ handsOut server (run server before) r

theorem HandedOut.concat {rs : List Request} (h : HandedOut server rs l) (r : Request) :
    HandedOut server (rs ++ [r]) l := by
  obtain ⟨before, r0, since, rfl, hl⟩ := h
  exact ⟨before, r0, since ++ [r], by simp, hl⟩

theorem HandedOut.passes_before {rs : List Request} (h : HandedOut server rs l)
    (distinct : server.Distinct (run server (rs ++ [r])).drawn)
    (hpass : l.passes (run server (rs ++ [r])).db) :
    l.passes (run server rs).db ∧ ∀ l' ∈ handsOut server (run server rs) r, l'.taskId ≠ l.taskId := by
  obtain ⟨before, r0, since, rfl, hl⟩ := h
  have hdrawn : server.Distinct (run server (before ++ r0 :: since)).drawn :=
    distinct.mono (run_drawn_le server _ [r])
  rw [append_assoc, cons_append] at distinct hpass
  have hheld := (passes_iff_stillHeld distinct hl).2.mp hpass
  rw [stillHeld_concat] at hheld
  exact ⟨(passes_iff_stillHeld hdrawn hl).2.mpr hheld.1, hheld.2.1⟩

theorem handsOut_nodup (w : World) (r : Request) :
    ((handsOut server w r).map Lease.taskId).Nodup := by
  have sublist : ∀ rows : List (Uuid × Task),
      ((rows.filterMap leaseOf).map Lease.taskId).Sublist (rows.map Prod.fst) := by
    intro rows
    induction rows with
    | nil => exact List.Sublist.slnil
    | cons row rows ih =>
      cases h : row.2.leaseToken with
      | none =>
        have hnone : leaseOf row = none := by simp [leaseOf, h]
        rw [filterMap_cons_none hnone]
        exact ih.cons _
      | some token =>
        have hsome : leaseOf row = some ⟨row.1, row.2.attempt, token⟩ := by simp [leaseOf, h]
        rw [filterMap_cons_some hsome]
        exact ih.cons_cons _
  unfold handsOut
  split
  · rename_i rows hout
    obtain ⟨s', hexec, -⟩ := step_returned hout
    obtain ⟨queueName, worker, names, versions, n, ms, hcall⟩ := exec_tasks hexec
    rw [hcall] at hexec
    obtain ⟨claimed, hclaim, hreply⟩ := reply_ok hexec
    cases hreply
    obtain ⟨-, -, -, -, hnodup, -⟩ := claim_spec hclaim
    exact (sublist rows).nodup hnodup
  · exact nodup_nil

end Pgtask
