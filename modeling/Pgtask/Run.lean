import Pgtask.Effect.Exec

/-!
# Runs

A run is a list of calls, each one atomic step at its own `statement_timestamp()`.
It starts from the database that the migrations leave.
-/

open Sql

namespace Pgtask

/-- What lasts from one call to the next. -/
structure World where
  db : Database := {}
  drawn : Nat := 0

def World.session (w : World) : Session := ⟨w.db, w.drawn, []⟩

@[simp] theorem World.session_db (w : World) : w.session.db = w.db := rfl

@[simp] theorem World.session_drawn (w : World) : w.session.drawn = w.drawn := rfl

@[simp] theorem World.session_queued (w : World) : w.session.queued = [] := rfl

structure Request where
  now : Timestamp
  call : Call

inductive Outcome
  | returned (reply : Reply)
  | raised (error : SqlError)
  deriving DecidableEq

def Outcome.rows : Outcome → List (Uuid × Task)
  | .returned (.tasks rows) => rows
  | _ => []

def Server.envAt (server : Server) (now : Timestamp) : Env := { server with now := now }

def step (server : Server) (w : World) (r : Request) : Outcome × World :=
  match exec (server.envAt r.now) r.call w.session with
  | .ok (reply, s) => (.returned reply, ⟨s.db, s.drawn⟩)
  | .error error => (.raised error, w)

def runFrom (server : Server) (w : World) (rs : List Request) : World :=
  rs.foldl (fun w r => (step server w r).2) w

def run (server : Server) (rs : List Request) : World := runFrom server {} rs

/-- `gen_random_uuid` has not repeated a value among its first `n`. -/
def Server.Distinct (server : Server) (n : Nat) : Prop :=
  ∀ i j, i < n → j < n → server.uuid i = server.uuid j → i = j

def countingServer : Server where
  uuid n := Uuid.ofNat (n + 1)
  timestampText _ := ""

theorem countingServer_distinct {n : Nat} (h : n < 2 ^ 128) : countingServer.Distinct n := by
  intro i j hi hj heq
  have hbits : BitVec.ofNat 128 (i + 1) = BitVec.ofNat 128 (j + 1) := congrArg Uuid.bits heq
  have hnat := congrArg BitVec.toNat hbits
  rw [BitVec.toNat_ofNat, BitVec.toNat_ofNat, Nat.mod_eq_of_lt (by omega),
    Nat.mod_eq_of_lt (by omega)] at hnat
  omega

variable {server : Server}

theorem runFrom_append (w : World) (rs rs' : List Request) :
    runFrom server w (rs ++ rs') = runFrom server (runFrom server w rs) rs' :=
  List.foldl_append

theorem run_append (rs rs' : List Request) :
    run server (rs ++ rs') = runFrom server (run server rs) rs' :=
  runFrom_append _ rs rs'

theorem run_concat (rs : List Request) (r : Request) :
    run server (rs ++ [r]) = (step server (run server rs) r).2 :=
  run_append rs [r]

/-! ## Steps as effects -/

/-- A step returns and is a sequence of effects of its call, or it raises and changes nothing. -/
theorem step_spec (server : Server) (w : World) (r : Request) :
    (∃ reply s', exec (server.envAt r.now) r.call w.session = .ok (reply, s') ∧
        s' = (step server w r).2.session ∧ (step server w r).1 = .returned reply ∧
        ∃ ls, Effects (server.envAt r.now) ls w.session (step server w r).2.session ∧
          ∀ l ∈ ls, r.call.effects l) ∨
      ∃ error, (step server w r).1 = .raised error ∧ (step server w r).2 = w := by
  unfold step
  cases h : exec (server.envAt r.now) r.call w.session with
  | error error => exact Or.inr ⟨error, rfl, rfl⟩
  | ok x =>
    obtain ⟨reply, s'⟩ := x
    obtain ⟨hpath, hq⟩ := exec_spec rfl h
    have hs' : s' = World.session ⟨s'.db, s'.drawn⟩ := by
      unfold World.session
      rw [← hq]
    exact Or.inl ⟨reply, s', rfl, hs', rfl, by rw [← hs']; exact hpath⟩

theorem step_returned {w : World} {r : Request} {reply : Reply}
    (h : (step server w r).1 = .returned reply) :
    ∃ s', exec (server.envAt r.now) r.call w.session = .ok (reply, s') ∧
      s' = (step server w r).2.session := by
  rcases step_spec server w r with ⟨reply', s', hexec, hs', hout, -⟩ | ⟨error, hout, -⟩
  · rw [hout] at h
    cases h
    exact ⟨s', hexec, hs'⟩
  · rw [hout] at h
    cases h

theorem step_raised {w : World} {r : Request} {error : SqlError}
    (h : (step server w r).1 = .raised error) :
    exec (server.envAt r.now) r.call w.session = .error error ∧ (step server w r).2 = w := by
  unfold step at h ⊢
  split at h
  · cases h
  · cases h
    exact ⟨‹_›, rfl⟩

theorem step_of_exec {w : World} {r : Request} {reply : Reply} {s' : Session}
    (h : exec (server.envAt r.now) r.call w.session = .ok (reply, s')) :
    step server w r = (.returned reply, ⟨s'.db, s'.drawn⟩) := by
  unfold step
  rw [h]

theorem step_keeps {I : Session → Prop} {w : World} {r : Request}
    (keeps : ∀ l s s', r.call.effects l → Effect (server.envAt r.now) l s s' → I s → I s')
    (h : I w.session) : I (step server w r).2.session := by
  rcases step_spec server w r with ⟨-, -, -, -, -, ls, path, hls⟩ | ⟨-, -, hw⟩
  · exact path.keeps keeps hls h
  · rw [hw]
    exact h

theorem runFrom_rule {I : World → Prop} {rs : List Request}
    (keeps : ∀ w, ∀ r ∈ rs, I w → I (step server w r).2) {w : World} (start : I w) :
    I (runFrom server w rs) :=
  List.foldlRecOn rs _ start fun w h r hr => keeps w r hr h

/-- The rule of runs: what holds at first and what every step keeps, holds after every run. -/
theorem run_rule {I : World → Prop} (start : I {})
    (keeps : ∀ rs r, I (run server rs) → I (step server (run server rs) r).2) (rs : List Request) :
    I (run server rs) := by
  induction rs using List.reverseRecOn with
  | nil => exact start
  | append_singleton rs r ih =>
    rw [run_concat]
    exact keeps rs r ih

theorem run_keeps {I : Session → Prop} (start : I (World.session {}))
    (keeps : ∀ e l s s', Effect e l s s' → I s → I s') (rs : List Request) :
    I (run server rs).session :=
  run_rule (I := fun w => I w.session) start
    (fun _ _ h => step_keeps (fun l s s' _ => keeps _ l s s') h) rs

/-- Every step of the run meets a condition in the world it starts from. -/
def EveryStep (server : Server) (ok : World → Request → Prop) (rs : List Request) : Prop :=
  ∀ before r after, rs = before ++ r :: after → ok (run server before) r

theorem split_of_fin {ok : List Request → Request → Prop} {rs : List Request}
    (h : ∀ i : Fin rs.length, ok (rs.take i) (rs.get i)) {before after : List Request} {r : Request}
    (hrs : rs = before ++ r :: after) : ok before r := by
  subst hrs
  have := h ⟨before.length, by simp⟩
  simpa using this

theorem everyStep_of_fin {ok : World → Request → Prop} {rs : List Request}
    (h : ∀ i : Fin rs.length, ok (run server (rs.take i)) (rs.get i)) : EveryStep server ok rs :=
  fun _ _ _ => @split_of_fin (fun before r => ok (run server before) r) rs h _ _ _

theorem run_rule_of {I : World → Prop} {ok : World → Request → Prop} (start : I {})
    (keeps : ∀ rs r, ok (run server rs) r → I (run server rs) → I (step server (run server rs) r).2)
    (rs : List Request) (h : EveryStep server ok rs) : I (run server rs) := by
  induction rs using List.reverseRecOn with
  | nil => exact start
  | append_singleton rs r ih =>
    rw [run_concat]
    refine keeps rs r (h rs r [] rfl) (ih ?_)
    intro before r' after hrs
    exact h before r' (after ++ [r]) (by rw [hrs, List.append_assoc, List.cons_append])

end Pgtask
