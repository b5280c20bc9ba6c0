import Pgtask.Sdk.TypeScript

/-!
# The listener of the TypeScript client

`ResultListener` with a step for the code between two awaits. An event of the connection can come
between any two steps, and the answer to a LISTEN can come after it.
-/

open Sql Option

namespace Pgtask.Sdk.TypeScript.Listener

inductive Stage
  | connecting (promise : Nat)
  | connected (client : Nat)
  | listening (client : Nat)
  | subscribed (set : Nat)
  | ended
  deriving DecidableEq

structure Waiter where
  channel : String
  taskId : String
  stage : Stage
  notified : Signal := .pending

/-- `#client`, `#connecting`, `#channels` and `#waiters`. A set of waiters has a number, since
`unsubscribe` keeps a set that the map may have lost. `promises` are the clients of the promises
that have resolved, and `listens` the channels of a connection at the server. -/
structure State where
  client : Option Nat := none
  clients : Nat := 0
  connecting : Option Nat := none
  promises : Nat → Option Nat := fun _ => none
  promised : Nat := 0
  channels : List String := []
  listens : Nat → List String := fun _ => []
  waiters : Table String Nat := .empty
  sets : Nat → List Nat := fun _ => []
  created : Nat := 0
  calls : Nat → Option Waiter := fun _ => none

inductive Move
  | call (c : Nat) (channel taskId : String)
  | connected (promise : Nat)
  | resume (c : Nat)
  | proceed (c : Nat)
  | listened (c : Nat)
  | fail (c : Nat)
  | unsubscribe (c : Nat)
  | notification (payload : String)
  | error
  | close

namespace State

def put (s : State) (c : Nat) (w : Waiter) : State := { s with calls := Function.update s.calls c (some w) }

def connect (s : State) (c : Nat) (channel taskId : String) : State :=
  match s.client, s.connecting with
  | some client, _ => s.put c { channel, taskId, stage := .connected client }
  | none, some promise => s.put c { channel, taskId, stage := .connecting promise }
  | none, none =>
    { s.put c { channel, taskId, stage := .connecting s.promised } with
      connecting := some s.promised, promised := s.promised + 1 }

/-- The end of `subscribe`. The set `created` is new and empty. -/
def subscribe (s : State) (c : Nat) (w : Waiter) : State :=
  let set := (s.waiters.get? w.taskId).getD s.created
  { s.put c { w with stage := .subscribed set } with
    waiters := s.waiters.put w.taskId set
    sets := Function.update s.sets set (c :: s.sets set)
    created := max s.created (set + 1) }

def unsubscribe (s : State) (c : Nat) (w : Waiter) (set : Nat) : State :=
  let members := (s.sets set).filter (· ≠ c)
  { s.put c { w with stage := .ended } with
    sets := Function.update s.sets set members
    waiters := if members.isEmpty then s.waiters.set w.taskId none else s.waiters }

def settle (s : State) (found : Nat → Bool) (new : Signal) : State :=
  { s with calls := fun c => (s.calls c).map fun w =>
      if found c then { w with notified := new.settle w.notified } else w }

def onNotification (s : State) (payload : String) : State :=
  s.settle (fun c => (s.waiters.get? payload).any fun set => (s.sets set).contains c) .resolved

def clear (s : State) : State := { s with client := none, channels := [], waiters := .empty }

def onError (s : State) : State :=
  (s.settle (fun c => s.waiters.rows.any fun x => (s.sets x.2).contains c) .rejected).clear

def move (s : State) : Move → Option State
  | .call c channel taskId => if (s.calls c).isNone then some (s.connect c channel taskId) else none
  | .connected promise =>
    if promise < s.promised && (s.promises promise).isNone then
      some { s with
        promises := Function.update s.promises promise (some s.clients)
        client := some s.clients
        clients := s.clients + 1 }
    else none
  | .resume c => do
    let w ← s.calls c
    match w.stage with
    | .connecting promise => (s.promises promise).map fun client =>
      { s.put c { w with stage := .connected client } with connecting := none }
    | _ => none
  | .proceed c => do
    let w ← s.calls c
    match w.stage with
    | .connected client =>
      if s.channels.contains w.channel then some (s.subscribe c w)
      else some (s.put c { w with stage := .listening client })
    | _ => none
  | .listened c => do
    let w ← s.calls c
    match w.stage with
    | .listening client =>
      let s := { s with
        listens := Function.update s.listens client (w.channel :: s.listens client)
        channels := w.channel :: s.channels }
      some (s.subscribe c w)
    | _ => none
  | .fail c => do
    let w ← s.calls c
    match w.stage with
    | .connecting _ | .connected _ | .listening _ => some (s.put c { w with stage := .ended })
    | _ => none
  | .unsubscribe c => do
    let w ← s.calls c
    match w.stage with
    | .subscribed set => some (s.unsubscribe c w set)
    | _ => none
  | .notification payload => some (s.onNotification payload)
  | .error => some s.onError
  | .close => some s.clear

end State

/-- The subscription is returned, not given up, and neither notified nor rejected. -/
def Waiter.Live (w : Waiter) (set : Nat) : Prop := w.stage = .subscribed set ∧ w.notified = .pending

instance (w : Waiter) (set : Nat) : Decidable (w.Live set) := inferInstanceAs (Decidable (_ ∧ _))

def State.Hears (s : State) (channel : String) : Prop :=
  ∃ client, s.client = some client ∧ channel ∈ s.listens client

/-- The subscription is where a notification and an error look for it. -/
structure State.Keeps (s : State) (c : Nat) (w : Waiter) (set : Nat) : Prop where
  stored : s.waiters.get? w.taskId = some set
  member : c ∈ s.sets set
  heard : s.Hears w.channel

/-- The condition on a move: an answer to a LISTEN comes on the current connection, no connection
is replaced while it is open, a set that becomes empty is not the one before the current one of its
task, and the listener is closed only without subscriptions. -/
def Orderly (s : State) : Move → Prop
  | .connected _ => s.client = none
  | .listened c => ∀ w client, s.calls c = some w → w.stage = .listening client → s.client = some client
  | .unsubscribe c => ∀ w set, s.calls c = some w → w.stage = .subscribed set →
      (∀ d ∈ s.sets set, d = c) → ∀ current, s.waiters.get? w.taskId = some current → current = set
  | .close => ∀ c w set, s.calls c = some w → ¬ w.Live set
  | _ => True

structure Inv (s : State) : Prop where
  channels : ∀ channel ∈ s.channels, s.Hears channel
  kept : ∀ c w set, s.calls c = some w → w.Live set → s.Keeps c w set

theorem Inv.start : Inv {} := ⟨by simp, by simp⟩

/-! ## Steps -/

variable {s s' : State} {c : Nat} {w : Waiter}

theorem put_cases {d : Nat} {x : Waiter} (h : (s.put c w).calls d = some x) :
    d = c ∧ x = w ∨ d ≠ c ∧ s.calls d = some x := by
  unfold State.put at h
  by_cases hd : d = c
  · subst hd
    simp only [Function.update_self, Option.some.injEq] at h
    exact .inl ⟨rfl, h.symm⟩
  · simp only [Function.update_of_ne hd] at h
    exact .inr ⟨hd, h⟩

theorem Inv.put (inv : Inv s) (idle : ∀ set, w.stage ≠ .subscribed set) (connecting : Option Nat)
    (promised : Nat) : Inv { s.put c w with connecting, promised } := by
  refine ⟨inv.channels, ?_⟩
  intro d x set row live
  obtain ⟨rfl, rfl⟩ | ⟨-, row⟩ := put_cases row
  · exact absurd live.1 (idle set)
  · obtain ⟨stored, member, heard⟩ := inv.kept d x set row live
    exact ⟨stored, member, heard⟩

theorem Inv.connect (inv : Inv s) (channel taskId : String) : Inv (s.connect c channel taskId) := by
  unfold State.connect
  split
  · exact inv.put (by simp) s.connecting s.promised
  · exact inv.put (by simp) s.connecting s.promised
  · exact inv.put (by simp) _ _

theorem Inv.subscribe (inv : Inv s) (heard : s.Hears w.channel) : Inv (s.subscribe c w) := by
  refine ⟨inv.channels, ?_⟩
  intro d x set row live
  obtain ⟨rfl, rfl⟩ | ⟨-, row⟩ := put_cases row
  · cases live.1
    refine ⟨Table.get?_put_self _ _ _, ?_, heard⟩
    simp [State.subscribe]
  · obtain ⟨stored, member, heard'⟩ := inv.kept d x set row live
    refine ⟨?_, ?_, heard'⟩
    · -- The set of the task is the one that the map has already.
      simp only [State.subscribe, Table.get?_put]
      split
      · rename_i heq
        rw [← heq, stored]
        rfl
      · exact stored
    · unfold State.subscribe
      dsimp only
      by_cases hset : set = (s.waiters.get? w.taskId).getD s.created
      · subst hset
        rw [Function.update_self]
        exact List.mem_cons_of_mem _ member
      · rw [Function.update_of_ne hset]
        exact member

theorem Inv.listen {client : Nat} (inv : Inv s) (current : s.client = some client) (channel : String) :
    let s' := { s with
      listens := Function.update s.listens client (channel :: s.listens client)
      channels := channel :: s.channels }
    Inv s' ∧ s'.Hears channel := by
  intro s'
  have hnew : s'.Hears channel := ⟨client, current, by simp [s']⟩
  have hold : ∀ other, s.Hears other → s'.Hears other := by
    rintro other ⟨client', hclient, hother⟩
    cases hclient.symm.trans current
    refine ⟨client, current, ?_⟩
    simp only [s', Function.update_self]
    exact List.mem_cons_of_mem _ hother
  refine ⟨⟨?_, ?_⟩, hnew⟩
  · intro other hother
    obtain rfl | hother := List.mem_cons.mp hother
    · exact hnew
    · exact hold other (inv.channels other hother)
  · intro d x set row live
    obtain ⟨stored, member, heard⟩ := inv.kept d x set row live
    exact ⟨stored, member, hold x.channel heard⟩

theorem Inv.unsubscribe {set : Nat} (inv : Inv s) (own : (∀ d ∈ s.sets set, d = c) →
    ∀ current, s.waiters.get? w.taskId = some current → current = set) : Inv (s.unsubscribe c w set) := by
  refine ⟨inv.channels, ?_⟩
  intro d x set' row live
  obtain ⟨rfl, rfl⟩ | ⟨hne, row⟩ := put_cases row
  · cases live.1
  · obtain ⟨stored, member, heard⟩ := inv.kept d x set' row live
    refine ⟨?_, ?_, heard⟩
    · unfold State.unsubscribe
      dsimp only
      split
      · rename_i hempty
        have hlast : ∀ d ∈ s.sets set, d = c := by
          simpa [List.filter_eq_nil_iff] using hempty
        rw [Table.get?_set, if_neg]
        · exact stored
        · intro heq
          rw [heq] at stored
          cases own hlast set' stored
          exact hne (hlast d member)
      · exact stored
    · unfold State.unsubscribe
      dsimp only
      by_cases hset : set' = set
      · subst hset
        rw [Function.update_self]
        exact List.mem_filter.mpr ⟨member, by simpa using hne⟩
      · rw [Function.update_of_ne hset]
        exact member

theorem settle_cases {found : Nat → Bool} {new : Signal} (settled : new ≠ .pending) {set : Nat}
    (row : (s.settle found new).calls c = some w) (live : w.Live set) :
    s.calls c = some w ∧ found c = false := by
  obtain ⟨old, hold, hw⟩ := map_eq_some_iff.mp row
  cases hfound : found c with
  | false =>
    rw [hfound] at hw
    cases hw
    exact ⟨hold, rfl⟩
  | true =>
    rw [hfound] at hw
    cases hw
    have hpending := live.2
    cases hnotified : old.notified <;> simp [hnotified, Signal.settle] at hpending
    exact absurd hpending settled

theorem Inv.settle (inv : Inv s) (found : Nat → Bool) {new : Signal} (settled : new ≠ .pending) :
    Inv (s.settle found new) := by
  refine ⟨inv.channels, ?_⟩
  intro d x set row live
  obtain ⟨stored, member, heard⟩ := inv.kept d x set (settle_cases settled row live).1 live
  exact ⟨stored, member, heard⟩

theorem State.Keeps.found {set : Nat} (h : s.Keeps c w set) :
    (s.waiters.rows.any fun x => (s.sets x.2).contains c) = true := by
  rw [List.any_eq_true]
  exact ⟨(w.taskId, set), Table.mem_rows_iff.mpr h.stored, by simpa using h.member⟩

theorem Inv.clear (idle : ∀ c w set, s.calls c = some w → ¬ w.Live set) : Inv s.clear := by
  refine ⟨by simp [State.clear], ?_⟩
  intro d x set row live
  exact absurd live (idle d x set row)

theorem Inv.onError (inv : Inv s) : Inv s.onError := by
  refine Inv.clear ?_
  intro d x set row live
  obtain ⟨row, hfound⟩ := settle_cases (by decide) row live
  exact Bool.false_ne_true (hfound.symm.trans (inv.kept d x set row live).found)

theorem move_inv {m : Move} (orderly : Orderly s m) (h : s.move m = some s') (inv : Inv s) : Inv s' := by
  cases m with
  | call c channel taskId =>
    obtain ⟨-, h⟩ := ite_none_right_eq_some.mp h
    cases h
    exact inv.connect channel taskId
  | connected promise =>
    obtain ⟨-, h⟩ := ite_none_right_eq_some.mp h
    cases h
    have hdeaf : ∀ channel, ¬ s.Hears channel := by
      rintro channel ⟨client, hclient, -⟩
      exact absurd (orderly.symm.trans hclient) (by simp)
    refine ⟨?_, ?_⟩
    · intro channel hchannel
      exact absurd (inv.channels channel hchannel) (hdeaf channel)
    · intro d x set row live
      exact absurd (inv.kept d x set row live).heard (hdeaf x.channel)
  | resume c =>
    obtain ⟨w, row, h⟩ := bind_eq_some_iff.mp h
    split at h
    · obtain ⟨client, -, rfl⟩ := map_eq_some_iff.mp h
      exact inv.put (by simp) none s.promised
    · cases h
  | proceed c =>
    obtain ⟨w, row, h⟩ := bind_eq_some_iff.mp h
    split at h
    · split at h
      · rename_i hchannel
        cases h
        exact inv.subscribe (inv.channels w.channel (List.contains_iff_mem.mp hchannel))
      · cases h
        exact inv.put (by simp) s.connecting s.promised
    · cases h
  | listened c =>
    obtain ⟨w, row, h⟩ := bind_eq_some_iff.mp h
    split at h
    · rename_i client hstage
      cases h
      obtain ⟨inv', heard⟩ := inv.listen (orderly w client row hstage) w.channel
      exact inv'.subscribe heard
    · cases h
  | fail c =>
    obtain ⟨w, row, h⟩ := bind_eq_some_iff.mp h
    split at h <;> cases h <;> exact inv.put (by simp) s.connecting s.promised
  | unsubscribe c =>
    obtain ⟨w, row, h⟩ := bind_eq_some_iff.mp h
    split at h
    · rename_i set hstage
      cases h
      exact inv.unsubscribe (orderly w set row hstage)
    · cases h
  | notification payload =>
    cases h
    exact inv.settle _ (by decide)
  | error =>
    cases h
    exact inv.onError
  | close =>
    cases h
    exact Inv.clear orderly

theorem settle_found {found : Nat → Bool} {set : Nat} (row : s.calls c = some w) (live : w.Live set)
    (hfound : found c = true) (new : Signal) :
    ((s.settle found new).calls c).map Waiter.notified = some new := by
  simp [State.settle, row, hfound, live.2, Signal.settle]

/-- After orderly moves a live subscription is stored and its channel heard, and so a notification
of its task or an error settles it. -/
theorem live_subscription_kept (moves : List Move) (s : State)
    (h : Machine.runs State.move {} moves = some s)
    (orderly : Machine.EveryMove State.move Orderly {} moves) (c : Nat) (w : Waiter) (set : Nat)
    (row : s.calls c = some w) (live : w.Live set) : s.Keeps c w set ∧
      ((s.onNotification w.taskId).calls c).map Waiter.notified = some .resolved ∧
      (s.onError.calls c).map Waiter.notified = some .rejected := by
  have inv := Machine.runs_rule (fun s m s' orderly h inv => move_inv orderly h inv) orderly h Inv.start
  have kept := inv.kept c w set row live
  refine ⟨kept, settle_found row live ?_ .resolved, ?_⟩
  · simpa [kept.stored] using kept.member
  · exact @settle_found s c w (fun d => s.waiters.rows.any fun x => (s.sets x.2).contains d) set row live
      kept.found .rejected

def subscribing (c promise : Nat) : List Move :=
  [.call c "pgtask_result_00" "a", .connected promise, .resume c, .proceed c, .listened c]

theorem first_subscription_kept : ∃ s w, Machine.runs State.move {} (subscribing 0 0) = some s ∧
    s.calls 0 = some w ∧ s.Keeps 0 w 0 := by
  have orderly : Machine.EveryMove State.move Orderly {} (subscribing 0 0) := by
    refine ⟨trivial, rfl, trivial, trivial, ?_, trivial⟩
    intro w client row hstage
    cases row
    cases hstage
    rfl
  refine ⟨_, _, rfl, rfl, ?_⟩
  exact (live_subscription_kept (subscribing 0 0) _ rfl orderly 0 _ 0 rfl ⟨rfl, rfl⟩).1

theorem late_unsubscribe_forgets : (Machine.runs State.move {}
      (subscribing 0 0 ++ [.error] ++ subscribing 1 1 ++ [.unsubscribe 0, .notification "a"])).any
      fun s => (s.calls 1).any fun w => w.Live 1 && s.waiters.get? w.taskId = none := by
  decide

end Pgtask.Sdk.TypeScript.Listener
