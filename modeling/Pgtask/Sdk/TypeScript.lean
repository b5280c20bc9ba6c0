import Pgtask.Sdk.Go

/-!
# Waiting for a result with the TypeScript client

`Client.waitResult` and the `ResultListener` that its calls share. The listener has one
connection, and keeps the waiters of the calls by the texts that the callers have passed.
-/

open Sql

namespace Pgtask.Sdk.TypeScript

variable {c : Nat}

inductive Signal
  | pending
  | resolved
  | rejected
  deriving DecidableEq

def Signal.settle (new : Signal) : Signal → Signal
  | .pending => new
  | old => old

/-- Where a call of `waitResult` is. A LISTEN belongs to the connection on which it was sent. -/
inductive Phase
  | connecting
  | listening (client : Nat)
  | listened (client : Nat)
  | firstRead
  | waiting
  | secondRead
  | done (answer : Answer)
  deriving DecidableEq

def Phase.subscribed : Phase → Bool
  | .firstRead | .waiting | .secondRead => true
  | _ => false

/-- `set` is the set of waiters in which `subscribe` has put the call. The ghost fields are the
notifications of the task that came while the call was subscribed, and what it has read last. -/
structure Call where
  id : Uuid
  text : String
  phase : Phase := .connecting
  set : Nat := 0
  notified : Signal := .pending
  heard : List Nat := []
  seen : Option TaskResult := none

/-- The connection of the listener: `#client` and `#channels`, the channels on which the server
takes it to listen, and the notifications on their way to it. -/
structure Link where
  client : Option Nat := none
  opened : Nat := 0
  channels : List String := []
  listens : List String := []
  inbox : List Nat := []

/-- `#waiters` maps a text to a set. The sets are numbered as they are made. -/
structure Process where
  db : Results
  calls : Nat → Option Call := fun _ => none
  link : Link := {}
  waiters : Table String Nat := .empty
  sets : Nat → List Nat := fun _ => []
  created : Nat := 0

inductive Move
  | change (id : Uuid) (c : Change)
  | call (c : Nat) (id : Uuid) (text : String)
  | connect (c : Nat)
  | listen (c : Nat)
  | listened (c : Nat)
  | read (c : Nat)
  | wake (c : Nat)
  | fail (c : Nat)
  | deliver
  | error
  | close

variable (hash : String → BitVec 64)

def Process.put (s : Process) (c : Nat) (call : Call) : Process :=
  { s with calls := Function.update s.calls c (some call) }

/-- `ResultListener.subscribe`, after its LISTEN. -/
def Process.subscribe (s : Process) (c : Nat) (call : Call) : Process :=
  match s.waiters.get? call.text with
  | some set =>
    { s.put c { call with phase := .firstRead, set } with
      sets := Function.update s.sets set (c :: s.sets set) }
  | none =>
    { s.put c { call with phase := .firstRead, set := s.created } with
      waiters := s.waiters.put call.text s.created
      sets := Function.update s.sets s.created [c]
      created := s.created + 1 }

def Process.unsubscribe (s : Process) (c : Nat) (call : Call) (answer : Answer) : Process :=
  let members := (s.sets call.set).filter (· ≠ c)
  { s.put c { call with phase := .done answer } with
    sets := Function.update s.sets call.set members
    waiters := if members.isEmpty then s.waiters.set call.text none else s.waiters }

def Link.connect (link : Link) : Link :=
  match link.client with
  | some _ => link
  | none => { link with client := some link.opened, opened := link.opened + 1, listens := [], inbox := [] }

def Link.notify (link : Link) (channel : String) (position : Nat) : Link :=
  if link.client.isSome && link.listens.contains channel then { link with inbox := link.inbox ++ [position] }
  else link

def Link.drop (link : Link) : Link := { opened := link.opened }

def Process.waitersOf (s : Process) (payload : String) : List Nat :=
  match s.waiters.get? payload with
  | some set => s.sets set
  | none => []

/-- A notification of the task `id` arrives. Every result channel has the name that
`#onNotification` asks for. -/
def Process.onNotification (s : Process) (position : Nat) (id : Uuid) : Process :=
  let woken := s.waitersOf id.text
  { s with calls := fun c => (s.calls c).map fun call =>
    { call with
      notified := if woken.contains c then Signal.resolved.settle call.notified else call.notified
      heard := if call.phase.subscribed && call.id = id then position :: call.heard else call.heard } }

def Process.onError (s : Process) : Process :=
  { s with
    calls := fun c => (s.calls c).map fun call =>
      if s.waiters.rows.any fun x => (s.sets x.2).contains c then
        { call with notified := Signal.rejected.settle call.notified }
      else call
    waiters := .empty
    link := s.link.drop }

/-- What a call does with the task that it has read. The second read is not looked at. -/
def Process.answer (s : Process) (c : Nat) (call : Call) (row : Option TaskResult) : Option Process :=
  match call.phase, row with
  | .firstRead, none | .secondRead, none => some (s.unsubscribe c { call with seen := row } .missing)
  | .firstRead, some r =>
    if r.state.terminal then some (s.unsubscribe c { call with seen := row } (.result r))
    else some (s.put c { call with phase := .waiting, seen := row })
  | .secondRead, some r => some (s.unsubscribe c { call with seen := row } (.result r))
  | _, _ => none

def Process.move (s : Process) : Move → Option Process
  | .change id c => (s.db.change id c).map fun db =>
    { s with db, link := if c.notifies then s.link.notify (resultChannel hash id) s.db.sent.length else s.link }
  | .call c id text =>
    if (s.calls c).isNone && Uuid.ofText? text = some id then some (s.put c { id, text }) else none
  | .connect c => do
    let call ← s.calls c
    match call.phase with
    | .connecting =>
      let link := s.link.connect
      if link.channels.contains (resultChannel hash call.id) then some ({ s with link }.subscribe c call)
      else link.client.map fun client => { s with link }.put c { call with phase := .listening client }
    | _ => none
  | .listen c => do
    let call ← s.calls c
    match call.phase with
    | .listening client =>
      if s.link.client = some client then
        let link := { s.link with listens := resultChannel hash call.id :: s.link.listens }
        some ({ s with link }.put c { call with phase := .listened client })
      else none
    | _ => none
  | .listened c => do
    let call ← s.calls c
    match call.phase with
    | .listened client =>
      if s.link.client = some client then
        let link := { s.link with channels := resultChannel hash call.id :: s.link.channels }
        some ({ s with link }.subscribe c call)
      else none
    | _ => none
  | .read c => do
    let call ← s.calls c
    s.answer c call (s.db.rows call.id)
  | .wake c => do
    let call ← s.calls c
    match call.phase, call.notified with
    | .waiting, .resolved => some (s.put c { call with phase := .secondRead })
    | .waiting, .rejected => some (s.unsubscribe c call .failed)
    | _, _ => none
  | .fail c => do
    let call ← s.calls c
    match call.phase with
    | .connecting | .listening _ | .listened _ => some (s.put c { call with phase := .done .failed })
    | .firstRead | .secondRead => some (s.unsubscribe c call .failed)
    | _ => none
  | .deliver =>
    match s.link.inbox with
    | position :: inbox =>
      let s := { s with link := { s.link with inbox } }
      (s.db.sent[position]?).map fun id => s.onNotification position id
    | [] => none
  | .error => some s.onError
  | .close => some { s with waiters := .empty, link := s.link.drop }

/-- A call waits, though its task has finished and the notification of its last end has come to
the listener since the call subscribed. -/
structure Process.Missed (s : Process) (call : Call) : Prop where
  waits : call.phase = .waiting
  pending : call.notified = .pending
  finished : Finished (s.db.rows call.id)
  notified : ∃ i ∈ call.heard, s.db.sent[i]? = some call.id ∧ ∀ k, i < k → s.db.sent[k]? ≠ some call.id

structure Process.Agrees (s : Process) (call : Call) : Prop where
  fits : ∀ answer, call.phase = .done answer → answer.Fits call.seen
  heard : ¬ s.Missed call

/-- Nobody retries the task, and the listener keeps its connection. -/
def Move.Calm (id : Uuid) : Move → Prop
  | .change j c => j = id → c ≠ .retry
  | .error | .close => False
  | _ => True

/-! ## Steps -/

/-- The answer of a call that is subscribed. Only the first read looks at the state. -/
def Process.Ends (s : Process) (call : Call) (seen : Option TaskResult) : Answer → Prop
  | .missing => seen = none
  | .result r => seen = some r ∧ (r.state.terminal = true ∨ call.phase = .secondRead ∧ s.db.rows call.id = some r)
  | .failed => True

inductive Step (id : Uuid) (s : Process) : Process → Prop
  | change {j : Uuid} {c : Change} {db : Results} (link : Link) (changed : s.db.change j c = some db)
      (calm : j = id → c ≠ .retry) : Step id s { s with db, link }
  | start {c : Nat} {j : Uuid} {text : String} (free : s.calls c = none) (named : Uuid.ofText? text = some j) :
      Step id s (s.put c { id := j, text })
  | advance {c : Nat} {call : Call} (link : Link) (seen : Option TaskResult) (phase : Phase)
      (row : s.calls c = some call) (kept : phase.subscribed = call.phase.subscribed)
      (ended : ∀ answer, phase = .done answer → answer = .failed)
      (woken : phase = .secondRead → call.notified = .resolved) :
      Step id s ({ s with link }.put c { call with phase, seen })
  | subscribe {c : Nat} {call : Call} (link : Link) (row : s.calls c = some call)
      (new : call.phase.subscribed = false) : Step id s ({ s with link }.subscribe c call)
  | unsubscribe {c : Nat} {call : Call} (seen : Option TaskResult) {answer : Answer}
      (row : s.calls c = some call) (subscribed : call.phase.subscribed = true) (ends : s.Ends call seen answer) :
      Step id s (s.unsubscribe c { call with seen } answer)
  | deliver {position : Nat} {j : Uuid} (link : Link) (sent : s.db.sent[position]? = some j) :
      Step id s ({ s with link }.onNotification position j)

variable {hash : String → BitVec 64} {id : Uuid} {s s' : Process} {m : Move}

theorem answer_step {call : Call} (row : s.calls c = some call)
    (h : s.answer c call (s.db.rows call.id) = some s') : Step id s s' := by
  unfold Process.answer at h
  split at h
  · rename_i hphase hrow
    cases h
    exact .unsubscribe _ row (by rw [hphase]; rfl) hrow
  · rename_i hphase hrow
    cases h
    exact .unsubscribe _ row (by rw [hphase]; rfl) hrow
  · rename_i r hphase hrow
    split at h
    · cases h
      exact .unsubscribe _ row (by rw [hphase]; rfl) ⟨hrow, .inl ‹_›⟩
    · cases h
      exact .advance s.link _ .waiting row (by rw [hphase]; rfl) nofun nofun
  · rename_i r hphase hrow
    cases h
    exact .unsubscribe _ row (by rw [hphase]; rfl) ⟨hrow, .inr ⟨hphase, hrow⟩⟩
  · cases h

theorem move_step (calm : m.Calm id) (h : s.move hash m = some s') : Step id s s' := by
  cases m with
  | change j c =>
    obtain ⟨db, hdb, rfl⟩ := Option.map_eq_some_iff.mp h
    exact .change _ hdb calm
  | call c j text =>
    obtain ⟨hcond, h⟩ := Option.ite_none_right_eq_some.mp h
    cases h
    rw [Bool.and_eq_true, Option.isNone_iff_eq_none, decide_eq_true_eq] at hcond
    exact .start hcond.1 hcond.2
  | connect c =>
    obtain ⟨call, row, h⟩ := Option.bind_eq_some_iff.mp h
    split at h
    · rename_i hphase
      dsimp only at h
      split at h
      · cases h
        exact .subscribe _ row (by rw [hphase]; rfl)
      · obtain ⟨client, -, rfl⟩ := Option.map_eq_some_iff.mp h
        exact .advance _ call.seen (.listening client) row (by rw [hphase]; rfl) nofun nofun
    · cases h
  | listen c =>
    obtain ⟨call, row, h⟩ := Option.bind_eq_some_iff.mp h
    split at h
    · rename_i client hphase
      obtain ⟨-, h⟩ := Option.ite_none_right_eq_some.mp h
      cases h
      exact .advance _ call.seen (.listened client) row (by rw [hphase]; rfl) nofun nofun
    · cases h
  | listened c =>
    obtain ⟨call, row, h⟩ := Option.bind_eq_some_iff.mp h
    split at h
    · rename_i client hphase
      obtain ⟨-, h⟩ := Option.ite_none_right_eq_some.mp h
      cases h
      exact .subscribe _ row (by rw [hphase]; rfl)
    · cases h
  | read c =>
    obtain ⟨call, row, h⟩ := Option.bind_eq_some_iff.mp h
    exact answer_step row h
  | wake c =>
    obtain ⟨call, row, h⟩ := Option.bind_eq_some_iff.mp h
    split at h
    · rename_i hphase hnotified
      cases h
      exact .advance s.link call.seen .secondRead row (by rw [hphase]; rfl) nofun fun _ => hnotified
    · rename_i hphase hnotified
      cases h
      exact .unsubscribe call.seen row (by rw [hphase]; rfl) trivial
    · cases h
  | fail c =>
    obtain ⟨call, row, h⟩ := Option.bind_eq_some_iff.mp h
    split at h
    all_goals
      rename_i hphase
      cases h
    · exact .advance s.link call.seen (.done .failed) row (by rw [hphase]; rfl) (fun _ h => by cases h; rfl) nofun
    · exact .advance s.link call.seen (.done .failed) row (by rw [hphase]; rfl) (fun _ h => by cases h; rfl) nofun
    · exact .advance s.link call.seen (.done .failed) row (by rw [hphase]; rfl) (fun _ h => by cases h; rfl) nofun
    · exact .unsubscribe call.seen row (by rw [hphase]; rfl) trivial
    · exact .unsubscribe call.seen row (by rw [hphase]; rfl) trivial
  | deliver =>
    simp only [Process.move] at h
    split at h
    · obtain ⟨j, hj, rfl⟩ := Option.map_eq_some_iff.mp h
      exact .deliver _ hj
    · cases h
  | error => exact calm.elim
  | close => exact calm.elim

/-! ## The waiters -/

/-- The waiter of a subscribed call is where a notification looks for it, and there is no other. -/
structure Process.WaitersInv (s : Process) : Prop where
  made : ∀ text set, s.waiters.get? text = some set → set < s.created
  apart : ∀ text text' set, s.waiters.get? text = some set → s.waiters.get? text' = some set → text = text'
  members : ∀ text set c, s.waiters.get? text = some set → c ∈ s.sets set →
    ∃ call, s.calls c = some call ∧ call.text = text
  registered : ∀ c call, s.calls c = some call → call.phase.subscribed = true →
    s.waiters.get? call.text = some call.set ∧ c ∈ s.sets call.set

def Call.place (call : Call) : String × Nat × Bool := (call.text, call.set, call.phase.subscribed)

theorem Process.WaitersInv.congr {calls : Nat → Option Call} (inv : s.WaitersInv) (db : Results) (link : Link)
    (same : ∀ c, (calls c).map Call.place = (s.calls c).map Call.place) :
    Process.WaitersInv { s with db, link, calls } := by
  refine ⟨inv.made, inv.apart, fun text set c hset hc => ?_, fun c call row subscribed => ?_⟩
  · obtain ⟨old, hold, rfl⟩ := inv.members text set c hset hc
    have hplace := same c
    rw [hold] at hplace
    obtain ⟨call, row, hcall⟩ := Option.map_eq_some_iff.mp hplace
    exact ⟨call, row, congrArg Prod.fst hcall⟩
  · have hplace := (same c).symm.trans (congrArg (Option.map Call.place) row)
    obtain ⟨old, hold, hcall⟩ := Option.map_eq_some_iff.mp hplace
    simp only [Call.place, Prod.mk.injEq] at hcall
    obtain ⟨htext, hset, hphase⟩ := hcall
    rw [← htext, ← hset]
    exact inv.registered c old hold (hphase.trans subscribed)

theorem place_put {call new : Call} (row : s.calls c = some call) (same : new.place = call.place)
    (j : Nat) : ((s.put c new).calls j).map Call.place = (s.calls j).map Call.place := by
  unfold Process.put
  by_cases hj : j = c
  · subst hj
    simp [row, same]
  · simp [hj]

theorem put_self (s : Process) (c : Nat) (call : Call) : (s.put c call).calls c = some call :=
  Function.update_self ..

theorem put_other (s : Process) {j : Nat} (call : Call) (h : j ≠ c) : (s.put c call).calls j = s.calls j :=
  Function.update_of_ne h ..

theorem put_text {j : Nat} {call new : Call} {text : String} (row : s.calls c = some call)
    (same : new.text = call.text) (h : ∃ old, s.calls j = some old ∧ old.text = text) :
    ∃ old, (s.put c new).calls j = some old ∧ old.text = text := by
  obtain ⟨old, hold, rfl⟩ := h
  by_cases hj : j = c
  · subst hj
    rw [row] at hold
    cases hold
    exact ⟨new, put_self .., same⟩
  · exact ⟨old, (put_other s new hj).trans hold, rfl⟩

theorem start_keeps_waiters {call : Call} (inv : s.WaitersInv) (free : s.calls c = none)
    (new : call.phase.subscribed = false) : (s.put c call).WaitersInv := by
  refine ⟨inv.made, inv.apart, fun text set j hset hj => ?_, fun j old row subscribed => ?_⟩
  · obtain ⟨old, hold, htext⟩ := inv.members text set j hset hj
    have hne : j ≠ c := fun h => by
      rw [h, free] at hold
      cases hold
    exact ⟨old, (put_other s call hne).trans hold, htext⟩
  · by_cases hj : j = c
    · subst hj
      rw [put_self] at row
      cases row
      rw [new] at subscribed
      cases subscribed
    · exact inv.registered j old ((put_other s call hj).symm.trans row) subscribed

theorem subscribe_keeps_waiters {call : Call} (inv : s.WaitersInv) (row : s.calls c = some call) :
    (s.subscribe c call).WaitersInv := by
  unfold Process.subscribe
  split
  next set found =>
    refine ⟨inv.made, inv.apart, ?_, ?_⟩ <;> dsimp only
    · intro text k j hk hj
      by_cases hset : k = set
      · subst hset
        obtain rfl := inv.apart _ _ _ hk found
        rw [Function.update_self] at hj
        rcases List.mem_cons.mp hj with rfl | hj
        · exact ⟨_, put_self .., rfl⟩
        · exact put_text row rfl (inv.members _ k j hk hj)
      · rw [Function.update_of_ne hset] at hj
        exact put_text row rfl (inv.members text k j hk hj)
    · intro j old hold subscribed
      by_cases hj : j = c
      · subst hj
        rw [put_self] at hold
        cases hold
        refine ⟨found, ?_⟩
        rw [Function.update_self]
        exact List.mem_cons_self
      · obtain ⟨hget, hmem⟩ := inv.registered j old ((put_other s _ hj).symm.trans hold) subscribed
        refine ⟨hget, ?_⟩
        by_cases hset : old.set = set
        · rw [hset, Function.update_self]
          exact List.mem_cons_of_mem _ (hset ▸ hmem)
        · rwa [Function.update_of_ne hset]
  next missing =>
    have hother : ∀ {text k}, s.waiters.get? text = some k → text ≠ call.text ∧ k ≠ s.created := by
      intro text k hk
      refine ⟨fun h => ?_, (inv.made text k hk).ne⟩
      rw [h, missing] at hk
      cases hk
    have hcases : ∀ {text k}, (s.waiters.put call.text s.created).get? text = some k →
        (text = call.text ∧ k = s.created) ∨ s.waiters.get? text = some k := by
      intro text k hk
      rw [Table.get?_put] at hk
      split at hk
      · cases hk
        exact .inl ⟨‹_›, rfl⟩
      · exact .inr hk
    refine ⟨?_, ?_, ?_, ?_⟩ <;> dsimp only
    · intro text k hk
      rcases hcases hk with ⟨-, rfl⟩ | hk
      · exact Nat.lt_succ_self _
      · exact Nat.lt_succ_of_lt (inv.made text k hk)
    · intro text text' k hk hk'
      rcases hcases hk with ⟨rfl, rfl⟩ | hk <;> rcases hcases hk' with ⟨rfl, hnew⟩ | hk'
      · rfl
      · exact absurd rfl (hother hk').2
      · exact absurd hnew (hother hk).2
      · exact inv.apart _ _ _ hk hk'
    · intro text k j hk hj
      rcases hcases hk with ⟨rfl, rfl⟩ | hk
      · rw [Function.update_self, List.mem_singleton] at hj
        subst hj
        exact ⟨_, put_self .., rfl⟩
      · rw [Function.update_of_ne (hother hk).2] at hj
        exact put_text row rfl (inv.members text k j hk hj)
    · intro j old hold subscribed
      by_cases hj : j = c
      · subst hj
        rw [put_self] at hold
        cases hold
        refine ⟨Table.get?_put_self .., ?_⟩
        rw [Function.update_self]
        exact List.mem_singleton_self _
      · obtain ⟨hget, hmem⟩ := inv.registered j old ((put_other s _ hj).symm.trans hold) subscribed
        refine ⟨(Table.get?_put_of_ne _ _ (hother hget).1).trans hget, ?_⟩
        rwa [Function.update_of_ne (hother hget).2]

theorem unsubscribe_keeps_waiters {call : Call} (answer : Answer) (inv : s.WaitersInv)
    (row : s.calls c = some call) (subscribed : call.phase.subscribed = true) (seen : Option TaskResult) :
    (s.unsubscribe c { call with seen } answer).WaitersInv := by
  unfold Process.unsubscribe
  extract_lets members
  have hget : ∀ {text k}, (if members.isEmpty then s.waiters.set call.text none else s.waiters).get? text = some k →
      s.waiters.get? text = some k := by
    intro text k hk
    split at hk
    · rw [Table.get?_set] at hk
      split at hk
      · cases hk
      · exact hk
    · exact hk
  have hsub : ∀ {k j}, j ∈ Function.update s.sets call.set members k → j ∈ s.sets k := by
    intro k j hj
    by_cases hk : k = call.set
    · subst hk
      rw [Function.update_self] at hj
      exact (List.mem_filter.mp hj).1
    · rwa [Function.update_of_ne hk] at hj
  refine ⟨fun text k hk => inv.made text k (hget hk), fun text text' k hk hk' => inv.apart _ _ _ (hget hk) (hget hk'),
    fun text k j hk hj => put_text row rfl (inv.members text k j (hget hk) (hsub hj)),
    fun j old hold subscribed' => ?_⟩
  by_cases hj : j = c
  · subst hj
    rw [put_self] at hold
    cases hold
    cases subscribed'
  · obtain ⟨hfound, hmem⟩ := inv.registered j old ((put_other s _ hj).symm.trans hold) subscribed'
    have hstays : old.set = call.set → j ∈ members := fun hset =>
      List.mem_filter.mpr ⟨hset ▸ hmem, decide_eq_true hj⟩
    constructor
    · dsimp only
      split
      next hempty =>
        have htext : old.text ≠ call.text := by
          intro htext
          have hset := (inv.registered c call row subscribed).1
          rw [← htext, hfound] at hset
          have hin := hstays (Option.some.inj hset)
          rw [List.isEmpty_iff.mp hempty] at hin
          cases hin
        rw [Table.get?_set, if_neg htext]
        exact hfound
      next => exact hfound
    · dsimp only
      by_cases hset : old.set = call.set
      · rw [hset, Function.update_self]
        exact hstays hset
      · rwa [Function.update_of_ne hset]

theorem step_keeps_waiters (step : Step id s s') (inv : s.WaitersInv) : s'.WaitersInv := by
  cases step with
  | change link changed calm => exact inv.congr _ link fun _ => rfl
  | start free named => exact start_keeps_waiters inv free rfl
  | advance link seen phase row kept ended woken =>
    exact inv.congr s.db link (place_put row (by simp [Call.place, kept]))
  | subscribe link row new => exact subscribe_keeps_waiters (inv.congr s.db link fun _ => rfl) row
  | unsubscribe seen row subscribed ends => exact unsubscribe_keeps_waiters _ inv row subscribed seen
  | deliver link sent =>
    refine inv.congr s.db link fun c => ?_
    rw [Option.map_map]
    rfl

/-! ## The calls -/

theorem settle_of_ne {new old : Signal} (h : old ≠ .pending) : new.settle old = old := by
  cases old with
  | pending => exact absurd rfl h
  | resolved => rfl
  | rejected => rfl

theorem settle_resolved_ne (old : Signal) : Signal.resolved.settle old ≠ .pending := by
  cases old <;> decide

/-- A call that was woken is one that a notification has named. -/
structure Call.Inv (id : Uuid) (db : Results) (call : Call) : Prop where
  named : Uuid.ofText? call.text = some call.id
  resolved : call.notified = .resolved → ∃ j ∈ db.sent, j.text = call.text
  heard : call.text = call.id.text → call.heard ≠ [] → call.notified ≠ .pending
  woken : call.phase = .secondRead → call.notified = .resolved
  fits : call.text = id.text → ∀ answer, call.phase = .done answer → answer.Fits call.seen

structure Process.Inv (id : Uuid) (s : Process) : Prop where
  waiters : s.WaitersInv
  settled : id ∈ s.db.sent → Settled (s.db.rows id)
  calls : ∀ c call, s.calls c = some call → call.Inv id s.db

theorem text_inj {i j : Uuid} (h : i.text = j.text) : i = j := by
  have hi := Uuid.ofText?_text i
  rw [h, Uuid.ofText?_text] at hi
  exact (Option.some.inj hi).symm

theorem Process.Inv.second_read {call : Call} (inv : s.Inv id) (row : s.calls c = some call)
    (canonical : call.text = id.text) (second : call.phase = .secondRead) : Settled (s.db.rows call.id) := by
  have hcall := inv.calls c call row
  have hid : call.id = id := by
    have hnamed := hcall.named
    rw [canonical, Uuid.ofText?_text] at hnamed
    exact (Option.some.inj hnamed).symm
  obtain ⟨j, hj, htext⟩ := hcall.resolved (hcall.woken second)
  obtain rfl := text_inj (htext.trans canonical)
  rw [hid]
  exact inv.settled hj

theorem Process.Inv.ends_fit {call : Call} {seen : Option TaskResult} {answer : Answer}
    (inv : s.Inv id) (row : s.calls c = some call) (canonical : call.text = id.text)
    (ends : s.Ends call seen answer) : answer.Fits seen := by
  cases answer with
  | missing => exact ends
  | failed => trivial
  | result r =>
    obtain ⟨hseen, hterminal | ⟨second, hrow⟩⟩ := ends
    · exact ⟨hseen, hterminal⟩
    · exact ⟨hseen, inv.second_read row canonical second r hrow⟩

theorem put_keeps_calls {new : Call} {db : Results}
    (inv : ∀ c call, s.calls c = some call → call.Inv id db) (hnew : new.Inv id db) :
    ∀ j call, (s.put c new).calls j = some call → call.Inv id db := by
  intro j call row
  by_cases hj : j = c
  · subst hj
    rw [put_self] at row
    cases row
    exact hnew
  · exact inv j call ((put_other s new hj).symm.trans row)

theorem subscribe_calls (s : Process) (c : Nat) (call : Call) :
    ∃ set, (s.subscribe c call).calls = (s.put c { call with phase := .firstRead, set }).calls := by
  unfold Process.subscribe
  split
  · exact ⟨_, rfl⟩
  · exact ⟨_, rfl⟩

theorem subscribe_db (s : Process) (c : Nat) (call : Call) : (s.subscribe c call).db = s.db := by
  unfold Process.subscribe
  split <;> rfl

theorem waitersOf_text {call : Call} {payload : String} (inv : s.WaitersInv)
    (row : s.calls c = some call) (mem : c ∈ s.waitersOf payload) : call.text = payload := by
  unfold Process.waitersOf at mem
  split at mem
  next set found =>
    obtain ⟨old, hold, htext⟩ := inv.members payload set c found mem
    rw [row] at hold
    cases hold
    exact htext
  next => cases mem

theorem waitersOf_registered {call : Call} (inv : s.WaitersInv) (row : s.calls c = some call)
    (subscribed : call.phase.subscribed = true) : c ∈ s.waitersOf call.text := by
  obtain ⟨found, mem⟩ := inv.registered c call row subscribed
  unfold Process.waitersOf
  rw [found]
  exact mem

theorem deliver_keeps_call {position : Nat} {j : Uuid} {call : Call} (inv : s.Inv id)
    (sent : s.db.sent[position]? = some j) (row : s.calls c = some call) :
    Call.Inv id s.db { call with
      notified := if (s.waitersOf j.text).contains c then Signal.resolved.settle call.notified else call.notified
      heard := if call.phase.subscribed && call.id = j then position :: call.heard else call.heard } := by
  have hcall := inv.calls c call row
  refine ⟨hcall.named, ?_, ?_, ?_, hcall.fits⟩ <;> dsimp only
  · intro hresolved
    split at hresolved
    next woken =>
      exact ⟨j, List.mem_of_getElem? sent, (waitersOf_text inv.waiters row (List.contains_iff_mem.mp woken)).symm⟩
    next => exact hcall.resolved hresolved
  · intro canonical hheard
    split at hheard
    next own =>
      rw [Bool.and_eq_true, decide_eq_true_eq] at own
      obtain ⟨subscribed, rfl⟩ := own
      have mem := waitersOf_registered inv.waiters row subscribed
      rw [canonical] at mem
      rw [if_pos (List.contains_iff_mem.mpr mem)]
      exact settle_resolved_ne _
    next =>
      have hne := hcall.heard canonical hheard
      rw [settle_of_ne hne, ite_self]
      exact hne
  · intro second
    have hresolved := hcall.woken second
    rw [settle_of_ne (by rw [hresolved]; decide), ite_self]
    exact hresolved

theorem step_keeps_inv (step : Step id s s') (inv : s.Inv id) : s'.Inv id := by
  refine ⟨step_keeps_waiters step inv.waiters, ?_, ?_⟩
  · cases step with
    | change link changed calm => exact change_settled changed calm inv.settled
    | subscribe link row new =>
      rw [subscribe_db]
      exact inv.settled
    | start | advance | unsubscribe | deliver => exact inv.settled
  · cases step with
    | change link changed calm =>
      obtain ⟨more, hsent⟩ := change_sent changed
      intro c call row
      have hcall := inv.calls c call row
      refine ⟨hcall.named, fun h => ?_, hcall.heard, hcall.woken, hcall.fits⟩
      obtain ⟨j, hj, htext⟩ := hcall.resolved h
      exact ⟨j, by rw [hsent]; exact List.mem_append_left _ hj, htext⟩
    | start free named =>
      exact put_keeps_calls inv.calls ⟨named, nofun, fun _ h => absurd rfl h, nofun, nofun⟩
    | @advance c call link seen phase row kept ended woken =>
      have hcall := inv.calls c call row
      refine put_keeps_calls (s := { s with link }) inv.calls ⟨hcall.named, hcall.resolved, hcall.heard, woken, ?_⟩
      intro _ answer hanswer
      rw [ended answer hanswer]
      trivial
    | @subscribe c call link row new =>
      have hcall := inv.calls c call row
      obtain ⟨set, hcalls⟩ := subscribe_calls { s with link } c call
      rw [subscribe_db, hcalls]
      exact put_keeps_calls (s := { s with link }) inv.calls
        ⟨hcall.named, hcall.resolved, hcall.heard, nofun, nofun⟩
    | @unsubscribe c call seen answer row subscribed ends =>
      have hcall := inv.calls c call row
      refine put_keeps_calls inv.calls ⟨hcall.named, hcall.resolved, hcall.heard, nofun, ?_⟩
      intro canonical answer' hanswer
      cases hanswer
      exact inv.ends_fit row canonical ends
    | deliver link sent =>
      intro c call row
      obtain ⟨old, hold, rfl⟩ := Option.map_eq_some_iff.mp row
      exact deliver_keeps_call (s := s) inv sent hold

theorem Process.Inv.agrees {call : Call} (inv : s.Inv id) (row : s.calls c = some call)
    (canonical : call.text = id.text) : s.Agrees call := by
  have hcall := inv.calls c call row
  refine ⟨hcall.fits canonical, ?_⟩
  rintro ⟨-, pending, -, i, hi, -⟩
  have hid : call.id = id := by
    have hnamed := hcall.named
    rw [canonical, Uuid.ofText?_text] at hnamed
    exact (Option.some.inj hnamed).symm
  exact hcall.heard (hid ▸ canonical) (List.ne_nil_of_mem hi) pending

theorem inv_start (id : Uuid) (rows : Uuid → Option TaskResult) :
    Process.Inv id { db := { rows } } where
  waiters :=
    { made := fun _ _ h => by cases h
      apart := fun _ _ _ h => by cases h
      members := fun _ _ _ h => by cases h
      registered := fun _ _ h => by cases h }
  settled h := by cases h
  calls _ _ h := by cases h

theorem runs_agree {rows : Uuid → Option TaskResult} {moves : List Move} (calm : ∀ m ∈ moves, m.Calm id)
    (h : Machine.runs (Process.move hash) { db := { rows } } moves = some s) {c : Nat} {call : Call}
    (row : s.calls c = some call) (canonical : call.text = id.text) : s.Agrees call := by
  have inv : s.Inv id :=
    Machine.runs_rule (p := fun _ m => m.Calm id) (fun _ _ _ hm hmove => step_keeps_inv (move_step hm hmove))
      (Machine.everyMove_of_forall calm) h (inv_start id rows)
  exact inv.agrees row canonical

/-! ## Runs that end badly -/

def waits (id : Uuid) (text : String) : List Move := [.call 0 id text, .connect 0, .listen 0, .listened 0, .read 0]

def waiting (hash : String → BitVec 64) (id : Uuid) (text : String) : Process :=
  { db := { rows := fun _ => some { state := .running } }
    calls := Function.update (fun _ => none) 0
      (some { id, text, phase := .waiting, seen := some { state := .running } })
    link := { client := some 0, opened := 1, channels := [resultChannel hash id],
              listens := [resultChannel hash id] }
    waiters := Table.empty.put text 0
    sets := Function.update (fun _ => []) 0 [0]
    created := 1 }

theorem runs_waits (hash : String → BitVec 64) {id : Uuid} {text : String}
    (accepted : Uuid.ofText? text = some id) :
    Machine.runs (Process.move hash) { db := { rows := fun _ => some { state := .running } } } (waits id text) =
      some (waiting hash id text) := by
  simp [Machine.runs, waits, waiting, Process.move, accepted, Process.put, Link.connect, Process.subscribe,
    Process.answer, TaskState.terminal]

def completion (id : Uuid) (text : String) : List Move :=
  waits id text ++ [.change id (.finish { state := .succeeded }), .deliver]

def missed (hash : String → BitVec 64) (id : Uuid) (text : String) : Process :=
  { waiting hash id text with
    db := ⟨Function.update (fun _ => some { state := .running }) id (some { state := .succeeded }), [id]⟩
    calls := Function.update (fun _ => none) 0
      (some { id, text, phase := .waiting, heard := [0], seen := some { state := .running } }) }

theorem completion_missed (hash : String → BitVec 64) {id : Uuid} {text : String}
    (accepted : Uuid.ofText? text = some id) (other : text ≠ id.text) :
    ∃ s call, Machine.runs (Process.move hash) { db := { rows := fun _ => some { state := .running } } }
      (completion id text) = some s ∧ s.calls 0 = some call ∧ call.text = text ∧ s.Missed call := by
  have run : Machine.runs (Process.move hash) (waiting hash id text)
      [.change id (.finish { state := .succeeded }), .deliver] = some (missed hash id text) := by
    simp [Machine.runs, waiting, missed, Process.move, Results.change, Change.row, Change.notifies, Link.notify,
      Process.onNotification, Process.waitersOf, TaskState.terminal, Ne.symm other]
    funext c
    by_cases hc : c = 0
    · subst hc
      simp [Phase.subscribed]
    · simp [hc]
  have finished : (missed hash id text).db.rows id = some { state := .succeeded } := by
    simp [missed]
  have row : (missed hash id text).calls 0 =
      some { id, text, phase := .waiting, heard := [0], seen := some { state := .running } } := rfl
  refine ⟨missed hash id text, _, ?_, row, rfl, rfl, rfl, ⟨_, finished, rfl⟩, 0, List.mem_singleton_self 0,
    rfl, ?_⟩
  · rw [completion, Machine.runs_append, runs_waits hash accepted]
    exact run
  · intro k hk
    simp [missed, List.getElem?_eq_none (l := [id]) (i := k) hk]

def retried (id : Uuid) : List Move :=
  waits id id.text ++ [.change id (.finish { state := .failed }), .deliver, .wake 0, .change id .retry, .read 0]

theorem retried_pending :
    ∃ s call, Machine.runs (Process.move fun _ => 0) { db := { rows := fun _ => some { state := .running } } }
      (retried (Uuid.ofNat 10)) = some s ∧ s.calls 0 = some call ∧ call.text = (Uuid.ofNat 10).text ∧
      call.phase = .done (.result { state := .pending }) := by
  refine ⟨_, _, rfl, rfl, rfl, rfl⟩

end TypeScript

/-! ## Both clients -/

/-- Either client agrees with the database for the canonical spelling of the id and for no other.
The TypeScript client needs a task that nobody retries. -/
theorem results_agree_iff (hash : String → BitVec 64) {id : Uuid} {text : String}
    (accepted : Uuid.ofText? text = some id) :
    ((∀ rows moves s, Machine.runs (Go.Call.move hash id text) { db := { rows } } moves = some s → s.Agrees id) ↔
      text = id.text) ∧
    ((∀ rows moves s, (∀ m ∈ moves, TypeScript.Move.Calm id m) →
        Machine.runs (TypeScript.Process.move hash) { db := { rows } } moves = some s →
        ∀ c call, s.calls c = some call → call.text = text → s.Agrees call) ↔ text = id.text) := by
  refine ⟨⟨fun agrees => ?_, ?_⟩, fun agrees => ?_, ?_⟩
  · by_contra other
    obtain ⟨s, run, missed⟩ := Go.completion_missed hash other
    exact (agrees _ _ s run).heard missed
  · rintro rfl rows moves s run
    exact Go.runs_agree rows run
  · by_contra other
    obtain ⟨s, call, run, row, htext, missed⟩ := TypeScript.completion_missed hash accepted other
    have calm : ∀ m ∈ TypeScript.completion id text, TypeScript.Move.Calm id m := by
      simp [TypeScript.completion, TypeScript.waits, TypeScript.Move.Calm]
    exact (agrees _ _ s calm run 0 call row htext).heard missed
  · rintro rfl rows moves s calm run c call row canonical
    exact TypeScript.runs_agree calm run row canonical

theorem canonical_agrees :
    ∃ s, Machine.runs (Go.Call.move (fun _ => 0) (Uuid.ofNat 10) (Uuid.ofNat 10).text)
        { db := { rows := fun _ => some { state := .running } } } (Go.completion (Uuid.ofNat 10)) = some s ∧
      s.Agrees (Uuid.ofNat 10) := by
  have run : Machine.runs (Go.Call.move (fun _ => 0) (Uuid.ofNat 10) (Uuid.ofNat 10).text)
      { db := { rows := fun _ => some { state := .running } } } (Go.completion (Uuid.ofNat 10)) = some _ := rfl
  exact ⟨_, run, (results_agree_iff (fun _ => 0) (Uuid.ofText?_text (Uuid.ofNat 10))).1.mpr rfl _ _ _ run⟩

theorem results_disagree :
    Uuid.ofText? "00000000-0000-0000-0000-00000000000A" = some (Uuid.ofNat 10) ∧
    (∃ s, Machine.runs (Go.Call.move (fun _ => 0) (Uuid.ofNat 10) "00000000-0000-0000-0000-00000000000A")
        { db := { rows := fun _ => some { state := .running } } } (Go.completion (Uuid.ofNat 10)) = some s ∧
      s.Missed (Uuid.ofNat 10)) ∧
    (∃ s call, Machine.runs (TypeScript.Process.move fun _ => 0)
        { db := { rows := fun _ => some { state := .running } } }
        (TypeScript.completion (Uuid.ofNat 10) "00000000-0000-0000-0000-00000000000A") = some s ∧
      s.calls 0 = some call ∧ s.Missed call) ∧
    ∃ s call, Machine.runs (TypeScript.Process.move fun _ => 0)
        { db := { rows := fun _ => some { state := .running } } } (TypeScript.retried (Uuid.ofNat 10)) = some s ∧
      s.calls 0 = some call ∧ call.text = (Uuid.ofNat 10).text ∧
      call.phase = .done (.result { state := .pending }) := by
  have accepted : Uuid.ofText? "00000000-0000-0000-0000-00000000000A" = some (Uuid.ofNat 10) := by decide
  have other : "00000000-0000-0000-0000-00000000000A" ≠ (Uuid.ofNat 10).text := by decide
  obtain ⟨s, call, run, row, -, missed⟩ := TypeScript.completion_missed (fun _ => 0) accepted other
  exact ⟨accepted, Go.completion_missed _ other, ⟨s, call, run, row, missed⟩, TypeScript.retried_pending⟩

end Pgtask.Sdk
