import Mathlib.Data.List.Induction
import Pgtask.Lib.Broadcast
import Pgtask.Worker.Decode

/-!
# The listener of a worker

`Store::ready_listener_for` and `ReadyListener::recv`. All listeners of a store
read the events of one hub, each through the filters it was made with.
-/

open Sql Broadcast List

namespace Pgtask

variable {q : String} {queueNames : List String}

structure Notification where
  channel : String
  payload : String
  deriving DecidableEq

inductive NotificationEvent
  | ready (notification : Notification)
  | disconnected (error : String)
  /-- The connection dropped and was re-established, so notifications may have been missed. -/
  | reconnected
  deriving DecidableEq

/-- The channels of a listener, each with the only payload that it lets through, if it has one. -/
abbrev Filters := Table String (Option String)

namespace ReadyListener

def accepts (filters : Filters) (n : Notification) : Bool :=
  (filters.get? n.channel).any fun payload => payload.all fun payload => payload = n.payload

/-- One round of the loop of `recv`. `none` goes on to the next event. -/
def round (filters : Filters) :
    Received NotificationEvent → Option (Except PostgresError Notification)
  | .value (.ready n) => if accepts filters n then some (.ok n) else none
  | .lagged _ => none
  | .value (.disconnected error) => some (.error (.notification error))
  | .value .reconnected => some (.error .notificationReconnected)
  | .closed => some (.error (.notification "notification hub stopped"))

/-- `recv`, with what it leaves of the events. `none` still waits after the last of them. -/
def recv (filters : Filters) : List (Received NotificationEvent) →
    Option (Except PostgresError Notification × List (Received NotificationEvent))
  | [] => none
  | event :: events => match round filters event with
    | some answer => some (answer, events)
    | none => recv filters events

variable {filters : Filters}

theorem recv_some {events rest : List (Received NotificationEvent)}
    {answer : Except PostgresError Notification} (h : recv filters events = some (answer, rest)) :
    rest.length < events.length ∧
      events.filterMap (round filters) = answer :: rest.filterMap (round filters) := by
  induction events with
  | nil => cases h
  | cons event events ih =>
    unfold recv at h
    split at h
    · rename_i hround
      cases h
      exact ⟨Nat.lt_succ_self _, filterMap_cons_some hround⟩
    · rename_i hround
      obtain ⟨hlt, heq⟩ := ih h
      rw [filterMap_cons_none hround]
      exact ⟨Nat.lt_succ_of_lt hlt, heq⟩

theorem recv_none {events : List (Received NotificationEvent)} (h : recv filters events = none) :
    events.filterMap (round filters) = [] := by
  induction events with
  | nil => rfl
  | cons event events ih =>
    unfold recv at h
    split at h
    · cases h
    · rename_i hround
      rw [filterMap_cons_none hround]
      exact ih h

def answers (filters : Filters) (events : List (Received NotificationEvent)) :
    List (Except PostgresError Notification) :=
  match _h : recv filters events with
  | none => []
  | some (answer, rest) => answer :: answers filters rest
termination_by events.length
decreasing_by exact (recv_some _h).1

theorem answers_eq (events : List (Received NotificationEvent)) :
    answers filters events = events.filterMap (round filters) := by
  fun_induction answers filters events with
  | case1 events h => exact (recv_none h).symm
  | case2 events answer rest h ih => rw [ih, (recv_some h).2]

theorem round_ok {event : Received NotificationEvent} {n : Notification} :
    round filters event = some (.ok n) ↔ event = .value (.ready n) ∧ accepts filters n = true := by
  unfold round
  split
  · split
    · rename_i m hm
      constructor
      · intro h
        cases h
        exact ⟨rfl, hm⟩
      · rintro ⟨h, -⟩
        cases h
        rfl
    · rename_i m hm
      constructor
      · nofun
      · rintro ⟨h, hn⟩
        cases h
        exact absurd hn hm
  all_goals
    constructor
    · nofun
    · rintro ⟨h, -⟩
      cases h

theorem count_answers (events : List (Received NotificationEvent)) (n : Notification) :
    (answers filters events).count (.ok n) =
      if accepts filters n then events.count (.value (.ready n)) else 0 := by
  rw [answers_eq]
  induction events with
  | nil => simp
  | cons event events ih =>
    by_cases h : round filters event = some (.ok n)
    · obtain ⟨rfl, hn⟩ := round_ok.mp h
      rw [filterMap_cons_some h, count_cons_self, ih, if_pos hn, if_pos hn,
        count_cons_self]
    · have hskip : (List.filterMap (round filters) (event :: events)).count (.ok n) =
          (events.filterMap (round filters)).count (.ok n) := by
        cases hround : round filters event with
        | none => rw [filterMap_cons_none hround]
        | some answer =>
          rw [filterMap_cons_some hround, count_cons_of_ne]
          rintro rfl
          exact h hround
      rw [hskip, ih]
      split
      · rename_i hn
        rw [count_cons_of_ne]
        rintro rfl
        exact h (round_ok.mpr ⟨rfl, hn⟩)
      · rfl

end ReadyListener

/-! ## Channels -/

def lpad (length : Nat) (text : String) : String :=
  String.ofList ((List.replicate (length - text.length) '0' ++ text.toList).take length)

def readyShard (n : Nat) : String := "pgtask_ready_" ++ lpad 2 (toString n)

/-- `ready_channel`. `hash` is `hashtextextended(_, 0)`. -/
def readyChannel (hash : String → BitVec 64) (queueName : String) : String :=
  readyShard (hash queueName &&& 63).toNat

section Filters

variable (hash : String → BitVec 64)

def readyFilters (queueNames : List String) : Filters :=
  queueNames.foldl (fun filters queueName => filters.put (readyChannel hash queueName) (some queueName))
    ((Table.empty.put "pgtask_schedule" none).put "pgtask_wait" none)

def Store.readyListenerFor (queueNames : List String) : Except PostgresError Filters :=
  if queueNames = [] then .error .missingQueues else .ok (readyFilters hash queueNames)

variable {hash : String → BitVec 64}

def shardNumber (channel : String) : Nat :=
  (channel.toList.drop 13).foldl (fun n c => n * 10 + (c.toNat - 48)) 0

theorem shardNumber_readyShard : ∀ n < 64, shardNumber (readyShard n) = n := by
  decide +kernel

theorem readyShard_injective {m n : Nat} (hm : m < 64) (hn : n < 64)
    (h : readyShard m = readyShard n) : m = n := by
  rw [← shardNumber_readyShard m hm, h, shardNumber_readyShard n hn]

theorem readyShard_other : ∀ n < 64, readyShard n ≠ "pgtask_schedule" ∧ readyShard n ≠ "pgtask_wait" := by
  decide +kernel

theorem shard_lt (hash : String → BitVec 64) (queueName : String) : (hash queueName &&& 63).toNat < 64 := by
  rw [BitVec.toNat_and]
  exact lt_of_le_of_lt Nat.and_le_right (by decide)

theorem readyChannel_eq_iff {q' : String} :
    readyChannel hash q = readyChannel hash q' ↔ hash q &&& 63 = hash q' &&& 63 := by
  constructor
  · intro h
    exact BitVec.eq_of_toNat_eq (readyShard_injective (shard_lt hash q) (shard_lt hash q') h)
  · intro h
    unfold readyChannel
    rw [h]

theorem readyFilters_concat (queueNames : List String) (q : String) :
    readyFilters hash (queueNames ++ [q]) =
      (readyFilters hash queueNames).put (readyChannel hash q) (some q) :=
  foldl_concat ..

theorem readyFilters_mem {payload : Option String}
    (h : (readyFilters hash queueNames).get? (readyChannel hash q) = some payload) :
    ∃ q' ∈ queueNames, payload = some q' ∧ readyChannel hash q' = readyChannel hash q := by
  induction queueNames using List.reverseRecOn with
  | nil =>
    obtain ⟨hschedule, hwait⟩ := readyShard_other _ (shard_lt hash q)
    change (((Table.empty.put "pgtask_schedule" none).put "pgtask_wait" none).get?
      (readyShard (hash q &&& 63).toNat)) = some payload at h
    rw [Table.get?_put_of_ne _ _ hwait, Table.get?_put_of_ne _ _ hschedule] at h
    cases h
  | append_singleton queueNames q' ih =>
    rw [readyFilters_concat, Table.get?_put] at h
    split at h
    · rename_i same
      cases h
      exact ⟨q', by simp, rfl, same.symm⟩
    · obtain ⟨q'', hq'', rfl, same⟩ := ih h
      exact ⟨q'', by simp [hq''], rfl, same⟩

theorem readyFilters_isSome (hash : String → BitVec 64) (h : q ∈ queueNames) :
    ((readyFilters hash queueNames).get? (readyChannel hash q)).isSome = true := by
  induction queueNames using List.reverseRecOn with
  | nil => cases h
  | append_singleton queueNames q' ih =>
    rw [readyFilters_concat, Table.get?_put]
    split
    · rfl
    · rename_i hne
      rcases mem_append.mp h with h | h
      · exact ih h
      · rw [mem_singleton.mp h] at hne
        exact absurd rfl hne

theorem accepts_ready (hash : String → BitVec 64) (h : q ∈ queueNames) :
    ∃ q' ∈ queueNames, readyChannel hash q' = readyChannel hash q ∧ ∀ payload,
      ReadyListener.accepts (readyFilters hash queueNames) ⟨readyChannel hash q, payload⟩ = true ↔
        payload = q' := by
  obtain ⟨payload, hget⟩ := Option.isSome_iff_exists.mp (readyFilters_isSome hash h)
  obtain ⟨q', hq', rfl, same⟩ := readyFilters_mem hget
  refine ⟨q', hq', same, fun payload => ?_⟩
  unfold ReadyListener.accepts
  simp [hget, eq_comm]

end Filters

/-- For every hash into 64 channels, a listener returns every ready notification of its queues, each
as often as it comes, and none of another queue, if and only if no two of its queues share a
channel. -/
theorem ready_listener_iff (hash : String → BitVec 64) (queueNames : List String)
    (nonempty : queueNames ≠ []) : ∃ filters, Store.readyListenerFor hash queueNames = .ok filters ∧
      (((∀ events, ∀ q ∈ queueNames,
          (ReadyListener.answers filters events).count (.ok ⟨readyChannel hash q, q⟩) =
            events.count (.value (.ready ⟨readyChannel hash q, q⟩))) ∧
        ∀ events q payload, .ok ⟨readyChannel hash q, payload⟩ ∈ ReadyListener.answers filters events →
          payload ∈ queueNames) ↔
      ∀ q ∈ queueNames, ∀ q' ∈ queueNames, hash q &&& 63 = hash q' &&& 63 → q = q') := by
  refine ⟨readyFilters hash queueNames, if_neg nonempty, ?_⟩
  constructor
  · rintro ⟨complete, -⟩
    -- A queue whose notification comes alone gets it only if the filter of its channel is its own.
    have own : ∀ q ∈ queueNames,
        ReadyListener.accepts (readyFilters hash queueNames) ⟨readyChannel hash q, q⟩ = true := by
      intro q hq
      by_contra lost
      have hcount := complete [.value (.ready ⟨readyChannel hash q, q⟩)] q hq
      rw [ReadyListener.count_answers, if_neg lost, List.count_singleton_self] at hcount
      cases hcount
    intro q hq q' hq' shared
    have same := readyChannel_eq_iff.mpr shared
    obtain ⟨heard, -, -, only⟩ := accepts_ready hash hq
    have hown := own q' hq'
    rw [← same] at hown
    exact ((only q).mp (own q hq)).trans ((only q').mp hown).symm
  · intro apart
    constructor
    · intro events q hq
      obtain ⟨heard, hheard, same, only⟩ := accepts_ready hash hq
      rw [apart heard hheard q hq (readyChannel_eq_iff.mp same)] at only
      rw [ReadyListener.count_answers, if_pos ((only q).mpr rfl)]
    · intro events q payload hmem
      have hcount := List.count_pos_iff.mpr hmem
      rw [ReadyListener.count_answers] at hcount
      split at hcount
      · rename_i accepted
        unfold ReadyListener.accepts at accepted
        cases hget : (readyFilters hash queueNames).get? (readyChannel hash q) with
        | none => simp [hget] at accepted
        | some filter =>
          obtain ⟨q', hq', rfl, -⟩ := readyFilters_mem hget
          have : q' = payload := by simpa [hget] using accepted
          exact this ▸ hq'
      · cases hcount

theorem lone_queue_heard : (∀ q ∈ ["a"], ∀ q' ∈ ["a"], (0 : BitVec 64) &&& 63 = 0 &&& 63 → q = q') ∧
      ∃ filters, Store.readyListenerFor (fun _ => 0) ["a"] = .ok filters ∧
        ∀ events, (ReadyListener.answers filters events).count (.ok ⟨"pgtask_ready_00", "a"⟩) =
          events.count (.value (.ready ⟨"pgtask_ready_00", "a"⟩)) := by
  refine ⟨by simp, ?_⟩
  obtain ⟨filters, hfilters, hiff⟩ := ready_listener_iff (fun _ => 0) ["a"] (by simp)
  refine ⟨filters, hfilters, fun events => ?_⟩
  exact (hiff.mpr (by simp)).1 events "a" (by simp)

theorem shared_channel_deaf :
    ∃ filters, Store.readyListenerFor (fun _ => 0) ["a", "b"] = .ok filters ∧
      ReadyListener.answers filters [.value (.ready ⟨readyChannel (fun _ => 0) "a", "a"⟩)] = [] ∧
      ReadyListener.answers filters [.value (.ready ⟨readyChannel (fun _ => 0) "b", "b"⟩)] =
        [.ok ⟨readyChannel (fun _ => 0) "b", "b"⟩] := by
  refine ⟨_, rfl, ?_, ?_⟩
  · rw [ReadyListener.answers_eq]
    decide +kernel
  · rw [ReadyListener.answers_eq]
    decide +kernel

end Pgtask
