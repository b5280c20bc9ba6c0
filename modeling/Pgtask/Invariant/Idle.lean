import Pgtask.Invariant.ClaimOrder
import Pgtask.Invariant.Spin

/-!
# The idle delay of a worker

A worker that has nothing to claim asks how long it may sleep. The answer is the time
to the first task that a claim would take, rounded up to a millisecond.
-/

open Sql Checked List

namespace Pgtask

/-! ## The query -/

def awaited (db : Database) (queueName : String) (handlers : List (String × Int)) (id : Uuid) (t : Task) :
    Bool :=
  t.queueName = queueName && t.state = .pending && (historicalFailures db id t : Int) < t.maxAttempts &&
    (db.queues.get? t.queueName).any (fun q => q.pausedAt.isNone) &&
    handlers.contains (t.taskName, t.handlerVersion)

variable {e : Env} {s : Session} {queueName : String} {names : List String} {versions : List Int} {n : Int}

end Pgtask
