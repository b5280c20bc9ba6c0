import Pgtask.Worker.Transitions
import Pgtask.Worker.Overload
import Pgtask.Worker.LeaseClock
import Pgtask.Invariant.Capacity
import Pgtask.Invariant.EnqueueMany
import Pgtask.Invariant.Repeats
import Pgtask.Worker.Runtime
import Pgtask.Worker.Retry
import Pgtask.Worker.Python
import Pgtask.Invariant.Materialize
import Pgtask.Invariant.Idle
import Pgtask.Invariant.Delivery
import Pgtask.Invariant.Family
import Pgtask.Invariant.Life
import Pgtask.Worker.Truncate
import Pgtask.Worker.Escape
import Pgtask.Worker.JsonbText
import Pgtask.Sdk.ResultListener
import Pgtask.Sdk.PythonErrors
import Pgtask.Concurrent.Registration
import Pgtask.Concurrent.Reservation
import Pgtask.Concurrent.Deadlock
