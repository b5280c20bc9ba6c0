import Mathlib.Data.Fintype.Basic
import Pgtask.Lib.Search
import Pgtask.Worker.TaskContext

/-!
# Exceptions of Python handlers

An exception of a handler is reported as retryable unless it is a
`NonRetryableError` or holds one. Exceptions are objects on a heap: they share
causes and members, and links can lead back.
-/

open Search

namespace Pgtask

def HandlerError.terminal (message : String) : HandlerError := .failure "handler_error" message false

/-- `HandlerError::retryable`, a name that the field has here. -/
def HandlerError.again (message : String) : HandlerError := .failure "handler_error" message true

namespace Sdk.Python

inductive PyClass
  | nonRetryableError
  | taskSuspended
  /-- `BaseExceptionGroup` of `builtins` and of the `exceptiongroup` package. -/
  | builtinGroup
  | backportGroup
  | other (name : String)
  deriving DecidableEq

/-- An exception object. An object is known by its address. -/
structure PyObject (ν : Type) where
  /-- Its class and the classes above it. -/
  classes : List PyClass
  cause : Option ν := none
  context : Option ν := none
  /-- The attribute `exceptions`, if there is one and it is a tuple. -/
  exceptions : Option (List ν) := none
  /-- `to_string` of the error. -/
  message : String := ""

def PyObject.isInstance {ν : Type} (x : PyObject ν) (c : PyClass) : Bool := x.classes.contains c

/-- What an interpreter has: `BaseExceptionGroup` since 3.11, the backport once it is imported. -/
structure Interpreter where
  builtin : Bool
  backport : Bool

def exceptionGroupTypes (py : Interpreter) : List PyClass :=
  (if py.builtin then [.builtinGroup] else []) ++ if py.backport then [.backportGroup] else []

variable {ν : Type} (py : Interpreter) (heap : ν → PyObject ν)

def isGroup (x : ν) : Bool := (exceptionGroupTypes py).any (heap x).isInstance

def pushed (x : ν) : List ν :=
  (heap x).cause.toList ++ if isGroup py heap x then (heap x).exceptions.getD [] else []

/-- `y` is the cause of `x`, or `x` is a group and `y` one of its members. -/
inductive Linked (x y : ν) : Prop
  | cause (h : (heap x).cause = some y)
  | member {members : List ν} (group : isGroup py heap x = true) (h : (heap x).exceptions = some members)
      (mem : y ∈ members)

theorem link_pushed : Link (pushed py heap) = Linked py heap := by
  funext x y
  rw [eq_iff_iff]
  unfold Link pushed
  rw [List.mem_append, Option.mem_toList]
  constructor
  · rintro (h | h)
    · exact .cause h
    · split at h
      · cases hmembers : (heap x).exceptions with
        | none => simp [hmembers] at h
        | some members => exact .member ‹_› hmembers (by simpa [hmembers] using h)
      · cases h
  · rintro (h | ⟨group, h, mem⟩)
    · exact .inl h
    · exact .inr (by simpa [group, h] using mem)

section Failures

variable [DecidableEq ν] [Fintype ν]

def holdsNonRetryable (error : ν) : Bool :=
  search (pushed py heap) (fun x => (heap x).isInstance .nonRetryableError) ∅ [error]

def pythonFailure (error : ν) : HandlerError :=
  if holdsNonRetryable py heap error then .terminal (heap error).message else .again (heap error).message

def handlerFailure (error : ν) : HandlerError :=
  if (heap error).isInstance .taskSuspended then .suspended else pythonFailure py heap error

variable {py heap}

theorem holdsNonRetryable_iff (error : ν) : holdsNonRetryable py heap error = true ↔
    ∃ x, Relation.ReflTransGen (Linked py heap) error x ∧ (heap x).isInstance .nonRetryableError = true := by
  unfold holdsNonRetryable
  rw [search_iff, link_pushed]

theorem pythonFailure_retryable (error : ν) :
    (pythonFailure py heap error).retryable = !holdsNonRetryable py heap error := by
  unfold pythonFailure
  split <;> simp [*, HandlerError.terminal, HandlerError.again, HandlerError.failure]

/-- The search ends on every heap and finds a `NonRetryableError` exactly if causes and members lead to one,
whatever the contexts are. So does the error that the worker reports. -/
theorem non_retryable_iff (py : Interpreter) (heap : ν → PyObject ν) (error : ν) :
    (holdsNonRetryable py heap error = true ↔ ∃ x, Relation.ReflTransGen (Linked py heap) error x ∧
        (heap x).isInstance .nonRetryableError = true) ∧
      (∀ contexts : ν → Option ν, holdsNonRetryable py (fun x => { heap x with context := contexts x }) error =
        holdsNonRetryable py heap error) ∧
      ((heap error).isInstance .taskSuspended = false →
        ((handlerFailure py heap error).retryable = false ↔ ∃ x, Relation.ReflTransGen (Linked py heap) error x ∧
          (heap x).isInstance .nonRetryableError = true)) := by
  refine ⟨holdsNonRetryable_iff error, fun contexts => rfl, fun other => ?_⟩
  unfold handlerFailure
  rw [if_neg (by simp [other]), pythonFailure_retryable, Bool.not_eq_false', holdsNonRetryable_iff]

end Failures

/-- A group whose member has the group as its cause, and next to it a `NonRetryableError`. -/
def cyclicGroup : Fin 3 → PyObject (Fin 3)
  | 0 => { classes := [.builtinGroup], exceptions := some [1, 2] }
  | 1 => { classes := [.other "ValueError"], cause := some 0 }
  | 2 => { classes := [.nonRetryableError] }

theorem cyclicGroup_not_retryable : (handlerFailure ⟨true, false⟩ cyclicGroup 1).retryable = false := by
  refine ((non_retryable_iff ⟨true, false⟩ cyclicGroup 1).2.2 rfl).mpr ⟨2, ?_, rfl⟩
  exact .head (.cause (y := 0) rfl) (.single (.member rfl rfl (by simp)))

end Sdk.Python

end Pgtask
