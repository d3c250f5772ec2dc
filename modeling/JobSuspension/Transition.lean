import JobSuspension.Audit.Operation
import JobSuspension.Suspension

/-!
# Suspending and activating

The two ways a state can be changed, on job definitions and on jobs alike, now or later.

* `Transition.target`          the state it leads to;
* `Transition.handlerType`     the handler type of the timer that carries it out later;
* `Transition.operation`       what the operation log records for job definitions;
* `Transition.jobOperation`    what it records for jobs;
* `Transition.ofHandlerType?`  the transition of a timer's handler type.
-/

namespace JobSuspension

inductive Transition where
  | suspend
  | activate
  deriving DecidableEq, Repr, Inhabited

namespace Transition

def all : List Transition := [suspend, activate]

def target : Transition → SuspensionState
  | suspend => .suspended
  | activate => .active

def handlerType : Transition → String
  | suspend => "suspend-job-definition"
  | activate => "activate-job-definition"

def label : Transition → String
  | suspend => "suspend job definition"
  | activate => "activate job definition"

def operation : Transition → OperationType
  | suspend => .suspendJobDefinition
  | activate => .activateJobDefinition

def jobOperation : Transition → OperationType
  | suspend => .suspendJob
  | activate => .activateJob

def ofHandlerType? (s : String) : Option Transition := all.find? (·.handlerType == s)

@[simp] theorem ofHandlerType?_handlerType (t : Transition) :
    ofHandlerType? t.handlerType = some t := by
  cases t <;> decide

theorem ofHandlerType?_eq_some {s : String} {t : Transition} :
    ofHandlerType? s = some t ↔ s = t.handlerType := by
  constructor
  · intro h
    have := List.find?_some h
    simpa using (beq_iff_eq.mp this).symm
  · intro h
    rw [h, ofHandlerType?_handlerType]

end Transition
end JobSuspension
