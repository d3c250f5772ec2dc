import JobSuspension.Engine.Journal
import JobSuspension.TimerConfiguration

/-!
# Changing states

* `setJobState`             suspends or activates the selected jobs, now;
* `setJobDefinitionState`   suspends or activates the selected job definitions and, if asked for,
                            their jobs: now, or at a date by way of a timer.

Each records what it is going to do before it does it.  A change of the job definitions of a process
definition reaches the jobs that start its instances, whether jobs were asked for or not.
-/

namespace JobSuspension

/-- the change a transition records -/
def Transition.change (t : Transition) : PropertyChange :=
  .set suspensionStateProperty t.target.name

def setJobState (c : CommandContext) (t : Transition) (selection : JobSelection)
    (operationId : Option String) : Command Unit := do
  let selection := selection.normalized
  let selector ← selection.resolve
  let _ ← Journal.job c operationId t.jobOperation selection t.change
  Command.call (.updateJobs selector t.target)

/-- a wanted change of job definitions -/
structure StateRequest where
  selection : DefinitionSelection
  includeJobs : Bool := false
  /-- the change is made at once if this is absent -/
  executionDate : Option Instant := none
  deriving DecidableEq

/-- the jobs that start instances of the selected process definition, if one is selected -/
def setStartTimers (t : Transition) (selector : DefinitionSelector) : Command Unit :=
  match selector.processDefinition? with
  | some p => Command.call (.updateStartTimers p t.target)
  | none => return ()

/-- makes the change; the rows of the jobs share the id of the operation -/
def applyState (c : CommandContext) (t : Transition) (selector : DefinitionSelector)
    (includeJobs : Bool) (operationId : Option String) : Command Unit := do
  Command.call (.updateDefinitions selector t.target)
  setStartTimers t selector
  if includeJobs then
    setJobState c t selector.toSelection.toJobSelection
      (operationId.filter fun _ => c.isDetailed)

/-- leaves the change to a timer -/
def scheduleState (t : Transition) (selector : DefinitionSelector) (includeJobs : Bool)
    (dueDate : Instant) : Command Unit := do
  let _ ← Command.call (.scheduleTimer
    ⟨dueDate, t, TimerConfiguration.forSelector selector includeJobs⟩)

def setJobDefinitionState (c : CommandContext) (t : Transition) (request : StateRequest) :
    Command Unit := do
  let selection := request.selection.normalized
  let selector ← selection.resolve
  let operationId ← Journal.jobDefinition c t.operation selection t.change
  match request.executionDate with
  | some date => scheduleState t selector request.includeJobs date
  | none => applyState c t selector request.includeJobs operationId

end JobSuspension
