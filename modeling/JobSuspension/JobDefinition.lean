import JobSuspension.Selection
import JobSuspension.Suspension

/-!
# Job definitions

A job definition is the template from which the jobs of one process definition are made.

* `JobDefinition`                    the record;
* `JobDefinition.Draft`              a request for one, not checked yet;
* `JobDefinition.ofDraft d`          the definition: its four identifiers must not be blank and are
                                     kept as given, the activity is trimmed or dropped;
* `DefinitionSelector.selects s d`   whether `d` is selected.
-/

namespace JobSuspension

structure JobDefinition where
  id : String
  processDefinitionId : String
  processDefinitionKey : String
  activityId : Option String
  jobType : String
  state : SuspensionState
  deriving DecidableEq, Repr

structure JobDefinition.Draft where
  id : String
  processDefinitionId : String
  processDefinitionKey : String
  activityId : Option String := none
  jobType : String
  state : SuspensionState := .active
  deriving DecidableEq, Repr

/-- a text that is not blank, as given -/
def Text.required (s : String) : Except EngineError String :=
  if Text.isBlank s then .error .blankValue else .ok s

namespace JobDefinition

def ofDraft (d : Draft) : Except EngineError JobDefinition := do
  let id ← Text.required d.id
  let processDefinitionId ← Text.required d.processDefinitionId
  let processDefinitionKey ← Text.required d.processDefinitionKey
  let jobType ← Text.required d.jobType
  return {
    id := id
    processDefinitionId := processDefinitionId
    processDefinitionKey := processDefinitionKey
    activityId := Text.trimmed? d.activityId
    jobType := jobType
    state := d.state
  }

def withState (d : JobDefinition) (state : SuspensionState) : JobDefinition :=
  { d with state := state }

/-- the identifier a selector looks at -/
def get (d : JobDefinition) : DefinitionKey → String
  | .jobDefinitionId => d.id
  | .processDefinitionId => d.processDefinitionId
  | .processDefinitionKey => d.processDefinitionKey

end JobDefinition

def DefinitionSelector.selects (s : DefinitionSelector) (d : JobDefinition) : Bool :=
  d.get s.key == s.value

end JobSuspension
