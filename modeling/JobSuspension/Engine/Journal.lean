import JobSuspension.Audit.Family
import JobSuspension.Engine.Command

/-!
# The journal

Commands that record operations in the log and read or prune it.  Operations are recorded under
detailed auditing only; the answer is then the operation id.

* `Journal.record`                 records an operation as given;
* `Journal.task`, `Journal.link`, `Journal.attachment`, `Journal.processDefinition`,
  `Journal.jobRetries`             record what the caller says;
* `Journal.processInstance`, `Journal.job`, `Journal.jobDefinition`   look the record up first: what
                                   it says about its owners replaces what the caller said;
* `Journal.list`, `Journal.count`, `Journal.delete`, `Journal.deleteBy`.
-/

namespace JobSuspension
namespace Journal

/-! ## recording -/

/-- nothing below detailed auditing -/
def whenDetailed (c : CommandContext) (p : Command (Option String)) : Command (Option String) :=
  if c.isDetailed then p else return none

def record (c : CommandContext) (audit : AuditContext) : Command (Option String) :=
  whenDetailed c do
    let submission ← Command.call (.produceEntries c audit)
    Command.call (.recordEntries submission)
    return some submission.operationId

/-- the record that was looked up, which must exist -/
def found (e : EngineError) : Option α → Command α
  | some a => .done a
  | none => .fail e

def requireJob (id : String) : Command Job := do
  found (.noJob id) (← Command.call (.findJob id))

def requireJobDefinition (id : String) : Command JobDefinition := do
  found (.noJobDefinition id) (← Command.call (.findJobDefinition id))

def requireProcessInstance (id : String) : Command ProcessInstance := do
  found (.noProcessInstance id) (← Command.call (.findProcessInstance id))

/-! ## tasks -/

def task (c : CommandContext) (o : OperationType) (t : TaskRecord)
    (changes : List PropertyChange) : Command (Option String) :=
  record c (.ofTask .task o t changes)

def link (c : CommandContext) (o : OperationType) (t : TaskRecord) (change : PropertyChange) :
    Command (Option String) :=
  record c (.ofTask .identityLink o t [change])

def attachment (c : CommandContext) (o : OperationType) (t : TaskRecord)
    (change : PropertyChange) : Command (Option String) :=
  record c (.ofTask .attachment o t [change])

/-! ## processes -/

def processInstance (c : CommandContext) (operationId : Option String) (o : OperationType)
    (instanceId definitionId definitionKey : Option String) (change : PropertyChange) :
    Command (Option String) :=
  whenDetailed c do
    match Text.present? instanceId with
    | some id =>
      let p ← requireProcessInstance id
      record c (.ofProcessInstance operationId o (some id) (some p.processDefinitionId)
        (some p.processDefinitionKey) change)
    | none =>
      record c (.ofProcessInstance operationId o none definitionId definitionKey change)

def processDefinition (c : CommandContext) (o : OperationType)
    (definitionId definitionKey : Option String) (change : PropertyChange) :
    Command (Option String) :=
  record c (.ofProcessDefinition o definitionId definitionKey change)

/-! ## jobs and job definitions -/

/-- the selection with the owners that the selected job or job definition has on record -/
def ownersOfJobs (s : JobSelection) : Command JobSelection :=
  match s.jobId, s.jobDefinitionId with
  | some id, _ => do
    let j ← requireJob id
    return {
      jobId := some id
      jobDefinitionId := j.jobDefinitionId
      processInstanceId := j.processInstanceId
      processDefinitionId := j.processDefinitionId
      processDefinitionKey := j.processDefinitionKey
    }
  | none, some id => do
    let d ← requireJobDefinition id
    return { s with
      processDefinitionId := some d.processDefinitionId
      processDefinitionKey := some d.processDefinitionKey }
  | none, none => return s

def ownersOfDefinitions (s : DefinitionSelection) : Command DefinitionSelection :=
  match s.jobDefinitionId with
  | some id => do
    let d ← requireJobDefinition id
    return {
      jobDefinitionId := some id
      processDefinitionId := some d.processDefinitionId
      processDefinitionKey := some d.processDefinitionKey
    }
  | none => return s

def job (c : CommandContext) (operationId : Option String) (o : OperationType) (s : JobSelection)
    (change : PropertyChange) : Command (Option String) :=
  whenDetailed c do
    let owned ← ownersOfJobs s.normalized
    record c (.ofJob operationId o owned change)

def jobDefinition (c : CommandContext) (o : OperationType) (s : DefinitionSelection)
    (change : PropertyChange) : Command (Option String) :=
  whenDetailed c do
    let owned ← ownersOfDefinitions s.normalized
    record c (.ofJobDefinition o owned change)

def jobRetries (c : CommandContext) (o : OperationType) (s : JobSelection)
    (changes : List PropertyChange) : Command (Option String) :=
  record c (.ofJobRetries o s.normalized changes)

/-! ## reading and pruning -/

def list (query : LogQuery) : Command (List LogEntry) :=
  if query.limit = 0 then .fail .zeroLimit else Command.call (.listEntries query)

def count (query : LogQuery) : Command Nat := Command.call (.countEntries query)

/-- pruning single entries needs detailed auditing, too; without it nothing happens -/
def delete (c : CommandContext) (id : String) : Command Unit :=
  if c.isDetailed then do
    let found ← Command.call (.deleteEntry id)
    if found then return () else .fail (.noLogEntry id)
  else return ()

def deleteBy (scope : DeleteScope) : Command Nat := Command.call (.deleteEntriesBy scope)

end Journal
end JobSuspension
