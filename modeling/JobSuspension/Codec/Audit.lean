import JobSuspension.Audit.Entry
import JobSuspension.Codec.Atoms

/-!
# JSON forms of audit records

* `PropertyChange.toJson`, `PropertyChange.ofJson?`
* `AuditSelection.toJson`, `AuditSelection.ofJson?`
* `LogEntry.toJson`, `LogEntry.ofJson?`
-/

namespace JobSuspension

open Json

namespace PropertyChange

def toJson (c : PropertyChange) : Value := .object [
  ("property_name", .optText c.propertyName),
  ("org_value", .optText c.orgValue),
  ("new_value", .optText c.newValue)]

def ofJson? : Value → Option PropertyChange := Record.read do
  let propertyName ← Record.optional "property_name" Value.text?
  let orgValue ← Record.optional "org_value" Value.text?
  let newValue ← Record.optional "new_value" Value.text?
  return ⟨propertyName, orgValue, newValue⟩

end PropertyChange

namespace AuditSelection

/-- the identifiers by name, in the order they are written -/
def members (s : AuditSelection) : List (String × Option String) := [
  ("job_id", s.jobId),
  ("job_definition_id", s.jobDefinitionId),
  ("process_instance_id", s.processInstanceId),
  ("process_definition_id", s.processDefinitionId),
  ("process_definition_key", s.processDefinitionKey),
  ("task_id", s.taskId),
  ("execution_id", s.executionId),
  ("case_definition_id", s.caseDefinitionId),
  ("case_instance_id", s.caseInstanceId),
  ("case_execution_id", s.caseExecutionId)]

def toJson (s : AuditSelection) : Value :=
  .object (s.members.map fun (name, v) => (name, .optText v))

def ofJson? : Value → Option AuditSelection := Record.read do
  let jobId ← Record.optional "job_id" Value.text?
  let jobDefinitionId ← Record.optional "job_definition_id" Value.text?
  let processInstanceId ← Record.optional "process_instance_id" Value.text?
  let processDefinitionId ← Record.optional "process_definition_id" Value.text?
  let processDefinitionKey ← Record.optional "process_definition_key" Value.text?
  let taskId ← Record.optional "task_id" Value.text?
  let executionId ← Record.optional "execution_id" Value.text?
  let caseDefinitionId ← Record.optional "case_definition_id" Value.text?
  let caseInstanceId ← Record.optional "case_instance_id" Value.text?
  let caseExecutionId ← Record.optional "case_execution_id" Value.text?
  return ⟨jobId, jobDefinitionId, processInstanceId, processDefinitionId, processDefinitionKey,
    taskId, executionId, caseDefinitionId, caseInstanceId, caseExecutionId⟩

end AuditSelection

namespace LogEntry

def toJson (e : LogEntry) : Value := .object [
  ("entry_id", .string e.entryId),
  ("operation_id", .string e.operationId),
  ("operation_type", e.operationType.toJson),
  ("entity_type", e.entityType.toJson),
  ("user_id", .optText e.userId),
  ("timestamp", e.timestamp.toJson),
  ("selection", e.selection.toJson),
  ("property", .optText e.property),
  ("org_value", .optText e.orgValue),
  ("new_value", .optText e.newValue)]

def ofJson? : Value → Option LogEntry := Record.read do
  let entryId ← Record.required "entry_id" Value.text?
  let operationId ← Record.required "operation_id" Value.text?
  let operationType ← Record.required "operation_type" OperationType.ofJson?
  let entityType ← Record.required "entity_type" EntityType.ofJson?
  let userId ← Record.optional "user_id" Value.text?
  let timestamp ← Record.required "timestamp" Instant.ofJson?
  let selection ← Record.required "selection" AuditSelection.ofJson?
  let property ← Record.optional "property" Value.text?
  let orgValue ← Record.optional "org_value" Value.text?
  let newValue ← Record.optional "new_value" Value.text?
  return ⟨entryId, operationId, operationType, entityType, userId, timestamp, selection, property,
    orgValue, newValue⟩

end LogEntry
end JobSuspension
