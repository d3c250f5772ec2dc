import JobSuspension.Codec.Atoms
import JobSuspension.ProcessInstance

/-!
# JSON forms of process instances and tasks

* `ProcessInstance.toJson`, `ProcessInstance.ofJson?`
* `TaskRecord.toJson`, `TaskRecord.ofJson?`
-/

namespace JobSuspension

open Json

namespace ProcessInstance

def toJson (p : ProcessInstance) : Value := .object [
  ("id", .string p.id),
  ("process_definition_id", .string p.processDefinitionId),
  ("process_definition_key", .string p.processDefinitionKey)]

def ofJson? : Value → Option ProcessInstance := Record.read do
  let id ← Record.required "id" Value.text?
  let processDefinitionId ← Record.required "process_definition_id" Value.text?
  let processDefinitionKey ← Record.required "process_definition_key" Value.text?
  return ⟨id, processDefinitionId, processDefinitionKey⟩

end ProcessInstance
namespace TaskRecord

def toJson (t : TaskRecord) : Value := .object [
  ("id", .string t.id),
  ("execution_id", .optText t.executionId),
  ("process_instance_id", .optText t.processInstanceId),
  ("process_definition_id", .optText t.processDefinitionId),
  ("case_definition_id", .optText t.caseDefinitionId),
  ("case_instance_id", .optText t.caseInstanceId),
  ("case_execution_id", .optText t.caseExecutionId)]

def ofJson? : Value → Option TaskRecord := Record.read do
  let id ← Record.required "id" Value.text?
  let executionId ← Record.optional "execution_id" Value.text?
  let processInstanceId ← Record.optional "process_instance_id" Value.text?
  let processDefinitionId ← Record.optional "process_definition_id" Value.text?
  let caseDefinitionId ← Record.optional "case_definition_id" Value.text?
  let caseInstanceId ← Record.optional "case_instance_id" Value.text?
  let caseExecutionId ← Record.optional "case_execution_id" Value.text?
  return ⟨id, executionId, processInstanceId, processDefinitionId, caseDefinitionId,
    caseInstanceId, caseExecutionId⟩

end TaskRecord

end JobSuspension
