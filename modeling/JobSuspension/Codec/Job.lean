import JobSuspension.Codec.Atoms
import JobSuspension.Job
import JobSuspension.JobDefinition

/-!
# JSON forms of jobs and job definitions

* `Job.toJson`, `Job.ofJson?`                            retries and state may be left out;
* `JobDefinition.toJson`, `JobDefinition.ofJson?`        nothing is checked for blanks;
* `JobDefinition.Draft.toJson`, `JobDefinition.Draft.ofJson?`   activity and state may be left out.
-/

namespace JobSuspension

open Json

namespace Job

def retriesOfJson? (v : Value) : Option UInt32 := (v.natural? (UInt32.size - 1)).map UInt32.ofNat

def toJson (j : Job) : Value := .object [
  ("id", .string j.id),
  ("job_definition_id", .optText j.jobDefinitionId),
  ("process_instance_id", .optText j.processInstanceId),
  ("process_definition_id", .optText j.processDefinitionId),
  ("process_definition_key", .optText j.processDefinitionKey),
  ("handler_type", .string j.handlerType),
  ("handler_configuration", .optText j.handlerConfiguration),
  ("due_date", .ofOption Instant.toJson j.dueDate),
  ("retries", .ofNat j.retries.toNat),
  ("suspension_state", j.state.toJson),
  ("exception_message", .optText j.exceptionMessage)]

def ofJson? : Value → Option Job := Record.read do
  let id ← Record.required "id" Value.text?
  let jobDefinitionId ← Record.optional "job_definition_id" Value.text?
  let processInstanceId ← Record.optional "process_instance_id" Value.text?
  let processDefinitionId ← Record.optional "process_definition_id" Value.text?
  let processDefinitionKey ← Record.optional "process_definition_key" Value.text?
  let handlerType ← Record.required "handler_type" Value.text?
  let handlerConfiguration ← Record.optional "handler_configuration" Value.text?
  let dueDate ← Record.optional "due_date" Instant.ofJson?
  let retries ← Record.defaulted "retries" retriesOfJson? defaultRetries
  let state ← Record.defaulted "suspension_state" SuspensionState.ofJson? .active
  let exceptionMessage ← Record.optional "exception_message" Value.text?
  return ⟨id, jobDefinitionId, processInstanceId, processDefinitionId, processDefinitionKey,
    handlerType, handlerConfiguration, dueDate, retries, state, exceptionMessage⟩

end Job

namespace JobDefinition

def toJson (d : JobDefinition) : Value := .object [
  ("id", .string d.id),
  ("process_definition_id", .string d.processDefinitionId),
  ("process_definition_key", .string d.processDefinitionKey),
  ("activity_id", .optText d.activityId),
  ("job_type", .string d.jobType),
  ("suspension_state", d.state.toJson)]

def ofJson? : Value → Option JobDefinition := Record.read do
  let id ← Record.required "id" Value.text?
  let processDefinitionId ← Record.required "process_definition_id" Value.text?
  let processDefinitionKey ← Record.required "process_definition_key" Value.text?
  let activityId ← Record.optional "activity_id" Value.text?
  let jobType ← Record.required "job_type" Value.text?
  let state ← Record.required "suspension_state" SuspensionState.ofJson?
  return ⟨id, processDefinitionId, processDefinitionKey, activityId, jobType, state⟩

namespace Draft

def toJson (d : Draft) : Value := .object [
  ("id", .string d.id),
  ("process_definition_id", .string d.processDefinitionId),
  ("process_definition_key", .string d.processDefinitionKey),
  ("activity_id", .optText d.activityId),
  ("job_type", .string d.jobType),
  ("suspension_state", d.state.toJson)]

def ofJson? : Value → Option Draft := Record.read do
  let id ← Record.required "id" Value.text?
  let processDefinitionId ← Record.required "process_definition_id" Value.text?
  let processDefinitionKey ← Record.required "process_definition_key" Value.text?
  let activityId ← Record.defaulted "activity_id" (Value.nullable? Value.text?) none
  let jobType ← Record.required "job_type" Value.text?
  let state ← Record.defaulted "suspension_state" SuspensionState.ofJson? .active
  return ⟨id, processDefinitionId, processDefinitionKey, activityId, jobType, state⟩

end Draft
end JobDefinition
end JobSuspension
