import JobSuspension.Audit.Entry
import JobSuspension.ProcessInstance
import JobSuspension.Selection

/-!
# Families of audited operations

The audit context of an operation on a task, a process instance, a process definition, a job or a
job definition.

* `AuditContext.ofTask`                also for identity links and attachments of a task;
* `AuditContext.ofProcessInstance`, `AuditContext.ofProcessDefinition`;
* `AuditContext.ofJob`, `AuditContext.ofJobRetries`, `AuditContext.ofJobDefinition`.

A task that is created and a retry count that is created leave a row even without a changed
property.
-/

namespace JobSuspension

/-! ## what an operation was about -/

def TaskRecord.toAudit (t : TaskRecord) : AuditSelection where
  taskId := some t.id
  executionId := t.executionId
  processInstanceId := t.processInstanceId
  processDefinitionId := t.processDefinitionId
  caseDefinitionId := t.caseDefinitionId
  caseInstanceId := t.caseInstanceId
  caseExecutionId := t.caseExecutionId

def JobSelection.toAudit (s : JobSelection) : AuditSelection where
  jobId := s.jobId
  jobDefinitionId := s.jobDefinitionId
  processInstanceId := s.processInstanceId
  processDefinitionId := s.processDefinitionId
  processDefinitionKey := s.processDefinitionKey

def DefinitionSelection.toAudit (s : DefinitionSelection) : AuditSelection where
  jobDefinitionId := s.jobDefinitionId
  processDefinitionId := s.processDefinitionId
  processDefinitionKey := s.processDefinitionKey

/-! ## families -/

/-- the changes, or the empty change where something is created without any -/
def OperationType.changesOrEmpty (o : OperationType) (changes : List PropertyChange) :
    List PropertyChange :=
  if changes.isEmpty && o.isCreate then [.empty] else changes

namespace AuditContext

def ofTask (entity : EntityType) (o : OperationType) (t : TaskRecord)
    (changes : List PropertyChange) : AuditContext :=
  ⟨entity, o, none, t.toAudit, o.changesOrEmpty changes⟩

def ofProcessDefinition (o : OperationType) (id key : Option String) (change : PropertyChange) :
    AuditContext :=
  ⟨.processDefinition, o, none, { processDefinitionId := id, processDefinitionKey := key },
    [change]⟩

def ofProcessInstance (operationId : Option String) (o : OperationType)
    (instanceId definitionId definitionKey : Option String) (change : PropertyChange) :
    AuditContext :=
  ⟨.processInstance, o, operationId,
    { processInstanceId := instanceId
      processDefinitionId := definitionId
      processDefinitionKey := definitionKey },
    [change]⟩

def ofJob (operationId : Option String) (o : OperationType) (s : JobSelection)
    (change : PropertyChange) : AuditContext :=
  ⟨.job, o, operationId, s.toAudit, [change]⟩

def ofJobRetries (o : OperationType) (s : JobSelection) (changes : List PropertyChange) :
    AuditContext :=
  ⟨.job, o, none, s.toAudit, o.changesOrEmpty changes⟩

def ofJobDefinition (o : OperationType) (s : DefinitionSelection) (change : PropertyChange) :
    AuditContext :=
  ⟨.jobDefinition, o, none, s.toAudit, [change]⟩

end AuditContext
end JobSuspension
