/-!
# Process instances and tasks

The records an audited operation takes its identifiers from.

* `ProcessInstance`   a running process instance and the definition it was started from;
* `TaskRecord`        the identifiers of a user task.
-/

namespace JobSuspension

structure ProcessInstance where
  id : String
  processDefinitionId : String
  processDefinitionKey : String
  deriving DecidableEq, Repr

structure TaskRecord where
  id : String
  executionId : Option String := none
  processInstanceId : Option String := none
  processDefinitionId : Option String := none
  caseDefinitionId : Option String := none
  caseInstanceId : Option String := none
  caseExecutionId : Option String := none
  deriving DecidableEq, Repr

end JobSuspension
