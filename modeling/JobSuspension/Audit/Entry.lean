import JobSuspension.Audit.Level
import JobSuspension.Audit.Operation

/-!
# Operation log entries

An audited operation lists the properties it changed; the log holds one entry per change, and all
entries of one operation share its id.

* `PropertyChange`          a property with its old and its new value, each optional;
* `AuditSelection`          the identifiers that say what an operation was about;
* `AuditContext`            one operation, ready for recording;
* `LogEntry`                one row of the log;
* `AuditContext.entries`    the rows of an operation, in the order of its changes.
-/

namespace JobSuspension

/-- the property recorded for changes of the suspension state -/
def suspensionStateProperty : String := "suspensionState"

structure PropertyChange where
  propertyName : Option String := none
  orgValue : Option String := none
  newValue : Option String := none
  deriving DecidableEq, Repr

namespace PropertyChange

/-- stands for an operation without a changed property -/
def empty : PropertyChange := {}

def isEmpty (c : PropertyChange) : Bool := c == empty

/-- a property that had no recorded value before -/
def set (name value : String) : PropertyChange := ⟨some name, none, some value⟩

end PropertyChange

structure AuditSelection where
  jobId : Option String := none
  jobDefinitionId : Option String := none
  processInstanceId : Option String := none
  processDefinitionId : Option String := none
  processDefinitionKey : Option String := none
  taskId : Option String := none
  executionId : Option String := none
  caseDefinitionId : Option String := none
  caseInstanceId : Option String := none
  caseExecutionId : Option String := none
  deriving DecidableEq, Repr

structure AuditContext where
  entityType : EntityType
  operationType : OperationType
  operationId : Option String
  selection : AuditSelection
  changes : List PropertyChange
  deriving DecidableEq, Repr

def AuditContext.withOperationId (a : AuditContext) (id : String) : AuditContext :=
  { a with operationId := some id }

structure LogEntry where
  entryId : String
  operationId : String
  operationType : OperationType
  entityType : EntityType
  userId : Option String
  timestamp : Instant
  selection : AuditSelection
  property : Option String
  orgValue : Option String
  newValue : Option String
  deriving DecidableEq

/-- the row of one change -/
def AuditContext.entry (a : AuditContext) (c : CommandContext) (operationId entryId : String)
    (change : PropertyChange) : LogEntry where
  entryId := entryId
  operationId := operationId
  operationType := a.operationType
  entityType := a.entityType
  userId := c.userId
  timestamp := c.recordedAt
  selection := a.selection
  property := change.propertyName
  orgValue := change.orgValue
  newValue := change.newValue

/-- the rows of an operation; the `n`-th row gets the id `entryIds n` -/
def AuditContext.entries (a : AuditContext) (c : CommandContext) (operationId : String)
    (entryIds : Nat → String) : List LogEntry :=
  a.changes.zipIdx.map fun (change, n) => a.entry c operationId (entryIds n) change

theorem AuditContext.length_entries (a : AuditContext) (c : CommandContext) (id : String)
    (ids : Nat → String) : (a.entries c id ids).length = a.changes.length := by
  simp [entries]

theorem AuditContext.operationId_of_mem_entries {a : AuditContext} {c : CommandContext}
    {id : String} {ids : Nat → String} {e : LogEntry} (h : e ∈ a.entries c id ids) :
    e.operationId = id := by
  simp only [entries, List.mem_map] at h
  obtain ⟨_, _, rfl⟩ := h
  rfl

end JobSuspension
