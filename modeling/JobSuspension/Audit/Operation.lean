import JobSuspension.Error

/-!
# Audited operations

The kinds of entity an operation log entry refers to and the operations recorded on them.  Both
are stored by name.

* `EntityType`, `OperationType`     with `name`, `all` and `ofName?`;
* `EntityType.ofName`               refuses an unknown name with an error;
* `OperationType.isCreate`          holds of `create` alone.
-/

namespace JobSuspension

inductive EntityType where
  | task
  | identityLink
  | attachment
  | processInstance
  | processDefinition
  | job
  | jobDefinition
  deriving DecidableEq, Repr

namespace EntityType

def all : List EntityType :=
  [task, identityLink, attachment, processInstance, processDefinition, job, jobDefinition]

def name : EntityType → String
  | task => "Task"
  | identityLink => "IdentityLink"
  | attachment => "Attachment"
  | processInstance => "ProcessInstance"
  | processDefinition => "ProcessDefinition"
  | job => "Job"
  | jobDefinition => "JobDefinition"

def ofName? (s : String) : Option EntityType := all.find? (·.name == s)

def ofName (s : String) : Except EngineError EntityType :=
  match ofName? s with
  | some t => .ok t
  | none => .error (.unknownEntityType s)

@[simp] theorem ofName?_name (t : EntityType) : ofName? t.name = some t := by
  cases t <;> decide

end EntityType

inductive OperationType where
  | create
  | update
  | delete
  | assign
  | claim
  | complete
  | delegate
  | resolve
  | setOwner
  | setPriority
  | addUserLink
  | deleteUserLink
  | addGroupLink
  | deleteGroupLink
  | addAttachment
  | deleteAttachment
  | activate
  | suspend
  | activateProcessDefinition
  | suspendProcessDefinition
  | activateJobDefinition
  | suspendJobDefinition
  | activateJob
  | suspendJob
  | setJobRetries
  deriving DecidableEq, Repr

namespace OperationType

def all : List OperationType :=
  [create, update, delete, assign, claim, complete, delegate, resolve, setOwner, setPriority,
    addUserLink, deleteUserLink, addGroupLink, deleteGroupLink, addAttachment, deleteAttachment,
    activate, suspend, activateProcessDefinition, suspendProcessDefinition, activateJobDefinition,
    suspendJobDefinition, activateJob, suspendJob, setJobRetries]

def name : OperationType → String
  | create => "Create"
  | update => "Update"
  | delete => "Delete"
  | assign => "Assign"
  | claim => "Claim"
  | complete => "Complete"
  | delegate => "Delegate"
  | resolve => "Resolve"
  | setOwner => "SetOwner"
  | setPriority => "SetPriority"
  | addUserLink => "AddUserLink"
  | deleteUserLink => "DeleteUserLink"
  | addGroupLink => "AddGroupLink"
  | deleteGroupLink => "DeleteGroupLink"
  | addAttachment => "AddAttachment"
  | deleteAttachment => "DeleteAttachment"
  | activate => "Activate"
  | suspend => "Suspend"
  | activateProcessDefinition => "ActivateProcessDefinition"
  | suspendProcessDefinition => "SuspendProcessDefinition"
  | activateJobDefinition => "ActivateJobDefinition"
  | suspendJobDefinition => "SuspendJobDefinition"
  | activateJob => "ActivateJob"
  | suspendJob => "SuspendJob"
  | setJobRetries => "SetJobRetries"

def ofName? (s : String) : Option OperationType := all.find? (·.name == s)

def isCreate : OperationType → Bool
  | create => true
  | _ => false

@[simp] theorem ofName?_name (t : OperationType) : ofName? t.name = some t := by
  cases t <;> decide

end OperationType
end JobSuspension
