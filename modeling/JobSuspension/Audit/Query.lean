import JobSuspension.Audit.Entry

/-!
# Reading and pruning the operation log

* `LogQuery`             filters on entries, and a page of the matching ones;
* `LogQuery.page q log`  the page, in recording order: at least one entry and at most 500 fit;
* `DeleteScope`          an owner whose entries are removed together;
* `DeleteScope.removeFrom s log`   the entries left, and the number removed.
-/

namespace JobSuspension

structure LogQuery where
  operationId : Option String := none
  entityType : Option EntityType := none
  jobDefinitionId : Option String := none
  processDefinitionKey : Option String := none
  limit : Nat := 100
  offset : Nat := 0
  deriving DecidableEq, Repr

namespace LogQuery

/-- the largest page -/
def maxLimit : Nat := 500

/-- a filter that is absent lets everything pass -/
def admits [BEq α] (filter : Option α) (value : Option α) : Bool :=
  match filter with
  | none => true
  | some a => value == some a

def matchesEntry (q : LogQuery) (e : LogEntry) : Bool :=
  admits q.operationId (some e.operationId)
    && admits q.entityType (some e.entityType)
    && admits q.jobDefinitionId e.selection.jobDefinitionId
    && admits q.processDefinitionKey e.selection.processDefinitionKey

def pageSize (q : LogQuery) : Nat := min (max q.limit 1) maxLimit

def page (q : LogQuery) (log : List LogEntry) : List LogEntry :=
  ((log.filter q.matchesEntry).drop q.offset).take q.pageSize

def count (q : LogQuery) (log : List LogEntry) : Nat := (log.filter q.matchesEntry).length

end LogQuery

inductive DeleteScope where
  | processInstance (id : String)
  | caseInstance (id : String)
  | caseDefinition (id : String)
  | task (id : String)
  | processDefinition (id : String)
  | processDefinitionKey (key : String)
  deriving DecidableEq, Repr

namespace DeleteScope

def matchesSelection (scope : DeleteScope) (s : AuditSelection) : Bool :=
  match scope with
  | processInstance id => s.processInstanceId == some id
  | caseInstance id => s.caseInstanceId == some id
  | caseDefinition id => s.caseDefinitionId == some id
  | task id => s.taskId == some id
  | processDefinition id => s.processDefinitionId == some id
  | processDefinitionKey key => s.processDefinitionKey == some key

def removeFrom (scope : DeleteScope) (log : List LogEntry) : List LogEntry × Nat :=
  let kept := log.filter fun e => !scope.matchesSelection e.selection
  (kept, log.length - kept.length)

end DeleteScope

/-- the log without the entries of this id, and whether there were any -/
def LogEntry.removeId (id : String) (log : List LogEntry) : List LogEntry × Bool :=
  let kept := log.filter (·.entryId != id)
  (kept, kept.length != log.length)

end JobSuspension
