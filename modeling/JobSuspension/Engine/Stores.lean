import JobSuspension.Audit.Query
import JobSuspension.Engine.Table
import JobSuspension.Job
import JobSuspension.JobDefinition
import JobSuspension.ProcessInstance
import JobSuspension.Transition

/-!
# Stores

Everything the engine keeps: job definitions, jobs and process instances by id, the operation log
in recording order, and how many ids of each kind have been given out.

* `Stores`                            the stores; empty at the start;
* `Stores.listDefinitions`, `Stores.listJobs`   everything that is stored, by id;
* `Stores.setDefinitions p state`     gives a state to the job definitions with `p`;
* `Stores.setJobs p state`            gives a state to the jobs with `p`;
* `Stores.addTimer id action`         a new timer for a deferred action;
* `Stores.submit submission`          appends the rows of an operation to the log.
-/

namespace JobSuspension

/-- a state change that waits for its date -/
structure DeferredAction where
  dueDate : Instant
  transition : Transition
  /-- the text of a timer configuration -/
  configuration : String
  deriving DecidableEq

/-- the timer that carries out a deferred action; no selector by owner reaches it -/
def DeferredAction.toJob (a : DeferredAction) (id : String) : Job where
  id := id
  handlerType := a.transition.handlerType
  handlerConfiguration := some a.configuration
  dueDate := some a.dueDate
  retries := Job.defaultRetries

/-- the rows of one operation, ready for the log -/
structure Submission where
  operationId : String
  /-- the id was given out for this operation and not brought along by the caller -/
  isNewId : Bool
  entries : List LogEntry
  deriving DecidableEq

structure Stores where
  definitions : Table JobDefinition := ∅
  jobs : Table Job := ∅
  processInstances : Table ProcessInstance := ∅
  log : List LogEntry := []
  /-- timers scheduled so far -/
  timerCount : Nat := 0
  /-- rows submitted so far -/
  entryCount : Nat := 0
  /-- operation ids given out so far -/
  operationCount : Nat := 0

namespace Stores

instance : Inhabited Stores := ⟨{}⟩

/-! ## records -/

def putDefinition (s : Stores) (d : JobDefinition) : Stores :=
  { s with definitions := s.definitions.insert d.id d }

def putJob (s : Stores) (j : Job) : Stores := { s with jobs := s.jobs.insert j.id j }

def putProcessInstance (s : Stores) (p : ProcessInstance) : Stores :=
  { s with processInstances := s.processInstances.insert p.id p }

def removeJob (s : Stores) (id : String) : Stores := { s with jobs := s.jobs.erase id }

/-! ## listings -/

/-- sorted by the ids of the records, whatever keys they are under -/
def listDefinitions (s : Stores) : List JobDefinition :=
  s.definitions.values.mergeSort fun a b => a.id ≤ b.id

def listJobs (s : Stores) : List Job := s.jobs.values.mergeSort fun a b => a.id ≤ b.id

/-! ## states -/

def setDefinitions (s : Stores) (p : JobDefinition → Bool) (state : SuspensionState) : Stores :=
  { s with definitions := s.definitions.map fun d => if p d then d.withState state else d }

def setJobs (s : Stores) (p : Job → Bool) (state : SuspensionState) : Stores :=
  { s with jobs := s.jobs.map fun j => if p j then j.withState state else j }

/-! ## timers -/

def addTimer (s : Stores) (id : String) (a : DeferredAction) : Stores :=
  { s.putJob (a.toJob id) with timerCount := s.timerCount + 1 }

/-! ## log -/

def submit (s : Stores) (x : Submission) : Stores :=
  { s with
    log := s.log ++ x.entries
    entryCount := s.entryCount + x.entries.length
    operationCount := if x.isNewId then s.operationCount + 1 else s.operationCount }

/-- the log with entries that were recorded elsewhere -/
def importEntries (s : Stores) (entries : List LogEntry) : Stores :=
  { s with log := s.log ++ entries }

/-- the rows submitted since `before`, if nothing was removed since -/
def submittedSince (s before : Stores) : List LogEntry :=
  s.log.drop (s.log.length - (s.entryCount - before.entryCount))

end Stores
end JobSuspension
