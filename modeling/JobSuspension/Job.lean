import JobSuspension.Instant.Basic
import JobSuspension.Selection
import JobSuspension.Suspension

/-!
# Jobs

A job is work that can be run; a job with a due date is a timer.

* `Job`                          the record;
* `Job.isStartTimer`             the job starts a process instance when it runs;
* `Job.isAcquirableAt j now`     an active timer with retries left, due at `now`;
* `Job.validate`                 id and handler type must not be blank;
* `JobSelector.selects s j`      whether `j` is selected;
* `ProcessDefinitionSelector.startsFrom s j`   whether `j` starts instances of the named process
                                 definition;
* `Job.firstDue`                 the timers a pass acquires: due ones of the wanted handler types,
                                 by due date and then by id, a limited number of them.
-/

namespace JobSuspension

structure Job where
  id : String
  jobDefinitionId : Option String := none
  processInstanceId : Option String := none
  processDefinitionId : Option String := none
  processDefinitionKey : Option String := none
  handlerType : String
  handlerConfiguration : Option String := none
  dueDate : Option Instant := none
  retries : UInt32 := 3
  state : SuspensionState := .active
  exceptionMessage : Option String := none
  deriving DecidableEq

namespace Job

def startTimerType : String := "timer-start-event"

/-- the attempts granted to a new timer -/
def defaultRetries : UInt32 := 3

def isStartTimer (j : Job) : Bool := j.handlerType == startTimerType

def isDueAt (j : Job) (now : Instant) : Bool :=
  match j.dueDate with
  | some due => due ≤ now
  | none => false

def isAcquirableAt (j : Job) (now : Instant) : Bool :=
  !j.state.isSuspended && 0 < j.retries && j.isDueAt now

def validate (j : Job) : Except EngineError Unit :=
  if Text.isBlank j.id then .error .blankJobId
  else if Text.isBlank j.handlerType then .error (.blankHandlerType j.id)
  else .ok ()

def withState (j : Job) (state : SuspensionState) : Job := { j with state := state }

/-- the job after a failed attempt: one retry less, due again later -/
def withFailure (j : Job) (message : String) (retryAt : Instant) : Job :=
  { j with
    retries := if j.retries = 0 then 0 else j.retries - 1
    exceptionMessage := some message
    dueDate := some retryAt }

/-- the identifier a selector looks at -/
def get (j : Job) : JobKey → Option String
  | .jobId => some j.id
  | .jobDefinitionId => j.jobDefinitionId
  | .processInstanceId => j.processInstanceId
  | .processDefinitionId => j.processDefinitionId
  | .processDefinitionKey => j.processDefinitionKey

/-! ## order of acquisition -/

/-- earlier due date, or the same due date and an id that is not greater -/
def dueBefore (a b : Job) : Bool :=
  match a.dueDate, b.dueDate with
  | none, none => a.id ≤ b.id
  | none, some _ => true
  | some _, none => false
  | some x, some y => x < y || (x == y && a.id ≤ b.id)

def isWanted (handlerTypes : List String) (now : Instant) (j : Job) : Bool :=
  j.isAcquirableAt now && handlerTypes.contains j.handlerType

def firstDue (jobs : List Job) (now : Instant) (handlerTypes : List String) (limit : Nat) :
    List Job :=
  ((jobs.filter (isWanted handlerTypes now)).mergeSort dueBefore).take limit

end Job

def JobSelector.selects (s : JobSelector) (j : Job) : Bool := j.get s.key == some s.value

def ProcessDefinitionSelector.owns (s : ProcessDefinitionSelector) (j : Job) : Bool :=
  match s with
  | .id value => j.processDefinitionId == some value
  | .key value => j.processDefinitionKey == some value

def ProcessDefinitionSelector.startsFrom (s : ProcessDefinitionSelector) (j : Job) : Bool :=
  j.isStartTimer && s.owns j

end JobSuspension
