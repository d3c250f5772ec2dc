import JobSuspension.Engine.Stores

/-!
# Calls

A call is one thing the engine asks of its stores or of its log.

* `Call`, `Call.Reply`          the calls, with everything they say, and what each is answered;
* `CallKind`, `Call.kind`       what is asked; a store can be out of order for one kind of call;
* `Environment`                 what lies outside the engine: generated ids, the kinds of call that
                                fail, and the handler types by which a store hands out timers;
* `Call.perform env s c`        the answer of the stores `s` and the stores afterwards; a call that
                                is refused changes nothing;
* `Call.answer env s c`         the same, unless this kind of call fails.
-/

namespace JobSuspension

inductive CallKind where
  | saveJobDefinition
  | findJobDefinition
  | updateDefinitionById
  | updateDefinitionsByProcessDefinitionId
  | updateDefinitionsByProcessDefinitionKey
  | saveJob
  | findJob
  | updateStartTimersByProcessDefinitionId
  | updateStartTimersByProcessDefinitionKey
  | updateJobs
  | scheduleTimer
  | acquireDueTimers
  | deleteJob
  | recordJobFailure
  | findProcessInstance
  | produceEntries
  | recordEntries
  | listEntries
  | countEntries
  | deleteEntry
  | deleteEntriesBy
  deriving DecidableEq, Repr

inductive Call where
  | saveJobDefinition (d : JobDefinition)
  | findJobDefinition (id : String)
  | updateDefinitions (selector : DefinitionSelector) (state : SuspensionState)
  | saveJob (j : Job)
  | findJob (id : String)
  | updateStartTimers (selector : ProcessDefinitionSelector) (state : SuspensionState)
  | updateJobs (selector : JobSelector) (state : SuspensionState)
  | scheduleTimer (action : DeferredAction)
  | acquireDueTimers (now : Instant) (handlerTypes : List String) (limit : Nat)
  | deleteJob (id : String)
  | recordJobFailure (id message : String) (retryAt : Instant)
  | findProcessInstance (id : String)
  | produceEntries (c : CommandContext) (audit : AuditContext)
  | recordEntries (submission : Submission)
  | listEntries (query : LogQuery)
  | countEntries (query : LogQuery)
  | deleteEntry (id : String)
  | deleteEntriesBy (scope : DeleteScope)

namespace Call

abbrev Reply : Call → Type
  | findJobDefinition _ => Option JobDefinition
  | findJob _ => Option Job
  | scheduleTimer _ => String
  | acquireDueTimers _ _ _ => List Job
  | recordJobFailure _ _ _ => Job
  | findProcessInstance _ => Option ProcessInstance
  | produceEntries _ _ => Submission
  | listEntries _ => List LogEntry
  | countEntries _ => Nat
  | deleteEntry _ => Bool
  | deleteEntriesBy _ => Nat
  | _ => Unit

def kind : Call → CallKind
  | saveJobDefinition _ => .saveJobDefinition
  | findJobDefinition _ => .findJobDefinition
  | updateDefinitions ⟨.jobDefinitionId, _⟩ _ => .updateDefinitionById
  | updateDefinitions ⟨.processDefinitionId, _⟩ _ => .updateDefinitionsByProcessDefinitionId
  | updateDefinitions ⟨.processDefinitionKey, _⟩ _ => .updateDefinitionsByProcessDefinitionKey
  | saveJob _ => .saveJob
  | findJob _ => .findJob
  | updateStartTimers (.id _) _ => .updateStartTimersByProcessDefinitionId
  | updateStartTimers (.key _) _ => .updateStartTimersByProcessDefinitionKey
  | updateJobs _ _ => .updateJobs
  | scheduleTimer _ => .scheduleTimer
  | acquireDueTimers _ _ _ => .acquireDueTimers
  | deleteJob _ => .deleteJob
  | recordJobFailure _ _ _ => .recordJobFailure
  | findProcessInstance _ => .findProcessInstance
  | produceEntries _ _ => .produceEntries
  | recordEntries _ => .recordEntries
  | listEntries _ => .listEntries
  | countEntries _ => .countEntries
  | deleteEntry _ => .deleteEntry
  | deleteEntriesBy _ => .deleteEntriesBy

end Call

/-! ## outside the engine -/

/-- the ids given out, by how many were given out before -/
structure IdSupply where
  timer : Nat → String
  entry : Nat → String
  operation : Nat → String

structure Environment where
  ids : IdSupply
  /-- the error of every call of a kind that fails -/
  fault : CallKind → Option EngineError := fun _ => none
  /-- taken for the wanted handler types when timers are acquired -/
  acquiredTypes : Option (List String) := none

/-! ## answers -/

namespace Stores

def updateDefinitions (s : Stores) (selector : DefinitionSelector) (state : SuspensionState) :
    Except EngineError Stores :=
  if selector.key = .jobDefinitionId ∧ ¬ s.definitions.values.any selector.selects then
    .error (.noJobDefinition selector.value)
  else .ok (s.setDefinitions selector.selects state)

def updateJobs (s : Stores) (selector : JobSelector) (state : SuspensionState) :
    Except EngineError Stores :=
  if selector.key = .jobId ∧ ¬ s.jobs.values.any selector.selects then
    .error (.noJob selector.value)
  else .ok (s.setJobs selector.selects state)

/-- the rows of an operation, its id given out unless the caller brought one along -/
def produce (s : Stores) (ids : IdSupply) (c : CommandContext) (audit : AuditContext) :
    Submission :=
  let id := audit.operationId.getD (ids.operation s.operationCount)
  ⟨id, audit.operationId.isNone, audit.entries c id fun n => ids.entry (s.entryCount + n)⟩

end Stores

namespace Call

def perform (env : Environment) (s : Stores) : (c : Call) → Except EngineError (c.Reply × Stores)
  | saveJobDefinition d => .ok ((), s.putDefinition d)
  | findJobDefinition id => .ok (s.definitions.get? id, s)
  | updateDefinitions selector state => (s.updateDefinitions selector state).map ((), ·)
  | saveJob j => j.validate.map fun () => ((), s.putJob j)
  | findJob id => .ok (s.jobs.get? id, s)
  | updateStartTimers selector state => .ok ((), s.setJobs selector.startsFrom state)
  | updateJobs selector state => (s.updateJobs selector state).map ((), ·)
  | scheduleTimer action =>
    let id := env.ids.timer s.timerCount
    .ok (id, s.addTimer id action)
  | acquireDueTimers now handlerTypes limit =>
    .ok (Job.firstDue s.jobs.values now (env.acquiredTypes.getD handlerTypes) limit, s)
  | deleteJob id =>
    match s.jobs.get? id with
    | some _ => .ok ((), s.removeJob id)
    | none => .error (.noJob id)
  | recordJobFailure id message retryAt =>
    match s.jobs.get? id with
    | some j =>
      let failed := j.withFailure message retryAt
      .ok (failed, { s with jobs := s.jobs.insert id failed })
    | none => .error (.noJob id)
  | findProcessInstance id => .ok (s.processInstances.get? id, s)
  | produceEntries c audit => .ok (s.produce env.ids c audit, s)
  | recordEntries submission => .ok ((), s.submit submission)
  | listEntries query => .ok (query.page s.log, s)
  | countEntries query => .ok (query.count s.log, s)
  | deleteEntry id =>
    let (log, found) := LogEntry.removeId id s.log
    .ok (found, { s with log := log })
  | deleteEntriesBy scope =>
    let (log, removed) := scope.removeFrom s.log
    .ok (removed, { s with log := log })

/-- the answer of a call, or the error of its kind before anything is done -/
def answer (env : Environment) (s : Stores) (c : Call) : Except EngineError (c.Reply × Stores) :=
  match env.fault c.kind with
  | some e => .error e
  | none => c.perform env s

end Call
end JobSuspension
