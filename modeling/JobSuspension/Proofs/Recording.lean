import JobSuspension.Engine.Journal
import JobSuspension.Proofs.Records

/-!
# Recording when nothing fails

What the journal does with stores that answer every call.  A record that has to be looked up is
either missing, and then nothing is recorded, or it says who owns the rows.

* `Environment.Reliable env`     no kind of call fails, and timers are handed out as asked;
* `Command.runAll env ps`         several commands, one after the other;
* `Stores.recorded s ids c a`    the stores with the rows of `a`, which are written under detailed
                                 auditing only;
* `missing?`, `withOwners`       of a selection: the record that cannot be found, or the selection
                                 with the owners on record;
* `run_record`, `run_jobDefinition`, `run_job`   what the commands of the journal come to.
-/

namespace JobSuspension

structure Environment.Reliable (env : Environment) : Prop where
  fault : ∀ k, env.fault k = none
  acquiredTypes : env.acquiredTypes = none

/-! ## running -/

namespace Command

variable {α : Type} {env : Environment} {s : Stores}

theorem run_liftM (x : Except EngineError α) : (liftM x : Command α).run env s = (x, s) :=
  run_ofExcept env s x

theorem run_call (henv : env.Reliable) (c : Call) :
    (call c).run env s =
      match c.perform env s with
      | .ok (r, s') => (.ok r, s')
      | .error e => (.error e, s) := by
  rw [call, run_next, Call.answer, henv.fault]
  cases c.perform env s <;> rfl

/-- the outcomes of several commands, whatever becomes of each, and the stores after the last -/
def runAll (env : Environment) : List (Command α) → Stores → List (Except EngineError α) × Stores
  | [], s => ([], s)
  | p :: ps, s =>
    let (outcome, s') := p.run env s
    let (outcomes, s'') := runAll env ps s'
    (outcome :: outcomes, s'')

theorem runAll_append (ps qs : List (Command α)) (s : Stores) :
    runAll env (ps ++ qs) s =
      ((runAll env ps s).1 ++ (runAll env qs (runAll env ps s).2).1,
        (runAll env qs (runAll env ps s).2).2) := by
  induction ps generalizing s with
  | nil => rfl
  | cons p ps ih =>
    simp only [List.cons_append, runAll, ih]

end Command

/-! ## rows -/

namespace Stores

def recorded (s : Stores) (ids : IdSupply) (c : CommandContext) (a : AuditContext) : Stores :=
  if c.isDetailed then s.submit (s.produce ids c a) else s

/-- the id the rows of an operation share, if there are any -/
def recordedId (s : Stores) (ids : IdSupply) (c : CommandContext) (a : AuditContext) :
    Option String :=
  if c.isDetailed then some (s.produce ids c a).operationId else none

/-- the rows of an operation -/
def rows (s : Stores) (ids : IdSupply) (c : CommandContext) (a : AuditContext) : List LogEntry :=
  if c.isDetailed then (s.produce ids c a).entries else []

section
variable (s : Stores) (ids : IdSupply) (c : CommandContext) (a : AuditContext)

@[simp] theorem recorded_definitions : (s.recorded ids c a).definitions = s.definitions := by
  unfold recorded; split <;> rfl

@[simp] theorem recorded_jobs : (s.recorded ids c a).jobs = s.jobs := by
  unfold recorded; split <;> rfl

@[simp] theorem recorded_processInstances :
    (s.recorded ids c a).processInstances = s.processInstances := by
  unfold recorded; split <;> rfl

@[simp] theorem recorded_timerCount : (s.recorded ids c a).timerCount = s.timerCount := by
  unfold recorded; split <;> rfl

@[simp] theorem recorded_log : (s.recorded ids c a).log = s.log ++ s.rows ids c a := by
  unfold recorded rows; split <;> simp [submit]

end

theorem WellKeyed.recorded {s : Stores} (h : s.WellKeyed) (ids : IdSupply) (c : CommandContext)
    (a : AuditContext) : (s.recorded ids c a).WellKeyed := by
  unfold Stores.recorded
  split
  · exact h.submit _
  · exact h

end Stores

/-! ## owners -/

namespace DefinitionSelection

def missing? (s : Stores) (x : DefinitionSelection) : Option EngineError :=
  match x.jobDefinitionId with
  | some id => if s.definitions.get? id = none then some (.noJobDefinition id) else none
  | none => none

def withOwners (s : Stores) (x : DefinitionSelection) : DefinitionSelection :=
  match x.jobDefinitionId.bind s.definitions.get? with
  | some d => { x with
      processDefinitionId := some d.processDefinitionId
      processDefinitionKey := some d.processDefinitionKey }
  | none => x

end DefinitionSelection

namespace JobSelection

def missing? (s : Stores) (x : JobSelection) : Option EngineError :=
  match x.jobId, x.jobDefinitionId with
  | some id, _ => if s.jobs.get? id = none then some (.noJob id) else none
  | none, some id =>
    if s.definitions.get? id = none then some (.noJobDefinition id) else none
  | none, none => none

/-- what a job says about its owners replaces everything; a job definition only says from which
process definition it is -/
def withOwners (s : Stores) (x : JobSelection) : JobSelection :=
  match x.jobId with
  | some id =>
    match s.jobs.get? id with
    | some j => {
        jobId := some id
        jobDefinitionId := j.jobDefinitionId
        processInstanceId := j.processInstanceId
        processDefinitionId := j.processDefinitionId
        processDefinitionKey := j.processDefinitionKey }
    | none => x
  | none =>
    match x.jobDefinitionId.bind s.definitions.get? with
    | some d => { x with
        processDefinitionId := some d.processDefinitionId
        processDefinitionKey := some d.processDefinitionKey }
    | none => x

end JobSelection

/-! ## the journal -/

namespace Journal

variable {env : Environment} (henv : env.Reliable) (s : Stores)
include henv

theorem run_requireJob (id : String) :
    (requireJob id).run env s =
      match s.jobs.get? id with
      | some j => (.ok j, s)
      | none => (.error (.noJob id), s) := by
  rw [requireJob, Command.run_bind, Command.run_call henv]
  show (found _ (s.jobs.get? id)).run env s = _
  cases s.jobs.get? id <;> rfl

theorem run_requireJobDefinition (id : String) :
    (requireJobDefinition id).run env s =
      match s.definitions.get? id with
      | some d => (.ok d, s)
      | none => (.error (.noJobDefinition id), s) := by
  rw [requireJobDefinition, Command.run_bind, Command.run_call henv]
  show (found _ (s.definitions.get? id)).run env s = _
  cases s.definitions.get? id <;> rfl

theorem run_requireProcessInstance (id : String) :
    (requireProcessInstance id).run env s =
      match s.processInstances.get? id with
      | some p => (.ok p, s)
      | none => (.error (.noProcessInstance id), s) := by
  rw [requireProcessInstance, Command.run_bind, Command.run_call henv]
  show (found _ (s.processInstances.get? id)).run env s = _
  cases s.processInstances.get? id <;> rfl

theorem run_ownersOfDefinitions (x : DefinitionSelection) :
    (ownersOfDefinitions x).run env s =
      match x.missing? s with
      | some e => (.error e, s)
      | none => (.ok (x.withOwners s), s) := by
  obtain ⟨id, pid, key⟩ := x
  cases id with
  | none => rfl
  | some id =>
    simp only [ownersOfDefinitions, Command.run_bind, run_requireJobDefinition henv,
      DefinitionSelection.missing?, DefinitionSelection.withOwners, Option.bind_some]
    cases s.definitions.get? id <;> rfl

theorem run_ownersOfJobs (x : JobSelection) :
    (ownersOfJobs x).run env s =
      match x.missing? s with
      | some e => (.error e, s)
      | none => (.ok (x.withOwners s), s) := by
  obtain ⟨id, did, iid, pid, key⟩ := x
  cases id with
  | some id =>
    simp only [ownersOfJobs, Command.run_bind, run_requireJob henv, JobSelection.missing?,
      JobSelection.withOwners]
    cases s.jobs.get? id <;> rfl
  | none =>
    cases did with
    | none => rfl
    | some did =>
      simp only [ownersOfJobs, Command.run_bind, run_requireJobDefinition henv,
        JobSelection.missing?, JobSelection.withOwners, Option.bind_some]
      cases s.definitions.get? did <;> rfl

theorem run_record (c : CommandContext) (a : AuditContext) :
    (record c a).run env s = (.ok (s.recordedId env.ids c a), s.recorded env.ids c a) := by
  unfold record whenDetailed Stores.recorded Stores.recordedId
  split
  · rw [Command.run_bind, Command.run_call henv]
    show Command.run env _ s = _
    rw [Command.run_bind, Command.run_call henv]
    rfl
  · rfl

/-- the row of a change of job definitions; only detailed auditing looks the definition up -/
theorem run_jobDefinition (c : CommandContext) (o : OperationType) (x : DefinitionSelection)
    (change : PropertyChange) :
    (jobDefinition c o x change).run env s =
      match if c.isDetailed then x.normalized.missing? s else none with
      | some e => (.error e, s)
      | none =>
        let a := AuditContext.ofJobDefinition o (x.normalized.withOwners s) change
        (.ok (s.recordedId env.ids c a), s.recorded env.ids c a) := by
  unfold jobDefinition whenDetailed
  split
  · rw [Command.run_bind, run_ownersOfDefinitions henv]
    cases x.normalized.missing? s with
    | some e => rfl
    | none => exact run_record henv s c _
  · next h =>
    simp only [Stores.recordedId, Stores.recorded, if_neg h]
    rfl

/-- the row of a change of jobs -/
theorem run_job (c : CommandContext) (operationId : Option String) (o : OperationType)
    (x : JobSelection) (change : PropertyChange) :
    (job c operationId o x change).run env s =
      match if c.isDetailed then x.normalized.missing? s else none with
      | some e => (.error e, s)
      | none =>
        let a := AuditContext.ofJob operationId o (x.normalized.withOwners s) change
        (.ok (s.recordedId env.ids c a), s.recorded env.ids c a) := by
  unfold job whenDetailed
  split
  · rw [Command.run_bind, run_ownersOfJobs henv]
    cases x.normalized.missing? s with
    | some e => rfl
    | none => exact run_record henv s c _
  · next h =>
    simp only [Stores.recordedId, Stores.recorded, if_neg h]
    rfl

end Journal
end JobSuspension
