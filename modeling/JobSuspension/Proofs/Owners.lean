import JobSuspension.Proofs.LogHistory

/-!
# Owners on record

The rows of an operation say what it was about.  If the caller names a record that is looked up, the
rows say of its owners what the record says, whatever the caller says of them; and if there is no
such record, the operation is refused.

* `Subject`                  a record that is looked up, with `StoredIn` and `notFound`;
* `LogCall.Names l x`        the record that a call names, a job before its job definition;
* `LogCall.said`             what the caller says a call is about;
* `LogCall.About s l about`  what its rows say, one rule for each kind of record;
* `LogCall.Records env c s l about`   it is carried out, with rows about `about`;
* `run_of_missing`, `records_of_about`   what a call comes to without the record and with it;
* `rows_name_owners_on_record`   both of them, and that there is no third case.
-/

namespace JobSuspension

/-! ## what is looked up -/

inductive Subject where
  | job (id : String)
  | jobDefinition (id : String)
  | processInstance (id : String)

namespace Subject

def StoredIn (s : Stores) : Subject → Prop
  | job id => s.jobs.get? id ≠ none
  | jobDefinition id => s.definitions.get? id ≠ none
  | processInstance id => s.processInstances.get? id ≠ none

def notFound : Subject → EngineError
  | job id => .noJob id
  | jobDefinition id => .noJobDefinition id
  | processInstance id => .noProcessInstance id

theorem kind_notFound (x : Subject) : x.notFound.kind = .notFound := by
  cases x <;> rfl

end Subject

namespace LogCall

inductive Names : LogCall → Subject → Prop where
  | job {operationId : Option String} {o : OperationType} {x : JobSelection}
      {change : PropertyChange} {id : String} (hid : Text.present? x.jobId = some id) :
      Names (.job operationId o x change) (.job id)
  | jobDefinitionOfJobs {operationId : Option String} {o : OperationType} {x : JobSelection}
      {change : PropertyChange} {id : String} (hjob : Text.present? x.jobId = none)
      (hid : Text.present? x.jobDefinitionId = some id) :
      Names (.job operationId o x change) (.jobDefinition id)
  | jobDefinition {o : OperationType} {x : DefinitionSelection} {change : PropertyChange}
      {id : String} (hid : Text.present? x.jobDefinitionId = some id) :
      Names (.jobDefinition o x change) (.jobDefinition id)
  | processInstance {operationId : Option String} {o : OperationType}
      {instanceId definitionId definitionKey : Option String} {change : PropertyChange}
      {id : String} (hid : Text.present? instanceId = some id) :
      Names (.processInstance operationId o instanceId definitionId definitionKey change)
        (.processInstance id)

/-- blanks of a selection count for nothing; the definition of a process is taken as it is given -/
def said : LogCall → AuditSelection
  | record audit => audit.selection
  | task _ t _ => t.toAudit
  | link _ t _ => t.toAudit
  | attachment _ t _ => t.toAudit
  | processInstance _ _ instanceId definitionId definitionKey _ =>
    { processInstanceId := Text.present? instanceId
      processDefinitionId := definitionId
      processDefinitionKey := definitionKey }
  | processDefinition _ definitionId definitionKey _ =>
    { processDefinitionId := definitionId
      processDefinitionKey := definitionKey }
  | job _ _ x _ =>
    { jobId := Text.present? x.jobId
      jobDefinitionId := Text.present? x.jobDefinitionId
      processInstanceId := Text.present? x.processInstanceId
      processDefinitionId := Text.present? x.processDefinitionId
      processDefinitionKey := Text.present? x.processDefinitionKey }
  | jobDefinition _ x _ =>
    { jobDefinitionId := Text.present? x.jobDefinitionId
      processDefinitionId := Text.present? x.processDefinitionId
      processDefinitionKey := Text.present? x.processDefinitionKey }
  | jobRetries _ x _ => x.normalized.toAudit

inductive About (s : Stores) (l : LogCall) : AuditSelection → Prop where
  /-- a job says everything, and what it leaves open stays open -/
  | job {id : String} {j : Job} (hl : l.Names (.job id)) (hj : s.jobs.get? id = some j) :
      About s l
        { jobId := some id
          jobDefinitionId := j.jobDefinitionId
          processInstanceId := j.processInstanceId
          processDefinitionId := j.processDefinitionId
          processDefinitionKey := j.processDefinitionKey }
  | jobDefinition {id : String} {d : JobDefinition} (hl : l.Names (.jobDefinition id))
      (hd : s.definitions.get? id = some d) :
      About s l
        { l.said with
          processDefinitionId := some d.processDefinitionId
          processDefinitionKey := some d.processDefinitionKey }
  | processInstance {id : String} {p : ProcessInstance} (hl : l.Names (.processInstance id))
      (hp : s.processInstances.get? id = some p) :
      About s l
        { l.said with
          processDefinitionId := some p.processDefinitionId
          processDefinitionKey := some p.processDefinitionKey }
  | asSaid (hl : ∀ x, ¬ l.Names x) : About s l l.said

/-- a record is missing, or the rows can be written -/
theorem about_or_missing (s : Stores) (l : LogCall) :
    (∃ about, l.About s about) ∨ ∃ x, l.Names x ∧ ¬ x.StoredIn s := by
  by_cases hl : ∃ x, l.Names x
  · obtain ⟨x, hx⟩ := hl
    by_cases hstored : x.StoredIn s
    · left
      cases x with
      | job id =>
        obtain ⟨j, hj⟩ := Option.ne_none_iff_exists'.mp hstored
        exact ⟨_, .job hx hj⟩
      | jobDefinition id =>
        obtain ⟨d, hd⟩ := Option.ne_none_iff_exists'.mp hstored
        exact ⟨_, .jobDefinition hx hd⟩
      | processInstance id =>
        obtain ⟨p, hp⟩ := Option.ne_none_iff_exists'.mp hstored
        exact ⟨_, .processInstance hx hp⟩
    · exact .inr ⟨x, hx, hstored⟩
  · exact .inl ⟨_, .asSaid (not_exists.mp hl)⟩

end LogCall

/-! ## running a call -/

namespace LogCall

/-- the call is carried out, and its rows are about `about` -/
def Records (env : Environment) (c : CommandContext) (s : Stores) (l : LogCall)
    (about : AuditSelection) : Prop :=
  ∃ a, l.Says a ∧ a.selection = about ∧
    (l.command c).run env s = (.ok (s.recordedId env.ids c a), s.recorded env.ids c a)

variable {env : Environment} (henv : env.Reliable) {c : CommandContext}
  (hc : c.isDetailed = true) {s : Stores} {l : LogCall}
include henv hc

theorem run_of_missing {x : Subject} (hl : l.Names x) (hx : ¬ x.StoredIn s) :
    (l.command c).run env s = (.error x.notFound, s) := by
  cases hl with
  | @job operationId o x change id hid =>
    have hmissing : x.normalized.missing? s = some (.noJob id) := by
      simp only [JobSelection.missing?, JobSelection.normalized, hid]
      exact if_pos (not_not.mp hx)
    rw [command, Journal.run_job henv, if_pos hc, hmissing]
    rfl
  | @jobDefinitionOfJobs operationId o x change id hjob hid =>
    have hmissing : x.normalized.missing? s = some (.noJobDefinition id) := by
      simp only [JobSelection.missing?, JobSelection.normalized, hjob, hid]
      exact if_pos (not_not.mp hx)
    rw [command, Journal.run_job henv, if_pos hc, hmissing]
    rfl
  | @jobDefinition o x change id hid =>
    have hmissing : x.normalized.missing? s = some (.noJobDefinition id) := by
      simp only [DefinitionSelection.missing?, DefinitionSelection.normalized, hid]
      exact if_pos (not_not.mp hx)
    rw [command, Journal.run_jobDefinition henv, if_pos hc, hmissing]
    rfl
  | @processInstance operationId o instanceId definitionId definitionKey change id hid =>
    have hnone : s.processInstances.get? id = none := not_not.mp hx
    simp only [command, Journal.processInstance, Journal.whenDetailed, if_pos hc, hid,
      Command.run_bind, Journal.run_requireProcessInstance henv, hnone]
    rfl

section
variable {o : OperationType} {change : PropertyChange} {about : AuditSelection}

/-- a call that is not refused records what the caller says together with the owners on record -/
theorem job_records {operationId : Option String} {x : JobSelection}
    (hmissing : x.normalized.missing? s = none)
    (habout : (x.normalized.withOwners s).toAudit = about) :
    (LogCall.job operationId o x change).Records env c s about := by
  refine ⟨.ofJob operationId o (x.normalized.withOwners s) change, ⟨rfl, rfl, rfl⟩, habout, ?_⟩
  rw [command, Journal.run_job henv, if_pos hc, hmissing]

theorem jobDefinition_records {x : DefinitionSelection}
    (hmissing : x.normalized.missing? s = none)
    (habout : (x.normalized.withOwners s).toAudit = about) :
    (LogCall.jobDefinition o x change).Records env c s about := by
  refine ⟨.ofJobDefinition o (x.normalized.withOwners s) change, ⟨rfl, rfl, rfl⟩, habout, ?_⟩
  rw [command, Journal.run_jobDefinition henv, if_pos hc, hmissing]

end

/-! ### one lemma for each rule -/

theorem records_job {id : String} {j : Job} (hl : l.Names (.job id))
    (hj : s.jobs.get? id = some j) :
    l.Records env c s
      { jobId := some id
        jobDefinitionId := j.jobDefinitionId
        processInstanceId := j.processInstanceId
        processDefinitionId := j.processDefinitionId
        processDefinitionKey := j.processDefinitionKey } := by
  cases hl with
  | job hid =>
    refine job_records henv hc ?_ ?_
    · simp [JobSelection.missing?, JobSelection.normalized, hid, hj]
    · simp [JobSelection.withOwners, JobSelection.normalized, JobSelection.toAudit, hid, hj]

theorem records_jobDefinition {id : String} {d : JobDefinition} (hl : l.Names (.jobDefinition id))
    (hd : s.definitions.get? id = some d) :
    l.Records env c s
      { l.said with
        processDefinitionId := some d.processDefinitionId
        processDefinitionKey := some d.processDefinitionKey } := by
  cases hl with
  | jobDefinitionOfJobs hjob hid =>
    refine job_records henv hc ?_ ?_
    · simp [JobSelection.missing?, JobSelection.normalized, hjob, hid, hd]
    · simp [JobSelection.withOwners, JobSelection.normalized, JobSelection.toAudit, said, hjob,
        hid, hd]
  | jobDefinition hid =>
    refine jobDefinition_records henv hc ?_ ?_
    · simp [DefinitionSelection.missing?, DefinitionSelection.normalized, hid, hd]
    · simp [DefinitionSelection.withOwners, DefinitionSelection.normalized,
        DefinitionSelection.toAudit, said, hid, hd]

theorem records_processInstance {id : String} {p : ProcessInstance}
    (hl : l.Names (.processInstance id)) (hp : s.processInstances.get? id = some p) :
    l.Records env c s
      { l.said with
        processDefinitionId := some p.processDefinitionId
        processDefinitionKey := some p.processDefinitionKey } := by
  cases hl with
  | @processInstance operationId o instanceId definitionId definitionKey change _ hid =>
    refine ⟨.ofProcessInstance operationId o (some id) (some p.processDefinitionId)
      (some p.processDefinitionKey) change, ⟨rfl, rfl, rfl⟩, ?_, ?_⟩
    · simp [AuditContext.ofProcessInstance, said, hid]
    · simp only [command, Journal.processInstance, Journal.whenDetailed, if_pos hc, hid,
        Command.run_bind, Journal.run_requireProcessInstance henv, hp]
      exact Journal.run_record henv s c _

theorem records_said (hl : ∀ x, ¬ l.Names x) : l.Records env c s l.said := by
  cases l with
  | processInstance operationId o instanceId definitionId definitionKey change =>
    have hid : Text.present? instanceId = none :=
      Option.eq_none_iff_forall_ne_some.mpr fun id hid => hl _ (.processInstance hid)
    refine ⟨.ofProcessInstance operationId o none definitionId definitionKey change,
      ⟨rfl, rfl, rfl⟩, ?_, ?_⟩
    · simp [AuditContext.ofProcessInstance, said, hid]
    · simp only [command, Journal.processInstance, Journal.whenDetailed, if_pos hc, hid]
      exact Journal.run_record henv s c _
  | job operationId o x change =>
    have hjob : Text.present? x.jobId = none :=
      Option.eq_none_iff_forall_ne_some.mpr fun id hid => hl _ (.job hid)
    have hid : Text.present? x.jobDefinitionId = none :=
      Option.eq_none_iff_forall_ne_some.mpr fun id hid => hl _ (.jobDefinitionOfJobs hjob hid)
    refine job_records henv hc ?_ ?_
    · simp [JobSelection.missing?, JobSelection.normalized, hjob, hid]
    · simp [JobSelection.withOwners, JobSelection.normalized, JobSelection.toAudit, said, hjob,
        hid]
  | jobDefinition o x change =>
    have hid : Text.present? x.jobDefinitionId = none :=
      Option.eq_none_iff_forall_ne_some.mpr fun id hid => hl _ (.jobDefinition hid)
    refine jobDefinition_records henv hc ?_ ?_
    · simp [DefinitionSelection.missing?, DefinitionSelection.normalized, hid]
    · simp [DefinitionSelection.withOwners, DefinitionSelection.normalized,
        DefinitionSelection.toAudit, said, hid]
  | _ => exact ⟨_, ⟨rfl, rfl, rfl⟩, rfl, Journal.run_record henv s c _⟩

theorem records_of_about {about : AuditSelection} (h : l.About s about) :
    l.Records env c s about := by
  cases h with
  | job hl hj => exact records_job henv hc hl hj
  | jobDefinition hl hd => exact records_jobDefinition henv hc hl hd
  | processInstance hl hp => exact records_processInstance henv hc hl hp
  | asSaid hl => exact records_said henv hc hl

end LogCall

/-- **Rows name the owners on record.**  Under full auditing, and while the stores answer, a call
that names a record is refused exactly if there is no such record, and then nothing at all changes.
Otherwise its rows, one for each change, are about what the rules of `LogCall.About` say; and there
is always a rule, unless the record is missing. -/
theorem rows_name_owners_on_record {env : Environment} (henv : env.Reliable) {c : CommandContext}
    (hc : c.level = .full) (l : LogCall) (s : Stores) :
    let result := (l.command c).run env s
    (∀ about, l.About s about → ∃ id rows, result.1 = .ok (some id) ∧
      result.2.log = s.log ++ rows ∧ l.Group c id rows ∧ ∀ row ∈ rows, row.selection = about) ∧
    (∀ x, l.Names x → ¬ x.StoredIn s → result = (.error x.notFound, s)) ∧
    ((∃ e, result.1 = .error e ∧ e.kind = .notFound) ↔ ∃ x, l.Names x ∧ ¬ x.StoredIn s) ∧
    ((∃ about, l.About s about) ∨ ∃ x, l.Names x ∧ ¬ x.StoredIn s) := by
  intro result
  have hdetailed : c.isDetailed = true := CommandContext.isDetailed_eq_true.mpr hc
  have hrecorded (about : AuditSelection) (habout : l.About s about) :
      ∃ id rows, result.1 = .ok (some id) ∧ result.2.log = s.log ++ rows ∧ l.Group c id rows ∧
        ∀ row ∈ rows, row.selection = about := by
    obtain ⟨a, hsays, rfl, hrun⟩ := LogCall.records_of_about henv hdetailed habout
    have hid : s.recordedId env.ids c a = some (s.produce env.ids c a).operationId :=
      if_pos hdetailed
    have hlog : (s.recorded env.ids c a).log = s.log ++ (s.produce env.ids c a).entries := by
      rw [Stores.recorded_log, Stores.rows, if_pos hdetailed]
    refine ⟨_, _, by rw [← hid, show result = _ from hrun], by rw [← hlog, show result = _ from hrun],
      hsays.group c, fun row hrow => ?_⟩
    obtain ⟨-, -, rfl⟩ := List.mem_map.mp hrow
    rfl
  have hmissing (x : Subject) (hl : l.Names x) (hx : ¬ x.StoredIn s) :
      result = (.error x.notFound, s) := LogCall.run_of_missing henv hdetailed hl hx
  refine ⟨hrecorded, hmissing, ⟨?_, ?_⟩, l.about_or_missing s⟩
  · rintro ⟨e, he, -⟩
    refine (l.about_or_missing s).resolve_left ?_
    rintro ⟨about, habout⟩
    obtain ⟨id, rows, hok, -⟩ := hrecorded about habout
    cases he.symm.trans hok
  · rintro ⟨x, hl, hx⟩
    exact ⟨x.notFound, congrArg Prod.fst (hmissing x hl hx), x.kind_notFound⟩

/-- a job that belongs to a job definition and to no process, though the caller says otherwise; and
a job that is not there -/
theorem rows_name_owners_on_record_stale :
    let env : Environment := { ids := ⟨fun _ => "timer", fun _ => "entry", fun _ => "operation"⟩ }
    let c : CommandContext := { actor := none, level := .full }
    let j : Job := { id := "j", jobDefinitionId := some "d", handlerType := "message" }
    let s := Stores.putJob {} j
    let about (id : String) : LogCall := .job none .suspendJob
      { jobId := some id, jobDefinitionId := some "e", processDefinitionKey := some "order" } .empty
    let found := ((about "j").command c).run env s
    let missing := ((about "k").command c).run env s
    (∃ id rows, found.1 = .ok (some id) ∧ found.2.log = s.log ++ rows ∧
      (about "j").Group c id rows ∧
      ∀ row ∈ rows, row.selection = { jobId := some "j", jobDefinitionId := some "d" }) ∧
    missing = (.error (.noJob "k"), s) := by
  intro env c j s about found missing
  have henv : env.Reliable := ⟨fun _ => rfl, rfl⟩
  have hc : c.level = .full := rfl
  have hj : s.jobs.get? "j" = some j := by decide +kernel
  have hk : ¬ (Subject.job "k").StoredIn s := by
    show ¬ s.jobs.get? "k" ≠ none
    decide +kernel
  have hnamed (id : String) (h : Text.present? (some id) = some id) :
      (about id).Names (.job id) := .job h
  refine ⟨?_, ?_⟩
  · obtain ⟨hrecorded, -⟩ := rows_name_owners_on_record henv hc (about "j") s
    exact hrecorded _ (.job (hnamed "j" (by decide)) hj)
  · obtain ⟨-, hrefused, -⟩ := rows_name_owners_on_record henv hc (about "k") s
    exact hrefused _ (hnamed "k" (by decide)) hk

end JobSuspension
