import JobSuspension.Proofs.Outcomes

/-!
# How far a change gets when calls fail

Whatever fails, a change of states does the same things in the same order and only stops earlier: it
is recorded, the job definitions change, the start timers change, the change of the jobs is
recorded, and the jobs change.  A call that fails has done nothing, so the stores are always those
between two of these stages.

* `Command.run_call_cases`        a call is answered, or nothing has happened;
* `Journal.run_found_cases`       a record is looked up and found, or nothing has happened;
* `Journal.run_record_cases`, `Journal.run_jobDefinition_cases`, `Journal.run_job_cases`
                                  an operation is recorded as a whole, or not at all;
* `JobChangeStage`, `setJobState_stage`            where a change of jobs can stop;
* `ApplyStage`, `applyState_stage`                where a change that was recorded can stop;
* `ChangeStage`, `setJobDefinitionState_stage`     where a change of job definitions can stop.
-/

namespace JobSuspension

/-! ## calls -/

theorem Command.run_call_cases (env : Environment) (s : Stores) (c : Call) :
    (∃ e, (call c).run env s = (.error e, s)) ∨
      ∃ r s', c.perform env s = .ok (r, s') ∧ (call c).run env s = (.ok r, s') := by
  rw [call, run_next, Call.answer]
  cases env.fault c.kind with
  | some e => exact .inl ⟨e, rfl⟩
  | none =>
    cases h : c.perform env s with
    | error e => exact .inl ⟨e, rfl⟩
    | ok answer => exact .inr ⟨answer.1, answer.2, rfl, rfl⟩

theorem Command.run_read_cases (env : Environment) (s : Stores) (c : Call) {r : c.Reply}
    (hread : c.perform env s = .ok (r, s)) :
    (∃ e, (call c).run env s = (.error e, s)) ∨ (call c).run env s = (.ok r, s) := by
  rcases run_call_cases env s c with h | ⟨r', s', hperform, h⟩
  · exact .inl h
  · cases hread.symm.trans hperform
    exact .inr h

section
variable (env : Environment) (s : Stores) (state : SuspensionState)

theorem Command.run_updateDefinitions_cases (x : DefinitionSelector) :
    (∃ e, (call (.updateDefinitions x state)).run env s = (.error e, s)) ∨
      (call (.updateDefinitions x state)).run env s =
        (.ok (), s.setDefinitions x.selects state) := by
  rcases run_call_cases env s (.updateDefinitions x state) with h | ⟨_, s', hperform, h⟩
  · exact .inl h
  · simp only [Call.perform] at hperform
    cases hupdate : s.updateDefinitions x state with
    | error e => rw [hupdate] at hperform; cases hperform
    | ok _ =>
      rw [hupdate] at hperform
      cases hperform
      exact .inr (Stores.eq_of_updateDefinitions hupdate ▸ h)

theorem Command.run_updateJobs_cases (x : JobSelector) :
    (∃ e, (call (.updateJobs x state)).run env s = (.error e, s)) ∨
      (call (.updateJobs x state)).run env s = (.ok (), s.setJobs x.selects state) := by
  rcases run_call_cases env s (.updateJobs x state) with h | ⟨_, s', hperform, h⟩
  · exact .inl h
  · simp only [Call.perform] at hperform
    cases hupdate : s.updateJobs x state with
    | error e => rw [hupdate] at hperform; cases hperform
    | ok _ =>
      rw [hupdate] at hperform
      cases hperform
      exact .inr (Stores.eq_of_updateJobs hupdate ▸ h)

theorem run_setStartTimers_cases (t : Transition) (x : DefinitionSelector) :
    (∃ e, (setStartTimers t x).run env s = (.error e, s)) ∨
      (setStartTimers t x).run env s = (.ok (), s.setStartTimers x t.target) := by
  unfold setStartTimers Stores.setStartTimers
  cases x.processDefinition? with
  | none => exact .inr rfl
  | some p =>
    rcases Command.run_call_cases env s (.updateStartTimers p t.target) with
      h | ⟨_, s', hperform, h⟩
    · exact .inl h
    · cases hperform
      exact .inr h

end

/-! ## recording -/

namespace Journal

variable (env : Environment) (s : Stores)

theorem run_record_cases (c : CommandContext) (a : AuditContext) :
    (∃ e, (record c a).run env s = (.error e, s)) ∨
      (record c a).run env s = (.ok (s.recordedId env.ids c a), s.recorded env.ids c a) := by
  unfold record whenDetailed Stores.recorded Stores.recordedId
  split
  · rw [Command.run_bind]
    rcases Command.run_call_cases env s (.produceEntries c a) with ⟨e, h⟩ | ⟨x, s', hperform, h⟩
    · exact .inl ⟨e, by rw [h]⟩
    · cases hperform
      rw [h]
      show (∃ e, Command.run env _ s = _) ∨ Command.run env _ s = _
      rw [Command.run_bind]
      rcases Command.run_call_cases env s (.recordEntries (s.produce env.ids c a)) with
        ⟨e, h⟩ | ⟨_, s', hperform, h⟩
      · exact .inl ⟨e, by rw [h]⟩
      · cases hperform
        exact .inr (by rw [h]; rfl)
  · exact .inr rfl

/-- what is looked up is found, or the lookup fails -/
theorem run_found_cases {α : Type} {found? : Option α} {p : Command (Option α)}
    (hp : (∃ e, p.run env s = (.error e, s)) ∨ p.run env s = (.ok found?, s))
    (missing : EngineError) :
    (∃ e, (p >>= found missing).run env s = (.error e, s)) ∨
      ∃ a, found? = some a ∧ (p >>= found missing).run env s = (.ok a, s) := by
  rw [Command.run_bind]
  rcases hp with ⟨e, h⟩ | h
  · exact .inl ⟨e, by rw [h]⟩
  · rw [h]
    cases found? with
    | none => exact .inl ⟨missing, rfl⟩
    | some a => exact .inr ⟨a, rfl, rfl⟩

theorem run_requireJob_cases (id : String) :
    (∃ e, (requireJob id).run env s = (.error e, s)) ∨
      ∃ j, s.jobs.get? id = some j ∧ (requireJob id).run env s = (.ok j, s) :=
  run_found_cases env s (Command.run_read_cases env s (.findJob id) rfl) _

theorem run_requireJobDefinition_cases (id : String) :
    (∃ e, (requireJobDefinition id).run env s = (.error e, s)) ∨
      ∃ d, s.definitions.get? id = some d ∧ (requireJobDefinition id).run env s = (.ok d, s) :=
  run_found_cases env s (Command.run_read_cases env s (.findJobDefinition id) rfl) _

theorem run_requireProcessInstance_cases (id : String) :
    (∃ e, (requireProcessInstance id).run env s = (.error e, s)) ∨
      ∃ p, s.processInstances.get? id = some p ∧
        (requireProcessInstance id).run env s = (.ok p, s) :=
  run_found_cases env s (Command.run_read_cases env s (.findProcessInstance id) rfl) _

theorem run_ownersOfDefinitions_cases (x : DefinitionSelection) :
    (∃ e, (ownersOfDefinitions x).run env s = (.error e, s)) ∨
      (ownersOfDefinitions x).run env s = (.ok (x.withOwners s), s) := by
  obtain ⟨id, pid, key⟩ := x
  cases id with
  | none => exact .inr rfl
  | some id =>
    simp only [ownersOfDefinitions, Command.run_bind, DefinitionSelection.withOwners,
      Option.bind_some]
    rcases run_requireJobDefinition_cases env s id with ⟨e, h⟩ | ⟨d, hd, h⟩
    · exact .inl ⟨e, by rw [h]⟩
    · exact .inr (by rw [h, hd]; rfl)

theorem run_ownersOfJobs_cases (x : JobSelection) :
    (∃ e, (ownersOfJobs x).run env s = (.error e, s)) ∨
      (ownersOfJobs x).run env s = (.ok (x.withOwners s), s) := by
  obtain ⟨id, did, iid, pid, key⟩ := x
  cases id with
  | some id =>
    simp only [ownersOfJobs, Command.run_bind, JobSelection.withOwners]
    rcases run_requireJob_cases env s id with ⟨e, h⟩ | ⟨j, hj, h⟩
    · exact .inl ⟨e, by rw [h]⟩
    · exact .inr (by rw [h, hj]; rfl)
  | none =>
    cases did with
    | none => exact .inr rfl
    | some did =>
      simp only [ownersOfJobs, Command.run_bind, JobSelection.withOwners, Option.bind_some]
      rcases run_requireJobDefinition_cases env s did with ⟨e, h⟩ | ⟨d, hd, h⟩
      · exact .inl ⟨e, by rw [h]⟩
      · exact .inr (by rw [h, hd]; rfl)

theorem run_jobDefinition_cases (c : CommandContext) (o : OperationType) (x : DefinitionSelection)
    (change : PropertyChange) :
    (∃ e, (jobDefinition c o x change).run env s = (.error e, s)) ∨
      (jobDefinition c o x change).run env s =
        (.ok (s.recordedId env.ids c (.ofJobDefinition o (x.normalized.withOwners s) change)),
          s.recorded env.ids c (.ofJobDefinition o (x.normalized.withOwners s) change)) := by
  unfold jobDefinition whenDetailed
  split
  · rw [Command.run_bind]
    rcases run_ownersOfDefinitions_cases env s x.normalized with ⟨e, h⟩ | h
    · exact .inl ⟨e, by rw [h]⟩
    · rw [h]
      exact run_record_cases env s c _
  · next hc =>
    simp only [Stores.recordedId, Stores.recorded, if_neg hc]
    exact .inr rfl

theorem run_job_cases (c : CommandContext) (operationId : Option String) (o : OperationType)
    (x : JobSelection) (change : PropertyChange) :
    (∃ e, (job c operationId o x change).run env s = (.error e, s)) ∨
      (job c operationId o x change).run env s =
        (.ok (s.recordedId env.ids c (.ofJob operationId o (x.normalized.withOwners s) change)),
          s.recorded env.ids c (.ofJob operationId o (x.normalized.withOwners s) change)) := by
  unfold job whenDetailed
  split
  · rw [Command.run_bind]
    rcases run_ownersOfJobs_cases env s x.normalized with ⟨e, h⟩ | h
    · exact .inl ⟨e, by rw [h]⟩
    · rw [h]
      exact run_record_cases env s c _
  · next hc =>
    simp only [Stores.recordedId, Stores.recorded, if_neg hc]
    exact .inr rfl

/-- the owners are those of the process instance on record, if one is given -/
theorem run_processInstance_cases (c : CommandContext) (operationId : Option String)
    (o : OperationType) (instanceId definitionId definitionKey : Option String)
    (change : PropertyChange) :
    (∃ e, (processInstance c operationId o instanceId definitionId definitionKey change).run env s =
        (.error e, s)) ∨
      ∃ i d k, (processInstance c operationId o instanceId definitionId definitionKey change).run
          env s =
        (.ok (s.recordedId env.ids c (.ofProcessInstance operationId o i d k change)),
          s.recorded env.ids c (.ofProcessInstance operationId o i d k change)) := by
  unfold processInstance whenDetailed
  split
  · split
    · next id _ =>
      rw [Command.run_bind]
      rcases run_requireProcessInstance_cases env s id with ⟨e, h⟩ | ⟨p, -, h⟩
      · exact .inl ⟨e, by rw [h]⟩
      · rw [h]
        exact (run_record_cases env s c _).imp_right fun h => ⟨_, _, _, h⟩
    · exact (run_record_cases env s c _).imp_right fun h => ⟨_, _, _, h⟩
  · next hc =>
    refine .inr ⟨none, definitionId, definitionKey, ?_⟩
    simp only [Stores.recordedId, Stores.recorded, if_neg hc]
    rfl

end Journal

/-! ## jobs -/

/-- what a change of jobs records before it is made -/
def JobSelection.audit (s : Stores) (t : Transition) (operationId : Option String)
    (x : JobSelection) : AuditContext :=
  .ofJob operationId t.jobOperation (x.normalized.withOwners s) t.change

inductive JobChangeStage (s : Stores) (ids : IdSupply) (c : CommandContext) (t : Transition)
    (x : JobSelection) (o : Option String) : Except EngineError Unit × Stores → Prop where
  | untouched (e : EngineError) : JobChangeStage s ids c t x o (.error e, s)
  | recorded (e : EngineError) :
      JobChangeStage s ids c t x o (.error e, s.recorded ids c (x.audit s t o))
  | changed {sel : JobSelector} (hx : x.find? = some sel) :
      JobChangeStage s ids c t x o
        (.ok (), (s.recorded ids c (x.audit s t o)).setJobs sel.selects t.target)

theorem setJobState_stage (env : Environment) (s : Stores) (c : CommandContext) (t : Transition)
    (x : JobSelection) (o : Option String) :
    JobChangeStage s env.ids c t x o ((setJobState c t x o).run env s) := by
  cases hx : x.find? with
  | none =>
    have hrun : (setJobState c t x o).run env s = (.error .noJobSelector, s) := by
      simp only [setJobState, Command.run_bind, Command.run_liftM, JobSelection.resolve,
        JobSelection.find_normalized, hx]
    rw [hrun]
    exact .untouched _
  | some sel =>
    simp only [setJobState, Command.run_bind, Command.run_liftM, JobSelection.resolve,
      JobSelection.find_normalized, hx]
    have hjob := Journal.run_job_cases env s c o t.jobOperation x.normalized t.change
    rw [JobSelection.normalized_normalized] at hjob
    rcases hjob with ⟨e, h⟩ | h
    · rw [h]
      exact .untouched e
    · rw [h]
      show JobChangeStage s env.ids c t x o
        ((Command.call (.updateJobs sel t.target)).run env (s.recorded env.ids c (x.audit s t o)))
      rcases Command.run_updateJobs_cases env (s.recorded env.ids c (x.audit s t o)) t.target sel
        with ⟨e, h⟩ | h
      · rw [h]
        exact .recorded e
      · rw [h]
        exact .changed hx

/-! ## job definitions -/

/-- what a change of job definitions records of its jobs, once the job definitions have changed -/
def DefinitionSelector.jobAudit (s : Stores) (t : Transition) (operationId : Option String)
    (x : DefinitionSelector) : AuditContext :=
  x.toSelection.toJobSelection.audit s t operationId

inductive ApplyStage (s : Stores) (ids : IdSupply) (c : CommandContext) (t : Transition)
    (x : DefinitionSelector) (b : Bool) (o : Option String) :
    Except EngineError Unit × Stores → Prop where
  | untouched (e : EngineError) : ApplyStage s ids c t x b o (.error e, s)
  | definitions (e : EngineError) :
      ApplyStage s ids c t x b o (.error e, s.setDefinitions x.selects t.target)
  | startTimers (e : EngineError) :
      ApplyStage s ids c t x b o (.error e, s.applied ids c t x false o)
  | jobsRecorded (e : EngineError) (hb : b = true) :
      ApplyStage s ids c t x b o
        (.error e, (s.applied ids c t x false o).recorded ids c
          (x.jobAudit (s.applied ids c t x false o) t o))
  | changed : ApplyStage s ids c t x b o (.ok (), s.applied ids c t x b o)

theorem applyState_stage (env : Environment) (s : Stores) (c : CommandContext) (t : Transition)
    {x : DefinitionSelector} (hv : Text.isBlank x.value = false) (b : Bool) {o : Option String}
    (ho : c.isDetailed = false → o = none) :
    ApplyStage s env.ids c t x b o ((applyState c t x b o).run env s) := by
  have hfilter : (o.filter fun _ => c.isDetailed) = o := by
    cases hc : c.isDetailed with
    | false => rw [ho hc]; rfl
    | true => cases o <;> rfl
  unfold applyState
  rw [Command.run_bind, hfilter]
  rcases Command.run_updateDefinitions_cases env s t.target x with ⟨e, h⟩ | h
  · rw [h]
    exact .untouched e
  · rw [h]
    simp only [Command.run_bind]
    rcases run_setStartTimers_cases env (s.setDefinitions x.selects t.target) t x with ⟨e, h⟩ | h
    · rw [h]
      exact .definitions e
    · rw [h]
      cases b with
      | false => exact .changed
      | true =>
        show ApplyStage s env.ids c t x true o
          ((setJobState c t x.toSelection.toJobSelection o).run env
            (s.applied env.ids c t x false o))
        have hstage := setJobState_stage env (s.applied env.ids c t x false o) c t
          x.toSelection.toJobSelection o
        have hchanged : s.applied env.ids c t x true o =
            ((s.applied env.ids c t x false o).recorded env.ids c
              (x.jobAudit (s.applied env.ids c t x false o) t o)).setJobs x.jobSelector.selects
                t.target := by
          unfold DefinitionSelector.jobAudit JobSelection.audit
          rw [DefinitionSelector.normalized_toJobSelection hv]
          rfl
        generalize (setJobState c t x.toSelection.toJobSelection o).run env _ = result at hstage
        cases hstage with
        | untouched e => exact .startTimers e
        | recorded e => exact .jobsRecorded e rfl
        | changed hx =>
          obtain rfl := Option.some.inj ((DefinitionSelector.find?_toJobSelection hv).symm.trans hx)
          exact hchanged ▸ .changed

inductive ChangeStage (s : Stores) (ids : IdSupply) (c : CommandContext) (t : Transition)
    (r : StateRequest) : Except EngineError Unit × Stores → Prop where
  | untouched (e : EngineError) : ChangeStage s ids c t r (.error e, s)
  | recorded (e : EngineError) :
      ChangeStage s ids c t r (.error e, s.recorded ids c (r.selection.audit s t))
  | applied {sel : DefinitionSelector} (hx : r.selection.find? = some sel)
      (hd : r.executionDate = none) {result : Except EngineError Unit × Stores}
      (h : ApplyStage (s.recorded ids c (r.selection.audit s t)) ids c t sel r.includeJobs
        (s.recordedId ids c (r.selection.audit s t)) result) :
      ChangeStage s ids c t r result
  | scheduled {sel : DefinitionSelector} {date : Instant} (hx : r.selection.find? = some sel)
      (hd : r.executionDate = some date) :
      ChangeStage s ids c t r
        (.ok (), (s.recorded ids c (r.selection.audit s t)).addTimer (ids.timer s.timerCount)
          ⟨date, t, (TimerConfiguration.mk sel r.includeJobs).encode⟩)

theorem setJobDefinitionState_stage (env : Environment) (s : Stores) (c : CommandContext)
    (t : Transition) (r : StateRequest) :
    ChangeStage s env.ids c t r ((setJobDefinitionState c t r).run env s) := by
  cases hx : r.selection.find? with
  | none =>
    have hrun : (setJobDefinitionState c t r).run env s = (.error .noDefinitionSelector, s) := by
      simp only [setJobDefinitionState, Command.run_bind, Command.run_liftM,
        DefinitionSelection.resolve, DefinitionSelection.find_normalized, hx]
    rw [hrun]
    exact .untouched _
  | some sel =>
    have hv := (DefinitionSelection.find?_eq_some hx).2
    have hjournal := Journal.run_jobDefinition_cases env s c t.operation r.selection.normalized
      t.change
    rw [DefinitionSelection.normalized_normalized] at hjournal
    simp only [setJobDefinitionState, Command.run_bind, Command.run_liftM,
      DefinitionSelection.resolve, DefinitionSelection.find_normalized, hx]
    rcases hjournal with ⟨e, h⟩ | h
    · rw [h]
      exact .untouched e
    · rw [h]
      cases hd : r.executionDate with
      | none =>
        refine .applied hx hd (applyState_stage env _ c t hv r.includeJobs fun hc => ?_)
        rw [Stores.recordedId, hc]
        rfl
      | some date =>
        show ChangeStage s env.ids c t r ((scheduleState t sel r.includeJobs date).run env
          (s.recorded env.ids c (r.selection.audit s t)))
        rw [scheduleState, TimerConfiguration.forSelector_eq_encode, Command.run_bind]
        rcases Command.run_call_cases env (s.recorded env.ids c (r.selection.audit s t))
          (.scheduleTimer ⟨date, t, (TimerConfiguration.mk sel r.includeJobs).encode⟩) with
          ⟨e, h⟩ | ⟨_, s', hperform, h⟩
        · rw [h]
          exact .recorded e
        · cases hperform
          rw [h, Stores.recorded_timerCount]
          exact .scheduled hx hd

end JobSuspension
