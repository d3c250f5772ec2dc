import JobSuspension.Proofs.AuditTrail
import JobSuspension.Proofs.Deferral
import JobSuspension.Proofs.Indifference

/-!
# What only auditing looks up

Under full auditing the journal looks up the job definition that a change names by its id.  A change
of job definitions that is made at once looks for it again when it updates it, so there nobody can
tell.  A change that is left to a timer does not, and neither does a change of the jobs of a
definition: if the definition is missing they are refused under full auditing and carried out
without it.  In everything else auditing makes no difference to them.

* `DefinitionSelection.Misses x s id`, `JobSelection.Misses x s id`
                                 the selection comes down to the job definition `id`, which is not
                                 stored;
* `AlikeButTimer s r r'`         two runs from `s` end alike, up to the id of a new timer;
* `alike_schedule`, `alike_setJobState`   changes of which no definition is missing;
* `auditing_tells_only_missing_definitions`   all changes that are scheduled or are made to jobs.
-/

namespace JobSuspension

/-! ## missing job definitions -/

def DefinitionSelection.Misses (x : DefinitionSelection) (s : Stores) (id : String) : Prop :=
  x.find? = some ⟨.jobDefinitionId, id⟩ ∧ s.definitions.get? id = none

def JobSelection.Misses (x : JobSelection) (s : Stores) (id : String) : Prop :=
  x.find? = some ⟨.jobDefinitionId, id⟩ ∧ s.definitions.get? id = none

section
variable {s : Stores} {c c' : CommandContext}

theorem CommandContext.isDetailed_congr (h : c.level = .full ↔ c'.level = .full) :
    c.isDetailed = c'.isDetailed := by
  rw [Bool.eq_iff_iff, isDetailed_eq_true, isDetailed_eq_true]
  exact h

theorem CommandContext.isDetailed_eq_false (h : c.level ≠ .full) : c.isDetailed = false := by
  rw [← Bool.not_eq_true, isDetailed_eq_true]
  exact h

/-- a timer is scheduled or refused at any level alike -/
theorem StateRequest.refusal?_of_date {r : StateRequest} {date : Instant}
    (hd : r.executionDate = some date)
    (h : c.isDetailed = c'.isDetailed ∨ ∀ id, ¬ r.selection.Misses s id) :
    r.refusal? s c = r.refusal? s c' := by
  unfold refusal?
  rw [hd]
  cases hx : r.selection.find? with
  | none => rfl
  | some sel =>
    obtain ⟨key, id⟩ := sel
    cases key with
    | jobDefinitionId =>
      rcases h with h | h
      · simp only [h]
      · have hstored : ¬ s.definitions.get? id = none := fun hn => h id ⟨hx, hn⟩
        simp only [hstored, and_false, if_false]
    | processDefinitionId => rfl
    | processDefinitionKey => rfl

theorem JobSelection.refusal?_congr {x : JobSelection}
    (h : c.isDetailed = c'.isDetailed ∨ ∀ id, ¬ x.Misses s id) :
    x.refusal? s c = x.refusal? s c' := by
  unfold refusal?
  cases hx : x.find? with
  | none => rfl
  | some sel =>
    obtain ⟨key, id⟩ := sel
    cases key with
    | jobDefinitionId =>
      rcases h with h | h
      · simp only [h]
      · have hstored : ¬ s.definitions.get? id = none := fun hn => h id ⟨hx, hn⟩
        simp only [hstored, and_false, if_false]
    | jobId => rfl
    | processInstanceId => rfl
    | processDefinitionId => rfl
    | processDefinitionKey => rfl

end

/-! ## changes that are scheduled -/

structure AlikeButTimer (s : Stores) (r r' : Except EngineError Unit × Stores) : Prop where
  outcome : r.1 = r'.1
  definitions : r.2.definitions = r'.2.definitions
  processInstances : r.2.processInstances = r'.2.processInstances
  /-- neither run has touched a job, or both have added a timer for the same action -/
  jobs : (r.2.jobs = s.jobs ∧ r'.2.jobs = s.jobs) ∨
    ∃ (action : DeferredAction) (id id' : String),
      r.2.jobs = s.jobs.insert id (action.toJob id) ∧
        r'.2.jobs = s.jobs.insert id' (action.toJob id')

section
variable {env env' : Environment} (henv : env.Reliable) (henv' : env'.Reliable) {s : Stores}
  (hs : s.WellKeyed) {c c' : CommandContext} (t : Transition)
include henv henv' hs

theorem alike_schedule {r : StateRequest} {date : Instant} (hd : r.executionDate = some date)
    (h : c.isDetailed = c'.isDetailed ∨ ∀ id, ¬ r.selection.Misses s id) :
    AlikeButTimer s ((setJobDefinitionState c t r).run env s)
      ((setJobDefinitionState c' t r).run env' s) := by
  have hrefusal : r.refusal? s c = r.refusal? s c' := StateRequest.refusal?_of_date hd h
  cases hr : r.refusal? s c with
  | some e =>
    rw [run_setJobDefinitionState_refused henv hs c t hr,
      run_setJobDefinitionState_refused henv' hs c' t (hrefusal.symm.trans hr)]
    exact ⟨rfl, rfl, rfl, .inl ⟨rfl, rfl⟩⟩
  | none =>
    obtain ⟨sel, hx⟩ := StateRequest.exists_of_refusal? hr
    obtain ⟨s₁, hrun, h₁⟩ := run_later c t henv hs hx hd hr
    obtain ⟨s₁', hrun', h₁'⟩ := run_later c' t henv' hs hx hd (hrefusal.symm.trans hr)
    rw [hrun, hrun']
    refine ⟨rfl, h₁.definitions.trans h₁'.definitions.symm,
      h₁.processInstances.trans h₁'.processInstances.symm, .inr ⟨_, _, _, h₁.jobs, h₁'.jobs⟩⟩

/-! ## changes of jobs -/

theorem alike_setJobState {x : JobSelection} (o : Option String)
    (h : c.isDetailed = c'.isDetailed ∨ ∀ id, ¬ x.Misses s id) :
    Alike ((setJobState c t x o).run env s) ((setJobState c' t x o).run env' s) := by
  have hrefusal : x.refusal? s c = x.refusal? s c' := JobSelection.refusal?_congr h
  cases hr : x.refusal? s c with
  | some e =>
    rw [run_setJobState_refused henv hs c t hr,
      run_setJobState_refused henv' hs c' t (hrefusal.symm.trans hr)]
    exact ⟨rfl, .refl s⟩
  | none =>
    obtain ⟨sel, hx⟩ := JobSelection.exists_of_refusal? hr
    rw [run_setJobState henv hs c t hx hr,
      run_setJobState henv' hs c' t hx (hrefusal.symm.trans hr)]
    have hrecorded (env : Environment) (c : CommandContext) :=
      Stores.SameRecords.recorded s env.ids c
        (.ofJob o t.jobOperation (x.normalized.withOwners s) t.change)
    have hsame := (hrecorded env c).symm.trans (hrecorded env' c')
    exact ⟨rfl, hsame.setJobs sel.selects t.target⟩

/-! ## changes that only auditing refuses -/

omit henv' in
theorem schedule_refused {r : StateRequest} {id : String} (h : r.selection.Misses s id)
    (hc : c.isDetailed = true) :
    (setJobDefinitionState c t r).run env s = (.error (.noJobDefinition id), s) := by
  refine run_setJobDefinitionState_refused henv hs c t ?_
  unfold StateRequest.refusal?
  rw [h.1]
  exact if_pos ⟨.inl hc, h.2⟩

omit henv' in
theorem schedule_accepted {r : StateRequest} {date : Instant} (hd : r.executionDate = some date)
    {id : String} (h : r.selection.Misses s id) (hc : c.isDetailed = false) :
    ∃ s', (setJobDefinitionState c t r).run env s = (.ok (), s') ∧
      (r.deferred (env.ids.timer s.timerCount) t ⟨.jobDefinitionId, id⟩ date).Scheduled s s' := by
  refine run_later c t henv hs h.1 hd ?_
  unfold StateRequest.refusal?
  rw [h.1, hd, hc]
  rfl

omit henv' in
theorem setJobState_refused {x : JobSelection} (o : Option String) {id : String}
    (h : x.Misses s id) (hc : c.isDetailed = true) :
    (setJobState c t x o).run env s = (.error (.noJobDefinition id), s) := by
  have hrefusal : x.refusal? s c = some (.noJobDefinition id) := by
    unfold JobSelection.refusal?
    rw [h.1]
    exact if_pos ⟨hc, h.2⟩
  exact run_setJobState_refused henv hs c t hrefusal o

omit henv' in
/-- nobody looks for the definition, but jobs may still name it -/
theorem setJobState_accepted {x : JobSelection} (o : Option String) {id : String}
    (h : x.Misses s id) (hc : c.isDetailed = false) :
    (setJobState c t x o).run env s =
      (.ok (), s.setJobs (fun j => j.jobDefinitionId == some id) t.target) := by
  have hrefusal : x.refusal? s c = none := by
    unfold JobSelection.refusal?
    rw [h.1, hc]
    rfl
  rw [run_setJobState henv hs c t h.1 hrefusal, Stores.recorded, hc]
  rfl

end

/-! ## the difference -/

/-- **Auditing makes a difference to missing job definitions only**, where changes are scheduled and
where jobs are changed.  At any two levels the answers are the same, and so are the records that are
left, up to the id of a new timer; unless the one level is full and the other is not, and the
selection comes down to a job definition that is not stored.  Then the full level refuses the
change and does nothing, and the other one carries it out. -/
theorem auditing_tells_only_missing_definitions {env env' : Environment} (henv : env.Reliable)
    (henv' : env'.Reliable) {s : Stores} (hs : s.WellKeyed) (c c' : CommandContext)
    (t : Transition) :
    (∀ (r : StateRequest) date, r.executionDate = some date →
      ((c.level = .full ↔ c'.level = .full) ∨ (∀ id, ¬ r.selection.Misses s id) →
        AlikeButTimer s ((setJobDefinitionState c t r).run env s)
          ((setJobDefinitionState c' t r).run env' s)) ∧
      (∀ id, c.level = .full → c'.level ≠ .full → r.selection.Misses s id →
        (setJobDefinitionState c t r).run env s = (.error (.noJobDefinition id), s) ∧
        ∃ s', (setJobDefinitionState c' t r).run env' s = (.ok (), s') ∧
          (r.deferred (env'.ids.timer s.timerCount) t ⟨.jobDefinitionId, id⟩ date).Scheduled s s')) ∧
    (∀ (x : JobSelection) o,
      ((c.level = .full ↔ c'.level = .full) ∨ (∀ id, ¬ x.Misses s id) →
        Alike ((setJobState c t x o).run env s) ((setJobState c' t x o).run env' s)) ∧
      (∀ id, c.level = .full → c'.level ≠ .full → x.Misses s id →
        (setJobState c t x o).run env s = (.error (.noJobDefinition id), s) ∧
        (setJobState c' t x o).run env' s =
          (.ok (), s.setJobs (fun j => j.jobDefinitionId == some id) t.target))) := by
  refine ⟨fun r date hd => ⟨fun h => ?_, fun id hc hc' h => ?_⟩,
    fun x o => ⟨fun h => ?_, fun id hc hc' h => ?_⟩⟩
  · exact alike_schedule henv henv' hs t hd (h.imp_left CommandContext.isDetailed_congr)
  · exact ⟨schedule_refused henv hs t h (CommandContext.isDetailed_eq_true.mpr hc),
      schedule_accepted henv' hs t hd h (CommandContext.isDetailed_eq_false hc')⟩
  · exact alike_setJobState henv henv' hs t o (h.imp_left CommandContext.isDetailed_congr)
  · exact ⟨setJobState_refused henv hs t o h (CommandContext.isDetailed_eq_true.mpr hc),
      setJobState_accepted henv' hs t o h (CommandContext.isDetailed_eq_false hc')⟩

/-- a job of a definition that is not stored, next to a definition that is -/
theorem auditing_tells_only_missing_definitions_orphan :
    let env : Environment := { ids := ⟨fun _ => "a", fun _ => "entry", fun _ => "operation"⟩ }
    let env' : Environment := { ids := ⟨fun _ => "b", fun _ => "entry", fun _ => "operation"⟩ }
    let c : CommandContext := { actor := none, level := .full }
    let c' : CommandContext := { actor := none, level := .activity }
    let d : JobDefinition := ⟨"d", "order:1", "order", none, "message", .active⟩
    let j : Job := { id := "j", jobDefinitionId := some "gone", handlerType := "message" }
    let s : Stores := (Stores.putDefinition {} d).putJob j
    let later (id : String) : StateRequest :=
      { selection := { jobDefinitionId := some id }, executionDate := some .epoch }
    let x : JobSelection := { jobDefinitionId := some "gone" }
    env.Reliable ∧ env'.Reliable ∧ s.WellKeyed ∧
      AlikeButTimer s ((setJobDefinitionState c .suspend (later "d")).run env s)
        ((setJobDefinitionState c' .suspend (later "d")).run env' s) ∧
      (setJobDefinitionState c .suspend (later "gone")).run env s =
        (.error (.noJobDefinition "gone"), s) ∧
      (∃ s', (setJobDefinitionState c' .suspend (later "gone")).run env' s = (.ok (), s') ∧
        s'.definitions = s.definitions) ∧
      (setJobState c .suspend x none).run env s = (.error (.noJobDefinition "gone"), s) ∧
      (setJobState c' .suspend x none).run env' s =
        (.ok (), s.setJobs (fun j => j.jobDefinitionId == some "gone") .suspended) := by
  intro env env' c c' d j s later x
  have henv : env.Reliable := ⟨fun _ => rfl, rfl⟩
  have henv' : env'.Reliable := ⟨fun _ => rfl, rfl⟩
  have hs : s.WellKeyed := (Stores.WellKeyed.empty.putDefinition d).putJob j
  obtain ⟨hlater, hjobs⟩ :=
    auditing_tells_only_missing_definitions henv henv' hs c c' .suspend
  have hstored : ∀ id, ¬ (later "d").selection.Misses s id := by
    rintro id ⟨hx, hn⟩
    cases hx
    cases hn
  have hgone : (later "gone").selection.Misses s "gone" := ⟨rfl, rfl⟩
  have hlevel : c'.level ≠ .full := AuditingLevel.noConfusion
  obtain ⟨hrefused, s', haccepted, hscheduled⟩ :=
    (hlater (later "gone") .epoch rfl).2 "gone" rfl hlevel hgone
  have hcascade := (hjobs x none).2 "gone" rfl hlevel ⟨rfl, rfl⟩
  exact ⟨henv, henv', hs, (hlater (later "d") .epoch rfl).1 (.inr hstored), hrefused,
    ⟨s', haccepted, hscheduled.definitions⟩, hcascade.1, hcascade.2⟩

/-- the answers tell the levels apart, both where a change is scheduled and where jobs are changed:
nothing is stored, the full level refuses and the other one does not -/
theorem levels_disagree_on_missing_definition :
    (¬ ∀ (env : Environment) (steps : List EngineStep) (c c' : CommandContext) (t : Transition)
        (r : StateRequest), env.Reliable → c.actor = c'.actor → c.recordedAt = c'.recordedAt →
        r.executionDate ≠ none →
        ((setJobDefinitionState c t r).run env (EngineStep.runAll env steps {}).2).1 =
          ((setJobDefinitionState c' t r).run env (EngineStep.runAll env steps {}).2).1) ∧
      (¬ ∀ (env : Environment) (steps : List EngineStep) (c c' : CommandContext) (t : Transition)
        (x : JobSelection) (o : Option String), env.Reliable → c.actor = c'.actor →
        c.recordedAt = c'.recordedAt →
        ((setJobState c t x o).run env (EngineStep.runAll env steps {}).2).1 =
          ((setJobState c' t x o).run env (EngineStep.runAll env steps {}).2).1) := by
  let env : Environment := { ids := ⟨fun _ => "timer", fun _ => "entry", fun _ => "operation"⟩ }
  let c : CommandContext := { actor := none, level := .full }
  let c' : CommandContext := { actor := none, level := .none }
  let r : StateRequest :=
    { selection := { jobDefinitionId := some "d" }, executionDate := some .epoch }
  let x : JobSelection := { jobDefinitionId := some "d" }
  have henv : env.Reliable := ⟨fun _ => rfl, rfl⟩
  constructor
  · intro h
    have hfull : ((setJobDefinitionState c .suspend r).run env {}).1 =
        .error (.noJobDefinition "d") := rfl
    have hnone : ((setJobDefinitionState c' .suspend r).run env {}).1 = .ok () := rfl
    have heq := h env [] c c' .suspend r henv rfl rfl (Option.some_ne_none _)
    rw [show (EngineStep.runAll env [] {}).2 = {} from rfl, hfull, hnone] at heq
    cases heq
  · intro h
    have hfull : ((setJobState c .suspend x none).run env {}).1 =
        .error (.noJobDefinition "d") := rfl
    have hnone : ((setJobState c' .suspend x none).run env {}).1 = .ok () := rfl
    have heq := h env [] c c' .suspend x none henv rfl rfl
    rw [show (EngineStep.runAll env [] {}).2 = {} from rfl, hfull, hnone] at heq
    cases heq

end JobSuspension
