import JobSuspension.Engine.StateChange
import JobSuspension.Proofs.Recording
import JobSuspension.Proofs.Selectors

/-!
# State changes when nothing fails

What a change of state comes to in stores that answer every call.  It is refused, and then nothing
was done; or it is carried out as a whole.

* `JobSelection.refusal?`, `StateRequest.refusal?`   why a change is refused, if it is;
* `DefinitionSelector.FoundIn x s`    what keeps a change from being refused;
* `Stores.applied s ids c t x b op`   the stores after a change of the job definitions under `x`,
                                      with their jobs if `b`;
* `run_setJobState`, `run_setJobDefinitionState`, `run_setJobDefinitionState_later`
                                      a change that is not refused;
* `applied_definitions`, `applied_jobs`   what becomes of every job definition and every job;
* `Stores.Changed f g s s'`           job definitions and jobs have become what `f` and `g` make of them;
* `StateStep s state p q`             a change is refused and does nothing, or it gives the state to
                                      the job definitions with `p` and to the jobs with `q`.
-/

namespace JobSuspension

/-! ## refusals -/

/-- a single job has to exist; detailed auditing looks a job definition up, too -/
def JobSelection.refusal? (s : Stores) (c : CommandContext) (x : JobSelection) :
    Option EngineError :=
  match x.find? with
  | none => some .noJobSelector
  | some ⟨.jobId, id⟩ => if s.jobs.get? id = none then some (.noJob id) else none
  | some ⟨.jobDefinitionId, id⟩ =>
    if c.isDetailed ∧ s.definitions.get? id = none then some (.noJobDefinition id) else none
  | some _ => none

/-- a single job definition has to exist, but nobody looks for it when the change is left to a
timer without detailed auditing -/
def StateRequest.refusal? (s : Stores) (c : CommandContext) (r : StateRequest) :
    Option EngineError :=
  match r.selection.find? with
  | none => some .noDefinitionSelector
  | some ⟨.jobDefinitionId, id⟩ =>
    if (c.isDetailed ∨ r.executionDate = none) ∧ s.definitions.get? id = none then
      some (.noJobDefinition id)
    else none
  | some _ => none

theorem JobSelection.exists_of_refusal? {s : Stores} {c : CommandContext} {x : JobSelection}
    (h : x.refusal? s c = none) : ∃ sel, x.find? = some sel := by
  cases hx : x.find? with
  | none => simp [refusal?, hx] at h
  | some sel => exact ⟨sel, rfl⟩

theorem StateRequest.exists_of_refusal? {s : Stores} {c : CommandContext} {r : StateRequest}
    (h : r.refusal? s c = none) : ∃ sel, r.selection.find? = some sel := by
  cases hx : r.selection.find? with
  | none => simp [refusal?, hx] at h
  | some sel => exact ⟨sel, rfl⟩

/-- only the selector matters, and whether its job definition is there -/
theorem StateRequest.refusal?_congr {s s' : Stores} {c c' : CommandContext} {r r' : StateRequest}
    (hx : r.selection.find? = r'.selection.find?) (hd : r.executionDate = none)
    (hd' : r'.executionDate = none) (hs : s.definitions = s'.definitions) :
    r.refusal? s c = r'.refusal? s' c' := by
  unfold refusal?
  rw [hx, hd, hd', hs]
  simp

/-- the job definition that has to be there is there -/
def DefinitionSelector.FoundIn (x : DefinitionSelector) (s : Stores) : Prop :=
  x.key = .jobDefinitionId → s.definitions.get? x.value ≠ none

theorem StateRequest.refusal?_eq_none {s : Stores} {c : CommandContext} {r : StateRequest}
    {sel : DefinitionSelector} (hx : r.selection.find? = some sel) (h : sel.FoundIn s) :
    r.refusal? s c = none := by
  unfold refusal?
  rw [hx]
  obtain ⟨key, v⟩ := sel
  cases key with
  | jobDefinitionId => exact if_neg fun hn => h rfl hn.2
  | processDefinitionId => rfl
  | processDefinitionKey => rfl

theorem JobSelection.missing?_normalized (s : Stores) (x : JobSelection) :
    x.normalized.missing? s =
      match x.find? with
      | some ⟨.jobId, id⟩ => if s.jobs.get? id = none then some (.noJob id) else none
      | some ⟨.jobDefinitionId, id⟩ =>
        if s.definitions.get? id = none then some (.noJobDefinition id) else none
      | _ => none := by
  rw [find?_eq]
  unfold missing? normalized
  cases Text.present? x.jobId <;> cases Text.present? x.jobDefinitionId <;>
    cases Text.present? x.processInstanceId <;> cases Text.present? x.processDefinitionId <;>
    cases Text.present? x.processDefinitionKey <;> rfl

theorem DefinitionSelection.missing?_normalized (s : Stores) (x : DefinitionSelection) :
    x.normalized.missing? s =
      match x.find? with
      | some ⟨.jobDefinitionId, id⟩ =>
        if s.definitions.get? id = none then some (.noJobDefinition id) else none
      | _ => none := by
  rw [find?_eq]
  unfold missing? normalized
  cases Text.present? x.jobDefinitionId <;> cases Text.present? x.processDefinitionId <;>
    cases Text.present? x.processDefinitionKey <;> rfl

/-- a record that detailed auditing misses is a reason to refuse the change -/
theorem JobSelection.missing?_of_refusal? {s : Stores} {c : CommandContext} {x : JobSelection}
    (h : x.refusal? s c = none) : (if c.isDetailed then x.normalized.missing? s else none) = none := by
  rw [missing?_normalized]
  cases hc : c.isDetailed with
  | false => rfl
  | true =>
    obtain ⟨⟨key, v⟩, hx⟩ := exists_of_refusal? h
    unfold refusal? at h
    cases key <;> simp_all

theorem StateRequest.missing?_of_refusal? {s : Stores} {c : CommandContext} {r : StateRequest}
    (h : r.refusal? s c = none) :
    (if c.isDetailed then r.selection.normalized.missing? s else none) = none := by
  rw [DefinitionSelection.missing?_normalized]
  cases hc : c.isDetailed with
  | false => rfl
  | true =>
    obtain ⟨⟨key, v⟩, hx⟩ := exists_of_refusal? h
    unfold refusal? at h
    cases key <;> simp_all

/-! ## updates -/

namespace Stores

variable {s : Stores} (h : s.WellKeyed)
include h

theorem updateJobs_eq (x : JobSelector) (state : SuspensionState) :
    s.updateJobs x state =
      if x.key = .jobId ∧ s.jobs.get? x.value = none then .error (.noJob x.value)
      else .ok (s.setJobs x.selects state) := by
  obtain ⟨key, v⟩ := x
  by_cases hk : key = .jobId
  · subst hk
    have e : s.jobs.values.any (JobSelector.selects ⟨.jobId, v⟩) = (s.jobs.get? v).isSome :=
      h.jobs.any_values v
    simp [updateJobs, e]
  · simp [updateJobs, hk]

theorem updateDefinitions_eq (x : DefinitionSelector) (state : SuspensionState) :
    s.updateDefinitions x state =
      if x.key = .jobDefinitionId ∧ s.definitions.get? x.value = none then
        .error (.noJobDefinition x.value)
      else .ok (s.setDefinitions x.selects state) := by
  obtain ⟨key, v⟩ := x
  by_cases hk : key = .jobDefinitionId
  · subst hk
    have e : s.definitions.values.any (DefinitionSelector.selects ⟨.jobDefinitionId, v⟩) =
        (s.definitions.get? v).isSome := h.definitions.any_values v
    simp [updateDefinitions, e]
  · simp [updateDefinitions, hk]

end Stores

/-! ## jobs -/

section
variable {env : Environment} (henv : env.Reliable) {s : Stores} (hs : s.WellKeyed)
  (c : CommandContext) (t : Transition)

/-- recording first, then the update -/
theorem run_setJobState_of_find? (henv : env.Reliable) {x : JobSelection} {sel : JobSelector}
    (hx : x.find? = some sel) (operationId : Option String) :
    (setJobState c t x operationId).run env s =
      match if c.isDetailed then x.normalized.missing? s else none with
      | some e => (.error e, s)
      | none =>
        let s := s.recorded env.ids c
          (.ofJob operationId t.jobOperation (x.normalized.withOwners s) t.change)
        match s.updateJobs sel t.target with
        | .ok s' => (.ok (), s')
        | .error e => (.error e, s) := by
  unfold setJobState
  simp only [Command.run_bind, Command.run_liftM, JobSelection.resolve,
    JobSelection.find_normalized, hx, Journal.run_job henv, JobSelection.normalized_normalized]
  cases if c.isDetailed then x.normalized.missing? s else none with
  | some e => rfl
  | none =>
    simp only [Command.run_call henv, Call.perform]
    generalize Stores.recorded _ _ _ _ = s'
    cases s'.updateJobs sel t.target <;> rfl

include henv hs

theorem run_setJobState_refused {x : JobSelection} {e : EngineError} (h : x.refusal? s c = some e)
    (operationId : Option String) :
    (setJobState c t x operationId).run env s = (.error e, s) := by
  cases hx : x.find? with
  | none =>
    simp only [JobSelection.refusal?, hx, Option.some.injEq] at h
    subst h
    simp only [setJobState, Command.run_bind, Command.run_liftM, JobSelection.resolve,
      JobSelection.find_normalized, hx]
  | some sel =>
    rw [run_setJobState_of_find? c t henv hx, JobSelection.missing?_normalized, hx]
    obtain ⟨key, v⟩ := sel
    cases hc : c.isDetailed with
    | true =>
      cases key <;> simp_all [JobSelection.refusal?]
    | false =>
      -- without detailed auditing only the update itself can miss a single job
      cases key <;>
        simp_all [JobSelection.refusal?, Stores.recorded, Stores.updateJobs_eq hs]

theorem run_setJobState {x : JobSelection} {sel : JobSelector} (hx : x.find? = some sel)
    (h : x.refusal? s c = none) (operationId : Option String) :
    (setJobState c t x operationId).run env s =
      (.ok (), (s.recorded env.ids c (.ofJob operationId t.jobOperation
        (x.normalized.withOwners s) t.change)).setJobs sel.selects t.target) := by
  have hfound : ¬ (sel.key = .jobId ∧ s.jobs.get? sel.value = none) := by
    rintro ⟨hk, hn⟩
    obtain ⟨key, v⟩ := sel
    cases hk
    simp_all [JobSelection.refusal?]
  rw [run_setJobState_of_find? c t henv hx, JobSelection.missing?_of_refusal? h]
  simp only [Stores.updateJobs_eq (hs.recorded env.ids c _), Stores.recorded_jobs, if_neg hfound]

end

/-! ## job definitions -/

namespace Stores

/-- the jobs that start instances of the process definition under a selector, if it names one -/
def setStartTimers (s : Stores) (x : DefinitionSelector) (state : SuspensionState) : Stores :=
  match x.processDefinition? with
  | some p => s.setJobs p.startsFrom state
  | none => s

/-- what a change of job definitions does, given the id of its operation -/
def applied (s : Stores) (ids : IdSupply) (c : CommandContext) (t : Transition)
    (x : DefinitionSelector) (includeJobs : Bool) (operationId : Option String) : Stores :=
  let s := (s.setDefinitions x.selects t.target).setStartTimers x t.target
  if includeJobs then
    (s.recorded ids c (.ofJob operationId t.jobOperation
      (x.toSelection.toJobSelection.withOwners s) t.change)).setJobs x.jobSelector.selects t.target
  else s

section
variable (s : Stores) (x : DefinitionSelector) (state : SuspensionState)

@[simp] theorem setStartTimers_definitions :
    (s.setStartTimers x state).definitions = s.definitions := by
  unfold setStartTimers; split <;> rfl

@[simp] theorem setStartTimers_processInstances :
    (s.setStartTimers x state).processInstances = s.processInstances := by
  unfold setStartTimers; split <;> rfl

@[simp] theorem setStartTimers_log : (s.setStartTimers x state).log = s.log := by
  unfold setStartTimers; split <;> rfl

@[simp] theorem setStartTimers_timerCount : (s.setStartTimers x state).timerCount = s.timerCount := by
  unfold setStartTimers; split <;> rfl

theorem setStartTimers_jobs :
    (s.setStartTimers x state).jobs =
      s.jobs.map fun j => if x.reaches false j then j.withState state else j := by
  unfold setStartTimers DefinitionSelector.reaches
  split
  · next p hp => simp [hp, setJobs]
  · next hp =>
    rw [Table.map_id_of_forall]
    simp [hp]

theorem WellKeyed.setStartTimers {s : Stores} (h : s.WellKeyed) (x : DefinitionSelector)
    (state : SuspensionState) : (s.setStartTimers x state).WellKeyed := by
  unfold Stores.setStartTimers
  split
  · exact h.setJobs _ _
  · exact h

end

section
variable (s : Stores) (ids : IdSupply) (c : CommandContext) (t : Transition)
  (x : DefinitionSelector) (b : Bool) (o : Option String)

theorem applied_definitions :
    (s.applied ids c t x b o).definitions =
      s.definitions.map fun d => if x.selects d then d.withState t.target else d := by
  cases b <;> simp [applied, setJobs, setDefinitions]

/-- start timers first, then the jobs that were asked for; the state a job got by the first does
not keep the second from reaching it -/
theorem applied_jobs :
    (s.applied ids c t x b o).jobs =
      s.jobs.map fun j => if x.reaches b j then j.withState t.target else j := by
  cases b with
  | false => exact setStartTimers_jobs _ x t.target
  | true =>
    simp only [applied, if_true, setJobs, recorded_jobs, setStartTimers_jobs, Table.map_map]
    apply Table.map_congr
    intro k j _
    have hb : x.reaches true j = (x.reaches false j || x.jobSelector.selects j) := by
      simp [DefinitionSelector.reaches]
    simp only [Function.comp_apply, hb]
    by_cases h : x.reaches false j
    · simp [h, Job.withState]
    · simp [h]

theorem applied_processInstances :
    (s.applied ids c t x b o).processInstances = s.processInstances := by
  cases b <;> simp [applied, setJobs, setDefinitions]

theorem applied_timerCount : (s.applied ids c t x b o).timerCount = s.timerCount := by
  cases b <;> simp [applied, setJobs, setDefinitions]

/-- the row of the jobs follows, if they change too -/
theorem applied_log :
    (s.applied ids c t x b o).log =
      s.log ++
        if b then
          let s' := (s.setDefinitions x.selects t.target).setStartTimers x t.target
          s'.rows ids c
            (.ofJob o t.jobOperation (x.toSelection.toJobSelection.withOwners s') t.change)
        else [] := by
  cases b <;> simp [applied, setJobs, setDefinitions]

theorem WellKeyed.applied {s : Stores} (h : s.WellKeyed) : (s.applied ids c t x b o).WellKeyed := by
  have h1 := (h.setDefinitions x.selects t.target).setStartTimers x t.target
  cases b with
  | false => exact h1
  | true => exact (h1.recorded _ _ _).setJobs _ _

end
end Stores

section
variable {env : Environment} (henv : env.Reliable) {s : Stores} (hs : s.WellKeyed)
  (c : CommandContext) (t : Transition)
include henv

theorem run_setStartTimers (x : DefinitionSelector) :
    (setStartTimers t x).run env s = (.ok (), s.setStartTimers x t.target) := by
  unfold setStartTimers Stores.setStartTimers
  cases x.processDefinition? with
  | none => rfl
  | some p =>
    show (Command.call _).run env s = _
    rw [Command.run_call henv]
    rfl

include hs

/-- the change of job definitions that exist; the jobs are changed without another refusal -/
theorem run_applyState {x : DefinitionSelector} (hv : Text.isBlank x.value = false)
    (hx : ¬ (x.key = .jobDefinitionId ∧ s.definitions.get? x.value = none)) (b : Bool)
    {o : Option String} (ho : c.isDetailed = false → o = none) :
    (applyState c t x b o).run env s = (.ok (), s.applied env.ids c t x b o) := by
  have hs' := (hs.setDefinitions x.selects t.target).setStartTimers x t.target
  have hfilter : (o.filter fun _ => c.isDetailed) = o := by
    cases hc : c.isDetailed with
    | false => rw [ho hc]; rfl
    | true => cases o <;> rfl
  unfold applyState
  simp only [Command.run_bind, Command.run_call henv, Call.perform, Stores.updateDefinitions_eq hs,
    if_neg hx, Except.map, run_setStartTimers henv, hfilter]
  cases b with
  | false => rfl
  | true =>
    have hrefusal : x.toSelection.toJobSelection.refusal?
        ((s.setDefinitions x.selects t.target).setStartTimers x t.target) c = none := by
      rw [JobSelection.refusal?, DefinitionSelector.find?_toJobSelection hv]
      obtain ⟨key, v⟩ := x
      cases key <;> simp_all [DefinitionSelector.jobSelector, DefinitionKey.jobKey,
        Stores.setDefinitions]
    show (setJobState _ _ _ _).run env _ = _
    rw [run_setJobState henv hs' c t (DefinitionSelector.find?_toJobSelection hv) hrefusal,
      DefinitionSelector.normalized_toJobSelection hv]
    rfl

end

/-! ## requests -/

/-- what a change of job definitions records before it is made -/
def DefinitionSelection.audit (s : Stores) (t : Transition) (x : DefinitionSelection) :
    AuditContext :=
  .ofJobDefinition t.operation (x.normalized.withOwners s) t.change

section
variable {env : Environment} (henv : env.Reliable) {s : Stores} (hs : s.WellKeyed)
  (c : CommandContext) (t : Transition) {r : StateRequest}
include henv

/-- recording first, then the change or its timer -/
theorem run_setJobDefinitionState_of_find? {sel : DefinitionSelector}
    (hx : r.selection.find? = some sel) :
    (setJobDefinitionState c t r).run env s =
      match if c.isDetailed then r.selection.normalized.missing? s else none with
      | some e => (.error e, s)
      | none =>
        let a := r.selection.audit s t
        (match r.executionDate with
          | some date => scheduleState t sel r.includeJobs date
          | none => applyState c t sel r.includeJobs (s.recordedId env.ids c a)).run env
          (s.recorded env.ids c a) := by
  unfold setJobDefinitionState
  simp only [Command.run_bind, Command.run_liftM, DefinitionSelection.resolve,
    DefinitionSelection.find_normalized, hx, Journal.run_jobDefinition henv,
    DefinitionSelection.normalized_normalized]
  cases if c.isDetailed then r.selection.normalized.missing? s else none with
  | some e => rfl
  | none => cases r.executionDate <;> rfl

include hs

theorem run_setJobDefinitionState_refused {e : EngineError} (h : r.refusal? s c = some e) :
    (setJobDefinitionState c t r).run env s = (.error e, s) := by
  cases hx : r.selection.find? with
  | none =>
    simp only [StateRequest.refusal?, hx, Option.some.injEq] at h
    subst h
    simp only [setJobDefinitionState, Command.run_bind, Command.run_liftM,
      DefinitionSelection.resolve, DefinitionSelection.find_normalized, hx]
  | some sel =>
    rw [run_setJobDefinitionState_of_find? henv c t hx, DefinitionSelection.missing?_normalized, hx]
    obtain ⟨key, v⟩ := sel
    cases hc : c.isDetailed with
    | true => cases key <;> simp_all [StateRequest.refusal?]
    | false =>
      -- without detailed auditing only the update itself can miss a single job definition
      cases key <;>
        simp_all [StateRequest.refusal?, Stores.recorded, applyState, Command.run_bind,
          Command.run_call henv, Call.perform, Stores.updateDefinitions_eq hs, Except.map]

theorem run_setJobDefinitionState {sel : DefinitionSelector} (hx : r.selection.find? = some sel)
    (hd : r.executionDate = none) (h : r.refusal? s c = none) :
    (setJobDefinitionState c t r).run env s =
      (.ok (), (s.recorded env.ids c (r.selection.audit s t)).applied env.ids c t sel r.includeJobs
        (s.recordedId env.ids c (r.selection.audit s t))) := by
  rw [run_setJobDefinitionState_of_find? henv c t hx, StateRequest.missing?_of_refusal? h, hd]
  refine run_applyState henv (hs.recorded _ _ _) c t (DefinitionSelection.find?_eq_some hx).2 ?_ _ ?_
  · rintro ⟨hk, hn⟩
    obtain ⟨key, v⟩ := sel
    cases hk
    simp_all [StateRequest.refusal?]
  · intro hc
    simp [Stores.recordedId, hc]

omit hs in
theorem run_setJobDefinitionState_later {sel : DefinitionSelector}
    (hx : r.selection.find? = some sel) {date : Instant} (hd : r.executionDate = some date)
    (h : r.refusal? s c = none) :
    (setJobDefinitionState c t r).run env s =
      (.ok (), (s.recorded env.ids c (r.selection.audit s t)).addTimer (env.ids.timer s.timerCount)
        ⟨date, t, (TimerConfiguration.mk sel r.includeJobs).encode⟩) := by
  rw [run_setJobDefinitionState_of_find? henv c t hx, StateRequest.missing?_of_refusal? h, hd]
  show (scheduleState _ _ _ _).run env _ = _
  rw [scheduleState, TimerConfiguration.forSelector_eq_encode, Command.run_bind,
    Command.run_call henv]
  show (Except.ok (), Stores.addTimer _ _ _) = _
  rw [Stores.recorded_timerCount]

end

/-! ## one step -/

/-- every job definition has become `f` of it and every job `g` of it, and that is all -/
structure Stores.Changed (f : JobDefinition → JobDefinition) (g : Job → Job) (s s' : Stores) :
    Prop where
  definitions : s'.definitions = s.definitions.map f
  jobs : s'.jobs = s.jobs.map g
  processInstances : s'.processInstances = s.processInstances
  wellKeyed : s'.WellKeyed

namespace Stores.Changed

variable {f f' : JobDefinition → JobDefinition} {g g' : Job → Job} {s s' s'' : Stores}

theorem refl (hs : s.WellKeyed) (hf : ∀ d, f d = d) (hg : ∀ j, g j = j) : s.Changed f g s :=
  ⟨(Table.map_id_of_forall hf).symm, (Table.map_id_of_forall hg).symm, rfl, hs⟩

theorem trans (h : s.Changed f g s') (h' : s'.Changed f' g' s'') :
    s.Changed (f' ∘ f) (g' ∘ g) s'' := by
  refine ⟨?_, ?_, h'.processInstances.trans h.processInstances, h'.wellKeyed⟩
  · rw [h'.definitions, h.definitions, Table.map_map]
  · rw [h'.jobs, h.jobs, Table.map_map]

theorem get?_jobs (h : s.Changed f g s') (k : String) :
    s'.jobs.get? k = (s.jobs.get? k).map g := by
  rw [h.jobs, Table.get?_map]

end Stores.Changed

inductive StateStep (s : Stores) (state : SuspensionState) (p : JobDefinition → Bool)
    (q : Job → Bool) : Except EngineError Unit × Stores → Prop where
  | refused (e : EngineError) : StateStep s state p q (.error e, s)
  | changed {s' : Stores}
      (h : s.Changed (fun d => if p d then d.withState state else d)
        (fun j => if q j then j.withState state else j) s') : StateStep s state p q (.ok (), s')

theorem StateStep.eq_of_error {s s' : Stores} {state : SuspensionState} {p : JobDefinition → Bool}
    {q : Job → Bool} {e : EngineError} (h : StateStep s state p q (.error e, s')) : s' = s := by
  cases h
  rfl

theorem StateStep.changed_of_ok {s s' : Stores} {state : SuspensionState}
    {p : JobDefinition → Bool} {q : Job → Bool} (h : StateStep s state p q (.ok (), s')) :
    s.Changed (fun d => if p d then d.withState state else d)
      (fun j => if q j then j.withState state else j) s' := by
  cases h with
  | changed h => exact h

theorem Stores.changed_applied {s : Stores} (hs : s.WellKeyed) (ids : IdSupply)
    (c : CommandContext) (a : AuditContext) (t : Transition) (x : DefinitionSelector) (b : Bool)
    (o : Option String) :
    s.Changed (fun d => if x.selects d then d.withState t.target else d)
      (fun j => if x.reaches b j then j.withState t.target else j)
      ((s.recorded ids c a).applied ids c t x b o) := by
  refine ⟨?_, ?_, ?_, (hs.recorded _ _ _).applied _ _ _ _ _ _⟩
  · rw [applied_definitions, recorded_definitions]
  · rw [applied_jobs, recorded_jobs]
  · rw [applied_processInstances, recorded_processInstances]

section
variable {env : Environment} (henv : env.Reliable) {s : Stores} (hs : s.WellKeyed)
  (c : CommandContext) (t : Transition)
include henv hs

theorem setJobState_step (x : JobSelection) (operationId : Option String) :
    StateStep s t.target (fun _ => false) (fun j => x.find?.any (·.selects j))
      ((setJobState c t x operationId).run env s) := by
  cases h : x.refusal? s c with
  | some e =>
    rw [run_setJobState_refused henv hs c t h]
    exact .refused e
  | none =>
    obtain ⟨sel, hx⟩ := JobSelection.exists_of_refusal? h
    rw [run_setJobState henv hs c t hx h, hx]
    refine .changed ⟨?_, ?_, ?_, (hs.recorded _ _ _).setJobs _ _⟩
    · simp [Stores.setJobs, Table.map_id_of_forall]
    · simp [Stores.setJobs]
    · simp [Stores.setJobs]

theorem setJobDefinitionState_step {r : StateRequest} (hd : r.executionDate = none) :
    StateStep s t.target (fun d => r.selection.find?.any (·.selects d))
      (fun j => r.selection.find?.any (·.reaches r.includeJobs j))
      ((setJobDefinitionState c t r).run env s) := by
  cases h : r.refusal? s c with
  | some e =>
    rw [run_setJobDefinitionState_refused henv hs c t h]
    exact .refused e
  | none =>
    obtain ⟨sel, hx⟩ := StateRequest.exists_of_refusal? h
    rw [run_setJobDefinitionState henv hs c t hx hd h, hx]
    exact .changed (Stores.changed_applied hs _ _ _ _ _ _ _)

end
end JobSuspension
