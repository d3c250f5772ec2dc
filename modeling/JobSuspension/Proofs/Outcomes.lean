import JobSuspension.Engine.Timers
import JobSuspension.Proofs.StateChanges

/-!
# What a change comes to in any stores

The journal looks a record up under its id, and an update looks for records that carry the id.  The
two may disagree in stores that keep records under other ids than their own, and then a change is
refused after it was recorded.  There is no other way in which it could go through in part: once the
job definitions are updated, nothing is refused any more.

* `Stores.SameRecords s s'`          the stores differ at most in the log and the ids given out for
                                     it;
* `ChangeOutcome`                    the four ways in which a change of job definitions can end;
* `setJobDefinitionState_outcome`    there are no others;
* `handleTimer_outcome`              a handler fails and leaves the records alone, or changes the
                                     jobs that its configuration reaches.
-/

namespace JobSuspension

/-! ## the log aside -/

structure Stores.SameRecords (s s' : Stores) : Prop where
  definitions : s'.definitions = s.definitions
  jobs : s'.jobs = s.jobs
  processInstances : s'.processInstances = s.processInstances
  timerCount : s'.timerCount = s.timerCount

namespace Stores.SameRecords

variable {s s' s'' : Stores}

theorem refl (s : Stores) : s.SameRecords s := ⟨rfl, rfl, rfl, rfl⟩

theorem symm (h : s.SameRecords s') : s'.SameRecords s :=
  ⟨h.definitions.symm, h.jobs.symm, h.processInstances.symm, h.timerCount.symm⟩

theorem trans (h : s.SameRecords s') (h' : s'.SameRecords s'') : s.SameRecords s'' :=
  ⟨h'.definitions.trans h.definitions, h'.jobs.trans h.jobs,
    h'.processInstances.trans h.processInstances, h'.timerCount.trans h.timerCount⟩

theorem recorded (s : Stores) (ids : IdSupply) (c : CommandContext) (a : AuditContext) :
    s.SameRecords (s.recorded ids c a) :=
  ⟨recorded_definitions s ids c a, recorded_jobs s ids c a, recorded_processInstances s ids c a,
    recorded_timerCount s ids c a⟩

end Stores.SameRecords

/-! ## applying -/

namespace Stores

variable {s s' : Stores}

theorem eq_of_updateDefinitions {x : DefinitionSelector} {state : SuspensionState}
    (h : s.updateDefinitions x state = .ok s') : s' = s.setDefinitions x.selects state := by
  unfold updateDefinitions at h
  split at h
  · cases h
  · exact (Except.ok.inj h).symm

theorem eq_of_updateJobs {x : JobSelector} {state : SuspensionState}
    (h : s.updateJobs x state = .ok s') : s' = s.setJobs x.selects state := by
  unfold updateJobs at h
  split at h
  · cases h
  · exact (Except.ok.inj h).symm

end Stores

section
variable {env : Environment} (henv : env.Reliable) (s : Stores) (c : CommandContext)
  (t : Transition) {x : DefinitionSelector} (hv : Text.isBlank x.value = false)
include henv hv

/-- the jobs of selected definitions change without a refusal: no single job is looked for, and a
job definition that detailed auditing found before is still there -/
theorem run_setJobState_cascade (hfound : c.isDetailed = true → x.FoundIn s)
    (o : Option String) :
    (setJobState c t x.toSelection.toJobSelection o).run env s =
      (.ok (), (s.recorded env.ids c (.ofJob o t.jobOperation
        (x.toSelection.toJobSelection.withOwners s) t.change)).setJobs x.jobSelector.selects
          t.target) := by
  have hx := DefinitionSelector.find?_toJobSelection hv
  have hmissing : (if c.isDetailed then x.toSelection.toJobSelection.normalized.missing? s
      else none) = none := by
    rw [JobSelection.missing?_normalized, hx]
    cases hc : c.isDetailed with
    | false => rfl
    | true =>
      obtain ⟨key, v⟩ := x
      cases key with
      | jobDefinitionId => exact if_neg (hfound hc rfl)
      | processDefinitionId => rfl
      | processDefinitionKey => rfl
  have hkey : x.jobSelector.key ≠ .jobId := by
    obtain ⟨key, v⟩ := x
    cases key <;> exact JobKey.noConfusion
  have hupdate (s : Stores) : s.updateJobs x.jobSelector t.target =
      .ok (s.setJobs x.jobSelector.selects t.target) := if_neg fun h => hkey h.1
  rw [run_setJobState_of_find? c t henv hx, hmissing,
    DefinitionSelector.normalized_toJobSelection hv]
  simp only [hupdate]

/-- the update of the job definitions is the one step that can be refused -/
theorem run_applyState_cases (hfound : c.isDetailed = true → x.FoundIn s) (b : Bool)
    {o : Option String} (ho : c.isDetailed = false → o = none) :
    (∃ e, (applyState c t x b o).run env s = (.error e, s)) ∨
      (applyState c t x b o).run env s = (.ok (), s.applied env.ids c t x b o) := by
  have hfilter : (o.filter fun _ => c.isDetailed) = o := by
    cases hc : c.isDetailed with
    | false => rw [ho hc]; rfl
    | true => cases o <;> rfl
  unfold applyState
  rw [Command.run_bind, Command.run_call henv]
  cases hupdate : s.updateDefinitions x t.target with
  | error e =>
    left
    refine ⟨e, ?_⟩
    simp only [Call.perform, hupdate, Except.map]
  | ok s' =>
    right
    simp only [Call.perform, hupdate, Except.map, Command.run_bind, run_setStartTimers henv,
      Stores.eq_of_updateDefinitions hupdate, hfilter]
    cases b with
    | false => rfl
    | true =>
      -- the update keeps every job definition in its place
      have hstill : c.isDetailed = true →
          x.FoundIn ((s.setDefinitions x.selects t.target).setStartTimers x t.target) := by
        intro hc hk hn
        rw [Stores.setStartTimers_definitions] at hn
        exact hfound hc hk (Option.map_eq_none_iff.mp ((Table.get?_map _ _ _).symm.trans hn))
      exact run_setJobState_cascade henv _ c t hv hstill o

end

/-! ## outcomes -/

inductive ChangeOutcome (s : Stores) (ids : IdSupply) (c : CommandContext) (t : Transition)
    (r : StateRequest) : Except EngineError Unit × Stores → Prop where
  /-- before anything was done -/
  | refused (e : EngineError) : ChangeOutcome s ids c t r (.error e, s)
  /-- after it was recorded -/
  | missed (e : EngineError) :
      ChangeOutcome s ids c t r (.error e, s.recorded ids c (r.selection.audit s t))
  | changed {sel : DefinitionSelector} (hx : r.selection.find? = some sel)
      (hd : r.executionDate = none) (hfound : c.isDetailed = true → sel.FoundIn s) :
      ChangeOutcome s ids c t r
        (.ok (), (s.recorded ids c (r.selection.audit s t)).applied ids c t sel r.includeJobs
          (s.recordedId ids c (r.selection.audit s t)))
  | scheduled {sel : DefinitionSelector} {date : Instant} (hx : r.selection.find? = some sel)
      (hd : r.executionDate = some date) (hfound : c.isDetailed = true → sel.FoundIn s) :
      ChangeOutcome s ids c t r
        (.ok (), (s.recorded ids c (r.selection.audit s t)).addTimer (ids.timer s.timerCount)
          ⟨date, t, (TimerConfiguration.mk sel r.includeJobs).encode⟩)

/-- what the journal did not miss is there -/
theorem DefinitionSelection.foundIn_of_missing? {s : Stores} {c : CommandContext}
    {x : DefinitionSelection} {sel : DefinitionSelector} (hx : x.find? = some sel)
    (h : (if c.isDetailed then x.normalized.missing? s else none) = none) :
    c.isDetailed = true → sel.FoundIn s := by
  intro hc hk hn
  rw [missing?_normalized, hx, hc] at h
  obtain ⟨key, v⟩ := sel
  cases hk
  exact absurd ((if_pos hn).symm.trans h) (Option.some_ne_none _)

theorem setJobDefinitionState_outcome {env : Environment} (henv : env.Reliable) (s : Stores)
    (c : CommandContext) (t : Transition) (r : StateRequest) :
    ChangeOutcome s env.ids c t r ((setJobDefinitionState c t r).run env s) := by
  cases hx : r.selection.find? with
  | none =>
    have hrun : (setJobDefinitionState c t r).run env s = (.error .noDefinitionSelector, s) := by
      simp only [setJobDefinitionState, Command.run_bind, Command.run_liftM,
        DefinitionSelection.resolve, DefinitionSelection.find_normalized, hx]
    rw [hrun]
    exact .refused _
  | some sel =>
    rw [run_setJobDefinitionState_of_find? henv c t hx]
    cases hm : if c.isDetailed then r.selection.normalized.missing? s else none with
    | some e => exact .refused e
    | none =>
      have hfound := DefinitionSelection.foundIn_of_missing? hx hm
      have hv := (DefinitionSelection.find?_eq_some hx).2
      cases hd : r.executionDate with
      | some date =>
        have hrun : (scheduleState t sel r.includeJobs date).run env
            (s.recorded env.ids c (r.selection.audit s t)) =
              (.ok (), (s.recorded env.ids c (r.selection.audit s t)).addTimer
                (env.ids.timer s.timerCount)
                ⟨date, t, (TimerConfiguration.mk sel r.includeJobs).encode⟩) := by
          rw [scheduleState, TimerConfiguration.forSelector_eq_encode, Command.run_bind,
            Command.run_call henv]
          show (Except.ok (), Stores.addTimer _ _ _) = _
          rw [Stores.recorded_timerCount]
        show ChangeOutcome s env.ids c t r (Command.run env _ _)
        rw [hrun]
        exact .scheduled hx hd hfound
      | none =>
        have hfound' : c.isDetailed = true →
            sel.FoundIn (s.recorded env.ids c (r.selection.audit s t)) := by
          intro hc hk
          rw [Stores.recorded_definitions]
          exact hfound hc hk
        have hid : c.isDetailed = false →
            s.recordedId env.ids c (r.selection.audit s t) = none := by
          intro hc
          rw [Stores.recordedId, hc]
          rfl
        show ChangeOutcome s env.ids c t r (Command.run env _ _)
        rcases run_applyState_cases henv _ c t hv hfound' r.includeJobs hid with ⟨e, hrun⟩ | hrun
        · rw [hrun]
          exact .missed e
        · rw [hrun]
          exact .changed hx hd hfound

namespace ChangeOutcome

variable {s s' : Stores} {ids : IdSupply} {c : CommandContext} {t : Transition} {r : StateRequest}

theorem sameRecords {e : EngineError} (h : ChangeOutcome s ids c t r (.error e, s')) :
    s.SameRecords s' := by
  cases h with
  | refused => exact .refl s
  | missed => exact .recorded s ids c _

end ChangeOutcome

/-! ## handlers -/

theorem handleTimer_outcome {env : Environment} (henv : env.Reliable) (s : Stores)
    (c : CommandContext) (t : Transition) (timer : Job) :
    (∃ e s', (handleTimer c t timer).run env s = (.error e, s') ∧ s.SameRecords s') ∨
      ∃ text config s', timer.handlerConfiguration = some text ∧
        TimerConfiguration.decode text = .ok config ∧
        (handleTimer c t timer).run env s = (.ok (), s') ∧
        s'.jobs = s.jobs.map fun j =>
          if config.selector.reaches config.includeJobs j then j.withState t.target else j := by
  unfold handleTimer
  cases timer.handlerConfiguration with
  | none => exact .inl ⟨_, s, rfl, .refl s⟩
  | some text =>
    simp only [Command.run_bind, Command.run_liftM]
    cases hdecode : TimerConfiguration.decode text with
    | error e => exact .inl ⟨e, s, rfl, .refl s⟩
    | ok config =>
      have hout := setJobDefinitionState_outcome henv s c t
        { selection := config.selector.toSelection, includeJobs := config.includeJobs }
      cases hrun : (setJobDefinitionState c t
          { selection := config.selector.toSelection, includeJobs := config.includeJobs }).run env s
        with
      | mk outcome s' =>
        rw [hrun] at hout
        cases outcome with
        | error e => exact .inl ⟨e, s', hrun, hout.sameRecords⟩
        | ok _ =>
          refine .inr ⟨text, config, s', rfl, hdecode, hrun, ?_⟩
          cases hout with
          | scheduled _ hd => cases hd
          | changed hx =>
            rw [DefinitionSelector.eq_of_find?_toSelection hx, Stores.applied_jobs,
              Stores.recorded_jobs]

end JobSuspension
