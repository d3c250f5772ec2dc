import JobSuspension.Proofs.Runs
import JobSuspension.Proofs.Settlement

/-!
# Auditing changes nothing but the log

Detailed auditing looks records up before anything is done, and may refuse a change there that is
otherwise refused when it is made.  With records under their own ids both refuse the same changes
for the same reason.  So two engines with the same records, one audited and one not, give the same
answers and keep the same records, through a whole batch of timers that act on each other.

* `Alike r r'`                  two runs end alike and leave the same records;
* `Ends R r r'`                 the same for stores that `R` relates;
* `ends_setJobDefinitionState`, `ends_handleTimer`   what it takes that a change and a timer do so;
* `TimerExecutor.Carries env c c' R`   `R` cannot tell the timers that `c` and `c'` handle apart;
* `Carries.settle`, `Carries.settleAll`, `Carries.runPass`   then it carries through a pass;
* `alike_setJobDefinitionState`, `alike_handleTimer`, `TimerExecutor.alike_runPass`
                                a change, a timer, a pass, by whomever it is made;
* `auditing_changes_only_the_log`   the two together, from one state.
-/

namespace JobSuspension

/-- the runs may differ in the log and in the ids given out for it -/
structure Alike {α : Type} (r r' : α × Stores) : Prop where
  outcome : r.1 = r'.1
  records : r.2.SameRecords r'.2

structure Ends {α : Type} (R : Stores → Stores → Prop) (r r' : α × Stores) : Prop where
  outcome : r.1 = r'.1
  related : R r.2 r'.2

theorem Alike.ends {α : Type} {r r' : α × Stores} (h : Alike r r') :
    Ends Stores.SameRecords r r' := ⟨h.outcome, h.records⟩

theorem Ends.alike {α : Type} {r r' : α × Stores} (h : Ends Stores.SameRecords r r') :
    Alike r r' := ⟨h.outcome, h.related⟩

/-- what was related stays related if it goes on alike -/
theorem Ends.elim {α : Type} {R : Stores → Stores → Prop} {r r' : α × Stores} (h : Ends R r r') :
    ∃ a s s', r = (a, s) ∧ r' = (a, s') ∧ R s s' := by
  obtain ⟨a, s⟩ := r
  obtain ⟨a', s'⟩ := r'
  obtain ⟨houtcome, hrelated⟩ := h
  cases houtcome
  exact ⟨_, s, s', rfl, rfl, hrelated⟩

namespace Stores.SameRecords

variable {s s' : Stores} (h : s.SameRecords s')
include h

theorem wellKeyed (hs : s.WellKeyed) : s'.WellKeyed :=
  ⟨h.definitions ▸ hs.definitions, h.jobs ▸ hs.jobs, h.processInstances ▸ hs.processInstances⟩

theorem setJobs (p : Job → Bool) (state : SuspensionState) :
    (s.setJobs p state).SameRecords (s'.setJobs p state) :=
  ⟨h.definitions, congrArg (Table.map · fun j => if p j then j.withState state else j) h.jobs,
    h.processInstances, h.timerCount⟩

theorem applied (ids : IdSupply) (c c' : CommandContext) (t : Transition) (x : DefinitionSelector)
    (b : Bool) (o o' : Option String) :
    (s.applied ids c t x b o).SameRecords (s'.applied ids c' t x b o') := by
  refine ⟨?_, ?_, ?_, ?_⟩
  · rw [applied_definitions, applied_definitions, h.definitions]
  · rw [applied_jobs, applied_jobs, h.jobs]
  · rw [applied_processInstances, applied_processInstances, h.processInstances]
  · rw [applied_timerCount, applied_timerCount, h.timerCount]

end Stores.SameRecords

section
variable {env : Environment} (henv : env.Reliable) {s s' : Stores} (hs : s.WellKeyed)
  (h : s.SameRecords s') (c c' : CommandContext)

/-! ## changes -/

section
variable {R : Stores → Stores → Prop} (hR : R s s')
include hR

include henv hs h in
/-- a change that is refused is refused to both; one that is made is made by both -/
theorem ends_setJobDefinitionState (t : Transition) {r : StateRequest}
    (hd : r.executionDate = none)
    (happlied : ∀ sel,
      R ((s.recorded env.ids c (r.selection.audit s t)).applied env.ids c t sel r.includeJobs
          (s.recordedId env.ids c (r.selection.audit s t)))
        ((s'.recorded env.ids c' (r.selection.audit s' t)).applied env.ids c' t sel r.includeJobs
          (s'.recordedId env.ids c' (r.selection.audit s' t)))) :
    Ends R ((setJobDefinitionState c t r).run env s)
      ((setJobDefinitionState c' t r).run env s') := by
  have hs' := h.wellKeyed hs
  have hrefusal : r.refusal? s c = r.refusal? s' c' :=
    StateRequest.refusal?_congr rfl hd hd h.definitions.symm
  cases hr : r.refusal? s c with
  | some e =>
    rw [run_setJobDefinitionState_refused henv hs c t hr,
      run_setJobDefinitionState_refused henv hs' c' t (hrefusal.symm.trans hr)]
    exact ⟨rfl, hR⟩
  | none =>
    obtain ⟨sel, hx⟩ := StateRequest.exists_of_refusal? hr
    rw [run_setJobDefinitionState henv hs c t hx hd hr,
      run_setJobDefinitionState henv hs' c' t hx hd (hrefusal.symm.trans hr)]
    exact ⟨rfl, happlied sel⟩

theorem ends_handleTimer (t : Transition) (timer : Job)
    (hchange : ∀ r : StateRequest, r.executionDate = none →
      Ends R ((setJobDefinitionState c t r).run env s)
        ((setJobDefinitionState c' t r).run env s')) :
    Ends R ((handleTimer c t timer).run env s) ((handleTimer c' t timer).run env s') := by
  unfold handleTimer
  cases timer.handlerConfiguration with
  | none => exact ⟨rfl, hR⟩
  | some text =>
    simp only [Command.run_bind, Command.run_liftM]
    cases TimerConfiguration.decode text with
    | error e => exact ⟨rfl, hR⟩
    | ok config => exact hchange _ rfl

end

include henv hs h

theorem alike_setJobDefinitionState (t : Transition) {r : StateRequest}
    (hd : r.executionDate = none) :
    Alike ((setJobDefinitionState c t r).run env s)
      ((setJobDefinitionState c' t r).run env s') := by
  have hrecorded := ((Stores.SameRecords.recorded s env.ids c (r.selection.audit s t)).symm.trans
    h).trans (.recorded s' env.ids c' (r.selection.audit s' t))
  exact (ends_setJobDefinitionState henv hs h c c' h t hd fun sel =>
    hrecorded.applied env.ids c c' t sel r.includeJobs _ _).alike

theorem alike_handleTimer (t : Transition) (timer : Job) :
    Alike ((handleTimer c t timer).run env s) ((handleTimer c' t timer).run env s') :=
  (ends_handleTimer c c' h t timer fun _ hd =>
    (alike_setJobDefinitionState henv hs h c c' t hd).ends).alike

end

/-! ## passes -/

namespace TimerExecutor

structure Carries (env : Environment) (c c' : CommandContext) (R : Stores → Stores → Prop) :
    Prop where
  records : ∀ {s s'}, R s s' → s.SameRecords s'
  /-- the log says nothing of what a pass does to its own timers -/
  withJobs : ∀ {s s'} (jobs : Table Job), R s s' →
    R { s with jobs := jobs } { s' with jobs := jobs }
  handles : ∀ {s s'}, s.WellKeyed → R s s' → ∀ t timer,
    Ends R ((handleTimer c t timer).run env s) ((handleTimer c' t timer).run env s')

theorem carries_sameRecords {env : Environment} (henv : env.Reliable) (c c' : CommandContext) :
    Carries env c c' Stores.SameRecords where
  records := id
  withJobs := fun _ h => ⟨h.definitions, rfl, h.processInstances, h.timerCount⟩
  handles := fun hs h t timer => (alike_handleTimer henv hs h c c' t timer).ends

namespace Carries

variable {env : Environment} {c c' : CommandContext} {R : Stores → Stores → Prop}
  (h : Carries env c c' R) (henv : env.Reliable) {s s' : Stores} (hR : R s s')
include h henv hR

theorem deleteExecuted (timer : Job) :
    Ends R (deleteExecuted env timer s) (deleteExecuted env timer s') := by
  have hjobs : s'.jobs = s.jobs := (h.records hR).jobs
  have hremoved : R (s.removeJob timer.id) (s'.removeJob timer.id) := by
    unfold Stores.removeJob
    rw [hjobs]
    exact h.withJobs _ hR
  simp only [TimerExecutor.deleteExecuted, step, Command.run_bind, Command.run_call henv,
    Call.perform, hjobs]
  cases s.jobs.get? timer.id with
  | none => exact ⟨rfl, hR⟩
  | some j => exact ⟨rfl, hremoved⟩

variable (x : TimerExecutor) (now : Instant)

theorem recordFailure (timer : Job) (e : EngineError) :
    Ends R (x.recordFailure env now timer e s) (x.recordFailure env now timer e s') := by
  have hjobs : s'.jobs = s.jobs := (h.records hR).jobs
  unfold TimerExecutor.recordFailure
  cases now.add? x.retryWait with
  | none => exact ⟨rfl, hR⟩
  | some retryAt =>
    simp only [step, Command.run_bind, Command.run_call henv, Call.perform, hjobs]
    cases s.jobs.get? timer.id with
    | none => exact ⟨rfl, hR⟩
    | some j => exact ⟨rfl, h.withJobs _ hR⟩

variable (hs : s.WellKeyed)
include hs

theorem settle (timer : Job) :
    Ends R (x.settle env c now timer s) (x.settle env c' now timer s') := by
  unfold TimerExecutor.settle
  cases x.handler? timer.handlerType with
  | none => exact ⟨rfl, hR⟩
  | some t =>
    obtain ⟨outcome, s₁, s₁', hrun, hrun', h₁⟩ := (h.handles hs hR t timer).elim
    simp only [hrun, hrun']
    cases outcome with
    | error e => exact h.recordFailure henv h₁ x now timer e
    | ok _ => exact h.deleteExecuted henv h₁ timer

theorem settleAll (timers : List Job) :
    Ends R (x.settleAll env c now timers s) (x.settleAll env c' now timers s') := by
  induction timers generalizing s s' with
  | nil => exact ⟨rfl, hR⟩
  | cons timer timers ih =>
    have hlater := (Stores.Later.keeps env).settle x c now timer s
    obtain ⟨outcome, s₁, s₁', hsettle, hsettle', h₁⟩ := (h.settle henv hR x now hs timer).elim
    rw [hsettle] at hlater
    simp only [TimerExecutor.settleAll, hsettle, hsettle']
    cases outcome with
    | error e => exact ⟨rfl, h₁⟩
    | ok o =>
      obtain ⟨outcomes, s₂, s₂', hall, hall', h₂⟩ := (ih h₁ (hlater.wellKeyed hs)).elim
      simp only [hall, hall']
      cases outcomes with
      | error e => exact ⟨rfl, h₂⟩
      | ok l => exact ⟨rfl, h₂⟩

theorem runPass (limit : Nat) :
    Ends R (x.runPass env c now limit s) (x.runPass env c' now limit s') := by
  unfold TimerExecutor.runPass
  rcases Nat.eq_zero_or_pos limit with rfl | hlimit
  · exact ⟨rfl, hR⟩
  · rw [step_acquire henv x now s hlimit, step_acquire henv x now s' hlimit, (h.records hR).jobs]
    obtain ⟨outcomes, s₁, s₁', hall, hall', h₁⟩ := (h.settleAll henv hR x now hs
      (Job.firstDue s.jobs.values now x.handlerTypes limit)).elim
    simp only [hall, hall']
    cases outcomes with
    | error e => exact ⟨rfl, h₁⟩
    | ok l => exact ⟨rfl, h₁⟩

end Carries

theorem alike_runPass {env : Environment} (henv : env.Reliable) {s s' : Stores} (hs : s.WellKeyed)
    (h : s.SameRecords s') (c c' : CommandContext) (x : TimerExecutor) (now : Instant)
    (limit : Nat) : Alike (x.runPass env c now limit s) (x.runPass env c' now limit s') :=
  ((carries_sameRecords henv c c').runPass henv h x now hs limit).alike

end TimerExecutor

/-! ## auditing -/

/-- **Auditing changes only the log.**  Whatever the auditing levels of two callers, a change that
is made at once has the same answer and leaves the same records, and so has a timer pass, down to
the messages of its failures. -/
theorem auditing_changes_only_the_log {env : Environment} (henv : env.Reliable) {s : Stores}
    (hs : s.WellKeyed) (c c' : CommandContext) :
    (∀ t (r : StateRequest), r.executionDate = none →
      Alike ((setJobDefinitionState c t r).run env s) ((setJobDefinitionState c' t r).run env s)) ∧
    (∀ (x : TimerExecutor) now limit,
      Alike (x.runPass env c now limit s) (x.runPass env c' now limit s)) ∧
    (∀ (x : TimerExecutor) now limit, now.add? x.retryWait ≠ none → 1 ≤ limit →
      ∃ report, (x.runPass env c now limit s).1 = .ok report ∧
        (x.runPass env c' now limit s).1 = .ok report) := by
  have hpass := TimerExecutor.alike_runPass henv hs (.refl s) c c'
  refine ⟨fun t r hd => alike_setJobDefinitionState henv hs (.refl s) c c' t hd, hpass,
    fun x now limit hretry hlimit => ?_⟩
  obtain ⟨retryAt, hretry⟩ := Option.ne_none_iff_exists'.mp hretry
  obtain ⟨l, s', h⟩ := TimerExecutor.runPass_settles (c := c) henv hs.jobs hretry hlimit
  have hreport := congrArg Prod.fst h.run
  exact ⟨_, hreport, (hpass x now limit).outcome.symm.trans hreport⟩

/-- the job definition is missed by the journal of the one and by the update of the other -/
theorem auditing_changes_only_the_log_missing :
    let env : Environment := { ids := ⟨fun _ => "timer", fun _ => "entry", fun _ => "operation"⟩ }
    let c : CommandContext := { actor := none, level := .full }
    let c' : CommandContext := { actor := none, level := .none }
    let x : TimerExecutor := { handlers := [.suspend], retryWait := ⟨1⟩ }
    let action : DeferredAction :=
      ⟨.epoch, .suspend, (TimerConfiguration.mk ⟨.jobDefinitionId, "d"⟩ false).encode⟩
    let s : Stores := Stores.addTimer {} "a" action
    let r : StateRequest := { selection := { jobDefinitionId := some "d" } }
    env.Reliable ∧ s.WellKeyed ∧
      ((setJobDefinitionState c .suspend r).run env s).1 = .error (.noJobDefinition "d") ∧
      ((setJobDefinitionState c' .suspend r).run env s).1 = .error (.noJobDefinition "d") ∧
      Alike (x.runPass env c .epoch 1 s) (x.runPass env c' .epoch 1 s) ∧
      ∃ report, (x.runPass env c .epoch 1 s).1 = .ok report ∧
        (x.runPass env c' .epoch 1 s).1 = .ok report := by
  intro env c c' x action s r
  have henv : env.Reliable := ⟨fun _ => rfl, rfl⟩
  have hs : s.WellKeyed := Stores.WellKeyed.empty.addTimer "a" action
  obtain ⟨hchange, hpass, hreport⟩ := auditing_changes_only_the_log henv hs c c'
  have herror : ((setJobDefinitionState c .suspend r).run env s).1 =
      .error (.noJobDefinition "d") := rfl
  have hretry : Instant.add? .epoch x.retryWait ≠ none := by decide
  exact ⟨henv, hs, herror, (hchange .suspend r rfl).outcome.symm.trans herror, hpass x .epoch 1,
    hreport x .epoch 1 hretry (by decide)⟩

end JobSuspension
