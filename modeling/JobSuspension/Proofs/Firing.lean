import JobSuspension.Proofs.Attempts
import JobSuspension.Proofs.Configuration

/-!
# Firing a deferred change

A deferred change lies in the stores as a timer.  The timer belongs to nobody and starts nothing, so
no change of states reaches it; and firing it comes to the change that was asked for.

* `Deferred`                     a change of job definitions that waits for its date;
* `Deferred.timer x`             the timer it waits in;
* `Deferred.onDefinition x d`, `Deferred.onJob x j`, `Deferred.rows x c`   what it does to one
                                 record, and what it leaves in the log;
* `Deferred.onJob_timer`         a waiting timer stays as it is;
* `acquire_pending`              a pass acquires the timers that are due, in the order of their dates;
* `settle_executed`, `settle_failed`   and settles each of them.
-/

namespace JobSuspension

/-! ## rows -/

/-- a row without the ids that were given out for it and without what it was about -/
def LogEntry.bare (e : LogEntry) : LogEntry :=
  { e with entryId := "", operationId := "", selection := {} }

/-- the bare row of a change of states -/
def Transition.row (t : Transition) (c : CommandContext) (entity : EntityType) (o : OperationType) :
    LogEntry :=
  ⟨"", "", o, entity, c.userId, c.recordedAt, {}, some suspensionStateProperty, none,
    some t.target.name⟩

theorem Stores.bare_rows_ofJobDefinition (s : Stores) (ids : IdSupply) (c : CommandContext)
    (t : Transition) (x : DefinitionSelection) :
    (s.rows ids c (.ofJobDefinition t.operation x t.change)).map LogEntry.bare =
      if c.isDetailed then [t.row c .jobDefinition t.operation] else [] := by
  unfold rows
  split <;> rfl

theorem Stores.bare_rows_ofJob (s : Stores) (ids : IdSupply) (c : CommandContext)
    (t : Transition) (o : Option String) (x : JobSelection) :
    (s.rows ids c (.ofJob o t.jobOperation x t.change)).map LogEntry.bare =
      if c.isDetailed then [t.row c .job t.jobOperation] else [] := by
  unfold rows
  split <;> rfl

/-! ## timers -/

structure Deferred where
  id : String
  date : Instant
  transition : Transition
  selector : DefinitionSelector
  includeJobs : Bool

namespace Deferred

def timer (x : Deferred) : Job :=
  DeferredAction.toJob ⟨x.date, x.transition, (TimerConfiguration.mk x.selector x.includeJobs).encode⟩
    x.id

/-- what the timer asks for when it fires -/
def request (x : Deferred) : StateRequest where
  selection := x.selector.toSelection
  includeJobs := x.includeJobs

def onDefinition (x : Deferred) (d : JobDefinition) : JobDefinition :=
  if x.selector.selects d then d.withState x.transition.target else d

def onJob (x : Deferred) (j : Job) : Job :=
  if x.selector.reaches x.includeJobs j then j.withState x.transition.target else j

/-- the bare rows it leaves in the log -/
def rows (x : Deferred) (c : CommandContext) : List LogEntry :=
  (if c.isDetailed then [x.transition.row c .jobDefinition x.transition.operation] else []) ++
    if x.includeJobs ∧ c.isDetailed then [x.transition.row c .job x.transition.jobOperation] else []

theorem onJob_handlerType (x : Deferred) (j : Job) : (x.onJob j).handlerType = j.handlerType := by
  unfold onJob; split <;> rfl

theorem reaches_timer (sel : DefinitionSelector) (b : Bool) (x : Deferred) :
    sel.reaches b x.timer = false :=
  sel.reaches_of_unowned ⟨rfl, rfl, rfl, rfl⟩ b

theorem onJob_timer (x y : Deferred) : x.onJob y.timer = y.timer := by
  unfold onJob
  rw [reaches_timer]
  rfl

/-- due from its date on, until its retries are used up -/
theorem isWanted_timer {x : Deferred} {types : List String} {now : Instant}
    (htypes : types.contains x.transition.handlerType = true) :
    Job.isWanted types now x.timer = true ↔ x.date ≤ now := by
  have hretries : (decide (0 < x.timer.retries)) = true := by
    show decide ((0 : UInt32) < 3) = true
    decide
  have ht : types.contains x.timer.handlerType = true := htypes
  show (!x.timer.state.isSuspended && decide (0 < x.timer.retries) && decide (x.date ≤ now)
    && types.contains x.timer.handlerType) = true ↔ _
  rw [hretries, ht]
  show (decide (x.date ≤ now) && true) = true ↔ _
  rw [Bool.and_true, decide_eq_true_eq]

/-! ## firing -/

section
variable {env : Environment} {s : Stores} (c : CommandContext) (x : Deferred)

theorem run_handleTimer :
    (handleTimer c x.transition x.timer).run env s =
      (setJobDefinitionState c x.transition x.request).run env s := by
  show (do
    let config ← liftM (TimerConfiguration.decode
      (TimerConfiguration.mk x.selector x.includeJobs).encode)
    setJobDefinitionState c x.transition
      ⟨config.selector.toSelection, config.includeJobs, none⟩ : Command Unit).run env s = _
  rw [TimerConfiguration.decode_encode, Command.run_bind, Command.run_liftM]
  rfl

end

/-- the stores after a change, from those before -/
structure Done (x : Deferred) (c : CommandContext) (s s' : Stores) : Prop
    extends s.Changed x.onDefinition x.onJob s' where
  log : ∃ rows, s'.log = s.log ++ rows ∧ rows.map LogEntry.bare = x.rows c

/-- any request with this selector and flag comes to the same -/
theorem run_request {env : Environment} (henv : env.Reliable) {s : Stores} (hs : s.WellKeyed)
    (c : CommandContext) (x : Deferred) {selection : DefinitionSelection}
    (hx : selection.find? = some x.selector)
    (h : StateRequest.refusal? s c ⟨selection, x.includeJobs, none⟩ = none) :
    ∃ s', (setJobDefinitionState c x.transition ⟨selection, x.includeJobs, none⟩).run env s =
      (.ok (), s') ∧ x.Done c s s' := by
  refine ⟨_, run_setJobDefinitionState henv hs c x.transition hx rfl h,
    Stores.changed_applied hs _ _ _ _ _ _ _, ?_⟩
  rw [Stores.applied_log, Stores.recorded_log, List.append_assoc]
  refine ⟨_, rfl, ?_⟩
  rw [List.map_append, DefinitionSelection.audit, Stores.bare_rows_ofJobDefinition]
  unfold rows
  obtain ⟨id, date, t, sel, b⟩ := x
  cases b with
  | false => rfl
  | true =>
    simp only [if_true, Stores.bare_rows_ofJob, true_and]

end Deferred

/-! ## acquiring the timers of changes -/

namespace TimerExecutor

variable {x : TimerExecutor} {env : Environment} {now : Instant} {s : Stores}

theorem handler?_handlerType {t : Transition} (h : t ∈ x.handlers) :
    x.handler? t.handlerType = some t := by
  unfold handler? registered
  cases t with
  | activate => simp [h]
  | suspend =>
    by_cases ha : Transition.activate ∈ x.handlers <;>
      simp [h, ha, Transition.handlerType]

theorem contains_handlerTypes {t : Transition} (h : t ∈ x.handlers) :
    x.handlerTypes.contains t.handlerType = true := by
  have hmem : t ∈ x.registered := by
    unfold registered
    cases t <;> simp [h]
  exact List.contains_iff_mem.mpr (List.mem_map_of_mem hmem)

/-- the due changes in the order of their dates, when nothing else is wanted -/
theorem acquire_pending (henv : env.Reliable) (hs : s.WellKeyed) (pending : List Deferred)
    (hids : (pending.map Deferred.id).Nodup) (hsorted : pending.Pairwise (·.date < ·.date))
    (hhandlers : ∀ y ∈ pending, y.transition ∈ x.handlers)
    (hstored : ∀ y ∈ pending, s.jobs.get? y.id = some y.timer)
    (hothers : ∀ k j, s.jobs.get? k = some j → k ∉ pending.map Deferred.id →
      Job.isWanted x.handlerTypes now j = false) {limit : Nat} (hlimit : 1 ≤ limit) :
    step env (x.acquire now limit) s =
      (.ok (((pending.filter (·.date ≤ now)).take limit).map Deferred.timer), s) := by
  have hnodup : s.jobs.values.Nodup := (Stores.nodup_values hs.jobs).of_map
  have hwanted : ∀ y ∈ pending, (Job.isWanted x.handlerTypes now y.timer = true ↔ y.date ≤ now) :=
    fun y hy => Deferred.isWanted_timer (contains_handlerTypes (hhandlers y hy))
  have hdue : Job.firstDue s.jobs.values now x.handlerTypes limit =
      ((pending.filter (·.date ≤ now)).map Deferred.timer).take limit := by
    refine Job.firstDue_eq hnodup ?_ ?_ fun j => ?_
    · rw [List.map_map]
      exact hids.sublist (List.filter_sublist.map Deferred.id)
    · rw [List.pairwise_map]
      refine (hsorted.sublist List.filter_sublist).imp fun {y z} h => ?_
      show (decide (y.date < z.date) || _) = true
      rw [decide_eq_true h, Bool.true_or]
    · rw [List.mem_map]
      constructor
      · rintro ⟨y, hy, rfl⟩
        rw [List.mem_filter, decide_eq_true_eq] at hy
        exact ⟨Table.mem_values.mpr ⟨y.id, hstored y hy.1⟩, (hwanted y hy.1).mpr hy.2⟩
      · rintro ⟨hj, hw⟩
        obtain ⟨k, hk⟩ := Table.mem_values.mp hj
        by_cases hp : k ∈ pending.map Deferred.id
        · obtain ⟨y, hy, rfl⟩ := List.mem_map.mp hp
          obtain rfl := Option.some.inj ((hstored y hy).symm.trans hk)
          refine ⟨y, ?_, rfl⟩
          rw [List.mem_filter, decide_eq_true_eq]
          exact ⟨hy, (hwanted y hy).mp hw⟩
        · rw [hothers k j hk hp] at hw
          cases hw
  rw [step_acquire henv x now s hlimit, hdue, List.map_take]

/-! ## settling the timer of a change -/

theorem settle_executed (henv : env.Reliable) (hs : s.WellKeyed) (c : CommandContext)
    (now : Instant) {y : Deferred} (ht : y.transition ∈ x.handlers)
    (hv : Text.isBlank y.selector.value = false)
    (hj : s.jobs.get? y.id = some y.timer) (h : y.request.refusal? s c = none) :
    ∃ s', y.Done c s s' ∧ x.settle env c now y.timer s = (.ok .executed, s'.removeJob y.id) := by
  obtain ⟨s', hrun, hdone⟩ := y.run_request henv hs c (DefinitionSelector.find?_toSelection hv) h
  have hhandler : x.handler? y.timer.handlerType = some y.transition := handler?_handlerType ht
  have hj' : s'.jobs.get? y.id = some y.timer := by
    rw [hdone.jobs, Table.get?_map, hj, Option.map_some, Deferred.onJob_timer]
  exact ⟨s', hdone, settle_of_ok henv hhandler ((Deferred.run_handleTimer c y).trans hrun) hj'⟩

theorem settle_failed (henv : env.Reliable) (hs : s.WellKeyed) (c : CommandContext)
    {y : Deferred} (ht : y.transition ∈ x.handlers) {e : EngineError}
    (hj : s.jobs.get? y.id = some y.timer) (h : y.request.refusal? s c = some e)
    {retryAt : Instant} (hretry : now.add? x.retryWait = some retryAt) :
    x.settle env c now y.timer s =
      (.ok (.failed ⟨y.id, y.transition.handlerType, 2, e.message, retryAt⟩),
        { s with jobs := s.jobs.insert y.id (y.timer.withFailure e.message retryAt) }) := by
  have hhandler : x.handler? y.timer.handlerType = some y.transition := handler?_handlerType ht
  have hrun := run_setJobDefinitionState_refused henv hs c y.transition h
  have hretries : (y.timer.withFailure e.message retryAt).retries = 2 := by
    show (if (3 : UInt32) = 0 then 0 else 3 - 1) = 2
    decide
  have hhandle := (Deferred.run_handleTimer c y).trans hrun
  have hsettle := settle_of_error henv hhandler hhandle hretry hj
  rw [hretries] at hsettle
  exact hsettle

end TimerExecutor
end JobSuspension
