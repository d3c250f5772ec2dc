import JobSuspension.Proofs.Firing

/-!
# Doing it later comes to the same

A change of job definitions with an execution date goes a long way: it is written down as the text
of a configuration, stored as a timer, acquired, read back and asked for again by a selection that
carries the one selector.  What happens in the end is what would have happened at once.

* `Deferred.Scheduled y s s'`    scheduling adds the timer of `y` and nothing else;
* `run_later`                    what a request with an execution date does;
* `deferred_refines_immediate`   firing the timer agrees with the request without a date.
-/

namespace JobSuspension

/-! ## scheduling -/

structure Deferred.Scheduled (y : Deferred) (s s' : Stores) : Prop where
  definitions : s'.definitions = s.definitions
  jobs : s'.jobs = s.jobs.insert y.id y.timer
  processInstances : s'.processInstances = s.processInstances
  timerCount : s'.timerCount = s.timerCount + 1
  wellKeyed : s'.WellKeyed

section
variable {env : Environment} {s : Stores} (c : CommandContext) (t : Transition)
  {r : StateRequest} {sel : DefinitionSelector} {date : Instant}

/-- the change that waits when a request with this selector and date is put off -/
def StateRequest.deferred (r : StateRequest) (id : String) (t : Transition)
    (sel : DefinitionSelector) (date : Instant) : Deferred :=
  ⟨id, date, t, sel, r.includeJobs⟩

theorem run_later (henv : env.Reliable) (hs : s.WellKeyed) (hx : r.selection.find? = some sel)
    (hd : r.executionDate = some date) (h : r.refusal? s c = none) :
    ∃ s', (setJobDefinitionState c t r).run env s = (.ok (), s') ∧
      (r.deferred (env.ids.timer s.timerCount) t sel date).Scheduled s s' := by
  refine ⟨_, run_setJobDefinitionState_later henv c t hx hd h, ?_, ?_, ?_, ?_, ?_⟩
  · exact Stores.recorded_definitions _ _ _ _
  · show Table.insert _ _ _ = _
    rw [Stores.recorded_jobs]
    rfl
  · exact Stores.recorded_processInstances _ _ _ _
  · show Stores.timerCount _ + 1 = _
    rw [Stores.recorded_timerCount]
  · exact (hs.recorded _ _ _).addTimer _ _

/-- a request that was put off was not refused -/
theorem of_run_later (henv : env.Reliable) (hs : s.WellKeyed) (hd : r.executionDate = some date)
    {s' : Stores} (h : (setJobDefinitionState c t r).run env s = (.ok (), s')) :
    ∃ sel, r.selection.find? = some sel ∧
      (r.deferred (env.ids.timer s.timerCount) t sel date).Scheduled s s' := by
  cases hr : r.refusal? s c with
  | some e =>
    rw [run_setJobDefinitionState_refused henv hs c t hr] at h
    cases h
  | none =>
    obtain ⟨sel, hx⟩ := StateRequest.exists_of_refusal? hr
    obtain ⟨s'', hrun, hscheduled⟩ := run_later c t henv hs hx hd hr
    rw [h] at hrun
    cases hrun
    exact ⟨sel, hx, hscheduled⟩

end

/-! ## one timer -/

namespace TimerExecutor

variable {x : TimerExecutor} {env : Environment} {c : CommandContext} {now : Instant}
  {s s' : Stores}

theorem runPass_one {timer : Job} {o : Settlement} {limit : Nat}
    (hacquire : step env (x.acquire now limit) s = (.ok [timer], s))
    (hsettle : x.settle env c now timer s = (.ok o, s')) :
    x.runPass env c now limit s = (.ok (.ofSettlements [o]), s') := by
  simp only [runPass, hacquire, settleAll, hsettle]

theorem not_isWanted {j : Job} (h : j.isAcquirableAt now = true →
    ∀ t : Transition, j.handlerType ≠ t.handlerType) : Job.isWanted x.handlerTypes now j = false := by
  unfold Job.isWanted
  cases ha : j.isAcquirableAt now with
  | false => rfl
  | true =>
    rw [Bool.true_and, Bool.eq_false_iff]
    intro hc
    obtain ⟨t, -, ht⟩ := List.mem_map.mp (List.contains_iff_mem.mp hc)
    exact h ha t ht.symm

end TimerExecutor

/-- once the timer is gone, nothing tells that it was ever there -/
theorem Deferred.erase_map_insert (y : Deferred) {jobs : Table Job} (hnew : jobs.get? y.id = none) :
    ((jobs.insert y.id y.timer).map y.onJob).erase y.id = jobs.map y.onJob := by
  apply Table.ext_get?
  intro k
  rw [Table.get?_erase, Table.get?_map, Table.get?_insert, Table.get?_map]
  by_cases hk : y.id = k
  · rw [if_pos hk, ← hk, hnew]
    rfl
  · rw [if_neg hk, if_neg hk]

/-- a failure puts the timer back as it is after the attempt -/
theorem Table.insert_insert {α : Type} (t : Table α) (k : String) (a b : α) :
    (t.insert k a).insert k b = t.insert k b := by
  apply ext_get?
  intro k'
  rw [get?_insert, get?_insert, get?_insert]
  split <;> rfl

namespace Deferred.Scheduled

variable {y : Deferred} {s s₁ : Stores} {env : Environment} {x : TimerExecutor}
  {now : Instant} {limit : Nat}

theorem get?_id (h : y.Scheduled s s₁) : s₁.jobs.get? y.id = some y.timer := by
  rw [h.jobs, Table.get?_insert, if_pos rfl]

theorem acquire (henv : env.Reliable) (h : y.Scheduled s s₁) (hhandler : y.transition ∈ x.handlers)
    (hdue : y.date ≤ now) (hlimit : 1 ≤ limit)
    (hidle : ∀ k j, s.jobs.get? k = some j → j.isAcquirableAt now = true →
      ∀ t : Transition, j.handlerType ≠ t.handlerType) :
    TimerExecutor.step env (x.acquire now limit) s₁ = (.ok [y.timer], s₁) := by
  have hothers : ∀ k j, s₁.jobs.get? k = some j → k ∉ [y].map Deferred.id →
      Job.isWanted x.handlerTypes now j = false := by
    intro k j hj hk
    have hne : ¬ y.id = k := fun e => hk (List.mem_singleton.mpr e.symm)
    rw [h.jobs, Table.get?_insert, if_neg hne] at hj
    exact TimerExecutor.not_isWanted (hidle k j hj)
  have hfilter : ([y].filter (·.date ≤ now)).take limit = [y] := by
    rw [List.filter_eq_self.mpr, List.take_of_length_le hlimit]
    intro z hz
    rw [List.mem_singleton.mp hz]
    exact decide_eq_true hdue
  rw [TimerExecutor.acquire_pending henv h.wellKeyed [y] (List.nodup_singleton _)
    (List.pairwise_singleton _ _) (fun z hz => List.mem_singleton.mp hz ▸ hhandler)
    (fun z hz => List.mem_singleton.mp hz ▸ h.get?_id) hothers hlimit, hfilter]
  rfl

variable {c : CommandContext}
  (hacquire : TimerExecutor.step env (x.acquire now limit) s₁ = (.ok [y.timer], s₁))
include hacquire

theorem runPass_executed (henv : env.Reliable) (h : y.Scheduled s s₁)
    (hhandler : y.transition ∈ x.handlers) (hv : Text.isBlank y.selector.value = false)
    (hnew : s.jobs.get? y.id = none) (hrefusal : y.request.refusal? s₁ c = none) :
    ∃ s₂, x.runPass env c now limit s₁ = (.ok ⟨1, 1, []⟩, s₂) ∧
      s₂.definitions = s.definitions.map y.onDefinition ∧ s₂.jobs = s.jobs.map y.onJob ∧
      s₂.processInstances = s.processInstances ∧
      ∃ rows, s₂.log = s₁.log ++ rows ∧ rows.map LogEntry.bare = y.rows c := by
  obtain ⟨s', hdone, hsettle⟩ :=
    TimerExecutor.settle_executed henv h.wellKeyed c now hhandler hv h.get?_id hrefusal
  refine ⟨_, TimerExecutor.runPass_one hacquire hsettle, ?_, ?_, ?_, hdone.log⟩
  · exact hdone.definitions.trans (by rw [h.definitions])
  · show s'.jobs.erase y.id = _
    rw [hdone.jobs, h.jobs, erase_map_insert y hnew]
  · exact hdone.processInstances.trans h.processInstances

theorem runPass_failed (henv : env.Reliable) (h : y.Scheduled s s₁)
    (hhandler : y.transition ∈ x.handlers) {e : EngineError}
    (hrefusal : y.request.refusal? s₁ c = some e) {retryAt : Instant}
    (hretry : now.add? x.retryWait = some retryAt) :
    ∃ s₂, x.runPass env c now limit s₁ =
        (.ok ⟨1, 0, [⟨y.id, y.transition.handlerType, 2, e.message, retryAt⟩]⟩, s₂) ∧
      s₂.definitions = s.definitions ∧
      s₂.jobs = s.jobs.insert y.id (y.timer.withFailure e.message retryAt) ∧
      s₂.processInstances = s.processInstances ∧ s₂.log = s₁.log := by
  have hsettle := TimerExecutor.settle_failed henv h.wellKeyed c hhandler h.get?_id hrefusal hretry
  refine ⟨_, TimerExecutor.runPass_one hacquire hsettle, h.definitions, ?_, h.processInstances, rfl⟩
  show s₁.jobs.insert _ _ = _
  rw [h.jobs, Table.insert_insert]

end Deferred.Scheduled

/-! ## later and at once -/

/-- **A deferred change is the change, later.**  Scheduling adds a timer and nothing else.  A pass
that finds only this timer due acquires it and does what the request would have done at once: it
goes through with the same records and, but for ids, the same log; or it is refused with the same
error, and then the timer waits for its next attempt and nothing else moves. -/
theorem deferred_refines_immediate {env env' : Environment} (henv : env.Reliable)
    (henv' : env'.Reliable) {s s₁ : Stores} (hs : s.WellKeyed) {c : CommandContext} {t : Transition}
    {selection : DefinitionSelection} {includeJobs : Bool} {date : Instant} {id : String}
    (hlater : (setJobDefinitionState c t ⟨selection, includeJobs, some date⟩).run env s =
      (.ok (), s₁))
    (hid : env.ids.timer s.timerCount = id) (hnew : s.jobs.get? id = none) :
    ∃ timer : Job, timer.id = id ∧ timer.handlerType = t.handlerType ∧
      timer.dueDate = some date ∧
      s₁.definitions = s.definitions ∧ s₁.jobs = s.jobs.insert id timer ∧
      s₁.processInstances = s.processInstances ∧
      ∀ (x : TimerExecutor) (c' : CommandContext) (now retryAt : Instant) (limit : Nat),
        (∀ t, t ∈ x.handlers) → date ≤ now → 1 ≤ limit →
        now.add? x.retryWait = some retryAt →
        (∀ k j, s.jobs.get? k = some j → j.isAcquirableAt now = true →
          ∀ t : Transition, j.handlerType ≠ t.handlerType) →
        TimerExecutor.step env (x.acquire now limit) s₁ = (.ok [timer], s₁) ∧
        (∀ s', (setJobDefinitionState c' t ⟨selection, includeJobs, none⟩).run env' s =
            (.ok (), s') →
          ∃ s₂, x.runPass env c' now limit s₁ = (.ok ⟨1, 1, []⟩, s₂) ∧
            s₂.definitions = s'.definitions ∧ s₂.jobs = s'.jobs ∧
            s₂.processInstances = s'.processInstances ∧
            ∃ rows rows', s₂.log = s₁.log ++ rows ∧ s'.log = s.log ++ rows' ∧
              rows.map LogEntry.bare = rows'.map LogEntry.bare) ∧
        (∀ e s', (setJobDefinitionState c' t ⟨selection, includeJobs, none⟩).run env' s =
            (.error e, s') →
          ∃ s₂, x.runPass env c' now limit s₁ =
              (.ok ⟨1, 0, [⟨id, t.handlerType, 2, e.message, retryAt⟩]⟩, s₂) ∧
            s₂.definitions = s'.definitions ∧
            s₂.jobs = s'.jobs.insert id (timer.withFailure e.message retryAt) ∧
            s₂.processInstances = s'.processInstances ∧ s₂.log = s₁.log) := by
  obtain ⟨sel, hx, h⟩ := of_run_later c t henv hs rfl hlater
  have hv := (DefinitionSelection.find?_eq_some hx).2
  rw [hid] at h
  generalize hy : StateRequest.deferred _ id t sel date = y at h
  obtain rfl : y.id = id := hy ▸ rfl
  obtain rfl : y.transition = t := hy ▸ rfl
  obtain rfl : y.selector = sel := hy ▸ rfl
  obtain rfl : y.includeJobs = includeJobs := hy ▸ rfl
  obtain rfl : y.date = date := hy ▸ rfl
  refine ⟨y.timer, rfl, rfl, rfl, h.definitions, h.jobs, h.processInstances, ?_⟩
  intro x c' now retryAt limit hhandlers hdue hlimit hretry hidle
  have hacquire := h.acquire henv (hhandlers _) hdue hlimit hidle
  -- the request of the timer meets the same refusal as the one that was put off
  have hrefusal : y.request.refusal? s₁ c' =
      StateRequest.refusal? s c' ⟨selection, y.includeJobs, none⟩ :=
    StateRequest.refusal?_congr ((DefinitionSelector.find?_toSelection hv).trans hx.symm) rfl rfl
      h.definitions
  refine ⟨hacquire, fun s' hrun => ?_, fun e s' hrun => ?_⟩
  · cases hr : StateRequest.refusal? s c' ⟨selection, y.includeJobs, none⟩ with
    | some e =>
      rw [run_setJobDefinitionState_refused henv' hs c' _ hr] at hrun
      cases hrun
    | none =>
      obtain ⟨s'', hrun', hdone⟩ := y.run_request henv' hs c' hx hr
      rw [hrun] at hrun'
      cases hrun'
      obtain ⟨s₂, hpass, hdefs, hjobs, hinstances, rows, hlog, hrows⟩ :=
        h.runPass_executed hacquire henv (hhandlers _) hv hnew (hrefusal.trans hr)
      obtain ⟨rows', hlog', hrows'⟩ := hdone.log
      exact ⟨s₂, hpass, hdefs.trans hdone.definitions.symm, hjobs.trans hdone.jobs.symm,
        hinstances.trans hdone.processInstances.symm, rows, rows', hlog, hlog',
        hrows.trans hrows'.symm⟩
  · cases hr : StateRequest.refusal? s c' ⟨selection, y.includeJobs, none⟩ with
    | none =>
      obtain ⟨s'', hrun', -⟩ := y.run_request henv' hs c' hx hr
      rw [hrun] at hrun'
      cases hrun'
    | some e' =>
      rw [run_setJobDefinitionState_refused henv' hs c' _ hr] at hrun
      cases hrun
      exact h.runPass_failed hacquire henv (hhandlers _) (hrefusal.trans hr) hretry

/-- suspending one process definition by key, at a date -/
theorem deferred_refines_immediate_by_key :
    let env : Environment := { ids := ⟨fun _ => "timer", fun _ => "entry", fun _ => "operation"⟩ }
    let c : CommandContext := { actor := none, level := .full }
    let d : JobDefinition := ⟨"d", "order:1", "order", none, "message", .active⟩
    let s : Stores := Stores.putDefinition {} d
    let selection : DefinitionSelection := { processDefinitionKey := some "order" }
    env.Reliable ∧ s.WellKeyed ∧
      ∃ s₁ s₂, (setJobDefinitionState c .suspend ⟨selection, true, some .epoch⟩).run env s =
          (.ok (), s₁) ∧
        TimerExecutor.runPass ⟨Transition.all, ⟨1⟩⟩ env c .epoch 1 s₁ = (.ok ⟨1, 1, []⟩, s₂) ∧
        s₂.definitions.get? "d" = some { d with state := .suspended } := by
  intro env c d s selection
  have henv : env.Reliable := ⟨fun _ => rfl, rfl⟩
  have hs : s.WellKeyed := Stores.WellKeyed.empty.putDefinition d
  have hlater : (setJobDefinitionState c .suspend ⟨selection, true, some .epoch⟩).run env s =
      (.ok (), ((setJobDefinitionState c .suspend ⟨selection, true, some .epoch⟩).run env s).2) := rfl
  have hatonce : (setJobDefinitionState c .suspend ⟨selection, true, none⟩).run env s =
      (.ok (), ((setJobDefinitionState c .suspend ⟨selection, true, none⟩).run env s).2) := rfl
  obtain ⟨timer, -, -, -, -, -, -, hfire⟩ :=
    deferred_refines_immediate henv henv hs hlater rfl rfl
  obtain ⟨-, hexecuted, -⟩ := hfire ⟨Transition.all, ⟨1⟩⟩ c .epoch ⟨0, 1, by decide⟩ 1
    (fun t => by cases t <;> decide) (Instant.le_refl _) (Nat.le_refl 1) rfl
    (fun k j hj => by cases hj)
  obtain ⟨s₂, hpass, hdefs, -⟩ := hexecuted _ hatonce
  refine ⟨henv, hs, _, s₂, hlater, hpass, ?_⟩
  rw [hdefs]
  rfl

end JobSuspension
