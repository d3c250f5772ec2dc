import JobSuspension.Proofs.Indifference

/-!
# Clocks

The clock is read for the rows of the log and for nothing else.  Two engines that do the same at
different times keep the same records, give out the same ids, and write the same rows but for their
dates.

* `CommandContext.dated c d`       the caller `c` at the time `d`;
* `LogEntry.undated e`             a row without its date;
* `Stores.SameButDates s s'`       the stores differ at most in the dates of their rows;
* `TimerExecutor.carries_dated`    whatever the clock says, a pass does the same.
-/

namespace JobSuspension

def CommandContext.dated (c : CommandContext) (d : Instant) : CommandContext :=
  { c with recordedAt := d }

def LogEntry.undated (e : LogEntry) : LogEntry := { e with timestamp := .epoch }

structure Stores.SameButDates (s s' : Stores) : Prop extends s.SameRecords s' where
  entryCount : s'.entryCount = s.entryCount
  operationCount : s'.operationCount = s.operationCount
  log : s'.log.map LogEntry.undated = s.log.map LogEntry.undated

theorem AuditContext.undated_entries (a : AuditContext) (c : CommandContext) (d : Instant)
    (id : String) (ids : Nat → String) :
    (a.entries (c.dated d) id ids).map LogEntry.undated =
      (a.entries c id ids).map LogEntry.undated := by
  unfold entries
  rw [List.map_map, List.map_map]
  rfl

namespace Stores.SameButDates

variable {s s' s'' : Stores}

theorem refl (s : Stores) : s.SameButDates s := ⟨.refl s, rfl, rfl, rfl⟩

theorem symm (h : s.SameButDates s') : s'.SameButDates s :=
  ⟨h.toSameRecords.symm, h.entryCount.symm, h.operationCount.symm, h.log.symm⟩

theorem trans (h : s.SameButDates s') (h' : s'.SameButDates s'') : s.SameButDates s'' :=
  ⟨h.toSameRecords.trans h'.toSameRecords, h'.entryCount.trans h.entryCount,
    h'.operationCount.trans h.operationCount, h'.log.trans h.log⟩

variable (h : s.SameButDates s')
include h

/-! ## writing records -/

theorem setDefinitions (p : JobDefinition → Bool) (state : SuspensionState) :
    (s.setDefinitions p state).SameButDates (s'.setDefinitions p state) where
  definitions :=
    congrArg (Table.map · fun d => if p d then d.withState state else d) h.definitions
  jobs := h.jobs
  processInstances := h.processInstances
  timerCount := h.timerCount
  entryCount := h.entryCount
  operationCount := h.operationCount
  log := h.log

theorem setJobs (p : Job → Bool) (state : SuspensionState) :
    (s.setJobs p state).SameButDates (s'.setJobs p state) :=
  ⟨h.toSameRecords.setJobs p state, h.entryCount, h.operationCount, h.log⟩

theorem setStartTimers (x : DefinitionSelector) (state : SuspensionState) :
    (s.setStartTimers x state).SameButDates (s'.setStartTimers x state) := by
  unfold Stores.setStartTimers
  cases x.processDefinition? with
  | none => exact h
  | some p => exact h.setJobs p.startsFrom state

/-! ## writing rows -/

variable (ids : IdSupply) (c : CommandContext) (d d' : Instant)

theorem recordedId (a : AuditContext) :
    s.recordedId ids (c.dated d) a = s'.recordedId ids (c.dated d') a := by
  unfold Stores.recordedId
  show (if c.isDetailed then some (a.operationId.getD _) else none) =
    if c.isDetailed then some (a.operationId.getD _) else none
  rw [h.operationCount]

theorem recorded (a : AuditContext) :
    (s.recorded ids (c.dated d) a).SameButDates (s'.recorded ids (c.dated d') a) := by
  have hlength (s : Stores) (d : Instant) :
      (s.produce ids (c.dated d) a).entries.length = a.changes.length := by
    simp only [Stores.produce, AuditContext.length_entries]
  have hentries : (s'.produce ids (c.dated d') a).entries.map LogEntry.undated =
      (s.produce ids (c.dated d) a).entries.map LogEntry.undated := by
    unfold Stores.produce
    rw [AuditContext.undated_entries, AuditContext.undated_entries, h.entryCount,
      h.operationCount]
  unfold Stores.recorded
  show (if c.isDetailed then _ else _ : Stores).SameButDates (if c.isDetailed then _ else _)
  by_cases hc : c.isDetailed = true
  · rw [if_pos hc, if_pos hc]
    refine ⟨⟨h.definitions, h.jobs, h.processInstances, h.timerCount⟩, ?_, ?_, ?_⟩
    · show s'.entryCount + _ = s.entryCount + _
      rw [h.entryCount, hlength, hlength]
    · show (if a.operationId.isNone then s'.operationCount + 1 else s'.operationCount) =
        if a.operationId.isNone then s.operationCount + 1 else s.operationCount
      rw [h.operationCount]
    · show (s'.log ++ _).map _ = (s.log ++ _).map _
      rw [List.map_append, List.map_append, h.log, hentries]
  · rw [if_neg hc, if_neg hc]
    exact h

omit ids c d d' in
theorem audit (t : Transition) (x : DefinitionSelection) : x.audit s t = x.audit s' t := by
  unfold DefinitionSelection.audit DefinitionSelection.withOwners
  rw [h.definitions]

omit ids c d d' in
theorem withOwners (x : JobSelection) : x.withOwners s = x.withOwners s' := by
  unfold JobSelection.withOwners
  rw [h.definitions, h.jobs]

theorem applied (t : Transition) (x : DefinitionSelector) (b : Bool) (o : Option String) :
    (s.applied ids (c.dated d) t x b o).SameButDates (s'.applied ids (c.dated d') t x b o) := by
  have hchanged := (h.setDefinitions x.selects t.target).setStartTimers x t.target
  cases b with
  | false => exact hchanged
  | true =>
    unfold Stores.applied
    simp only [if_true, hchanged.withOwners]
    exact (hchanged.recorded ids c d d' _).setJobs x.jobSelector.selects t.target

end Stores.SameButDates

/-! ## handlers -/

/-- **The clock does not matter to timers.** -/
theorem TimerExecutor.carries_dated {env : Environment} (henv : env.Reliable) (c : CommandContext)
    (d d' : Instant) : Carries env (c.dated d) (c.dated d') Stores.SameButDates where
  records := fun h => h.toSameRecords
  withJobs := fun _ h =>
    ⟨⟨h.definitions, rfl, h.processInstances, h.timerCount⟩, h.entryCount, h.operationCount, h.log⟩
  handles := by
    intro s s' hs h t timer
    refine ends_handleTimer _ _ h t timer fun r hd => ?_
    refine ends_setJobDefinitionState henv hs h.toSameRecords _ _ h t hd fun sel => ?_
    rw [h.audit t, h.recordedId env.ids c d d']
    exact (h.recorded env.ids c d d' _).applied env.ids c d d' t sel r.includeJobs _

end JobSuspension
