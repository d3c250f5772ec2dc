import JobSuspension.Proofs.Outcomes

/-!
# The rows of a state change

Under full auditing a change of job definitions leaves one row, and its jobs, if they change with
them, leave another that shares the id of the operation.  What the rows say the change was about is
not what the caller wrote: blank identifiers are left out, the owners of a single job definition are
those on record, and the row of the jobs names nothing but the identifier that counted.

* `LogEntry.Records e c t entity o about`   the row of a change of states;
* `DefinitionSelection.Subjects s x about aboutJobs`   what the two rows of a change are about;
* `ChangeOutcome.log_eq`, `ChangeOutcome.exists_rows`   the log below full auditing and under it;
* `state_change_audit_trail`                the rows of a change that goes through.
-/

namespace JobSuspension

/-! ## rows -/

structure LogEntry.Records (e : LogEntry) (c : CommandContext) (t : Transition)
    (entity : EntityType) (o : OperationType) (about : AuditSelection) : Prop where
  entityType : e.entityType = entity
  operationType : e.operationType = o
  userId : e.userId = c.userId
  timestamp : e.timestamp = c.recordedAt
  selection : e.selection = about
  property : e.property = some "suspensionState"
  orgValue : e.orgValue = none
  newValue : e.newValue = some t.target.name

theorem CommandContext.isDetailed_eq_true {c : CommandContext} :
    c.isDetailed = true ↔ c.level = .full := by
  obtain ⟨actor, level, recordedAt⟩ := c
  cases level <;> simp [isDetailed, AuditingLevel.isDetailed]

section
variable (s : Stores) (ids : IdSupply) {c : CommandContext} (a : AuditContext)

/-- a change of states is one changed property, which makes one row -/
theorem Stores.exists_row (hc : c.isDetailed = true) {t : Transition}
    (ha : a.changes = [t.change]) : ∃ row : LogEntry, s.rows ids c a = [row] ∧
      row.Records c t a.entityType a.operationType a.selection ∧
      row.operationId = a.operationId.getD (ids.operation s.operationCount) := by
  have hrows : s.rows ids c a = [a.entry c (a.operationId.getD (ids.operation s.operationCount))
      (ids.entry s.entryCount) t.change] := by
    unfold rows
    rw [if_pos hc]
    unfold produce AuditContext.entries
    rw [ha]
    rfl
  exact ⟨_, hrows, ⟨rfl, rfl, rfl, rfl, rfl, rfl, rfl, rfl⟩, rfl⟩

theorem Stores.rows_eq_nil (hc : c.isDetailed = false) : s.rows ids c a = [] := by
  unfold rows
  rw [hc]
  rfl

end

/-! ## subjects -/

inductive DefinitionSelection.Subjects (s : Stores) (x : DefinitionSelection) :
    AuditSelection → AuditSelection → Prop where
  | jobDefinition {id : String} {d : JobDefinition}
      (hid : Text.present? x.jobDefinitionId = some id) (hd : s.definitions.get? id = some d) :
      Subjects s x
        { jobDefinitionId := some id
          processDefinitionId := some d.processDefinitionId
          processDefinitionKey := some d.processDefinitionKey }
        { jobDefinitionId := some id
          processDefinitionId := some d.processDefinitionId
          processDefinitionKey := some d.processDefinitionKey }
  | processDefinitionId {id : String} (hnone : Text.present? x.jobDefinitionId = none)
      (hid : Text.present? x.processDefinitionId = some id) :
      Subjects s x
        { processDefinitionId := some id
          processDefinitionKey := Text.present? x.processDefinitionKey }
        { processDefinitionId := some id }
  | processDefinitionKey {key : String} (hnone : Text.present? x.jobDefinitionId = none)
      (hid : Text.present? x.processDefinitionId = none)
      (hkey : Text.present? x.processDefinitionKey = some key) :
      Subjects s x { processDefinitionKey := some key } { processDefinitionKey := some key }

section
variable {s s' : Stores} {x : DefinitionSelection} {sel : DefinitionSelector}

/-- the jobs are looked up after the job definitions have changed, but only their states have -/
theorem DefinitionSelection.subjects_of_find? (hx : x.find? = some sel) (hfound : sel.FoundIn s)
    (hs' : ∀ id d, s.definitions.get? id = some d →
      ∃ state, s'.definitions.get? id = some (d.withState state)) :
    x.Subjects s (x.normalized.withOwners s).toAudit
      (sel.toSelection.toJobSelection.withOwners s').toAudit := by
  rw [find?_eq] at hx
  cases hid : Text.present? x.jobDefinitionId with
  | some id =>
    rw [hid] at hx
    cases hx
    obtain ⟨d, hd⟩ := Option.ne_none_iff_exists'.mp (hfound rfl)
    obtain ⟨state, hd'⟩ := hs' id d hd
    have hrow := Subjects.jobDefinition hid hd
    simp only [withOwners, normalized, toAudit, DefinitionSelector.toSelection, toJobSelection,
      JobSelection.withOwners, JobSelection.toAudit, hid, Option.bind_some, hd, hd']
    exact hrow
  | none =>
    rw [hid] at hx
    have habout : (x.normalized.withOwners s).toAudit =
        { processDefinitionId := Text.present? x.processDefinitionId
          processDefinitionKey := Text.present? x.processDefinitionKey } := by
      simp only [withOwners, normalized, toAudit, hid, Option.bind_none]
    rw [habout]
    cases hpid : Text.present? x.processDefinitionId with
    | some id =>
      rw [hpid] at hx
      cases hx
      exact .processDefinitionId hid hpid
    | none =>
      rw [hpid] at hx
      cases hkey : Text.present? x.processDefinitionKey with
      | some key =>
        rw [hkey] at hx
        cases hx
        exact .processDefinitionKey hid hpid hkey
      | none =>
        rw [hkey] at hx
        cases hx

end

/-- a change of job definitions keeps all of them -/
theorem Stores.get?_definitions_of_setDefinitions {s : Stores} (sel : DefinitionSelector)
    (state : SuspensionState) {id : String} {d : JobDefinition}
    (h : s.definitions.get? id = some d) :
    ∃ state', ((s.setDefinitions sel.selects state).setStartTimers sel state).definitions.get? id =
      some (d.withState state') := by
  rw [setStartTimers_definitions, setDefinitions, Table.get?_map, h, Option.map_some]
  by_cases hselects : sel.selects d = true
  · exact ⟨state, by rw [if_pos hselects]⟩
  · exact ⟨d.state, by rw [if_neg hselects]; rfl⟩

/-! ## the trail -/

namespace ChangeOutcome

variable {s s' : Stores} {ids : IdSupply} {c : CommandContext} {t : Transition} {r : StateRequest}

theorem log_eq {result : Except EngineError Unit × Stores} (h : ChangeOutcome s ids c t r result)
    (hc : c.isDetailed = false) : result.2.log = s.log := by
  cases h with
  | refused e => rfl
  | missed e => rw [Stores.recorded_log, Stores.rows_eq_nil _ _ _ hc, List.append_nil]
  | changed =>
    rw [Stores.applied_log, Stores.recorded_log]
    simp only [Stores.rows_eq_nil _ _ _ hc, ite_self, List.append_nil]
  | scheduled =>
    refine (Stores.recorded_log _ _ _ _).trans ?_
    rw [Stores.rows_eq_nil _ _ _ hc, List.append_nil]

theorem exists_rows (h : ChangeOutcome s ids c t r (.ok (), s')) (hc : c.isDetailed = true) :
    ∃ about aboutJobs row, r.selection.Subjects s about aboutJobs ∧
      row.Records c t .jobDefinition t.operation about ∧
      row.operationId = ids.operation s.operationCount ∧
      if r.executionDate = none ∧ r.includeJobs = true then
        ∃ jobRow, s'.log = s.log ++ [row, jobRow] ∧ jobRow.operationId = row.operationId ∧
          jobRow.Records c t .job t.jobOperation aboutJobs
      else s'.log = s.log ++ [row] := by
  obtain ⟨row, hrows, hrow, hid⟩ := s.exists_row ids (r.selection.audit s t) hc rfl
  cases h with
  | @changed sel hx hd hfound =>
    rw [Stores.applied_log, Stores.recorded_log, hrows]
    generalize hs₁ : Stores.setStartTimers _ sel t.target = s₁
    have hkept : ∀ id d, s.definitions.get? id = some d →
        ∃ state, s₁.definitions.get? id = some (d.withState state) := fun id d h =>
      hs₁ ▸ Stores.get?_definitions_of_setDefinitions sel t.target
        (by rw [Stores.recorded_definitions, h])
    refine ⟨_, _, row, DefinitionSelection.subjects_of_find? hx (hfound hc) hkept, hrow, hid, ?_⟩
    cases r.includeJobs with
    | false =>
      rw [if_neg fun h => Bool.false_ne_true h.2, if_neg Bool.false_ne_true, List.append_nil]
    | true =>
      -- the id of the operation was given out for the first row and is brought along
      have hshared : s.recordedId ids c (r.selection.audit s t) =
          some (ids.operation s.operationCount) := if_pos hc
      obtain ⟨jobRow, hjobRows, hjobRow, hjobId⟩ := s₁.exists_row ids
        (.ofJob (s.recordedId ids c (r.selection.audit s t)) t.jobOperation
          (sel.toSelection.toJobSelection.withOwners s₁) t.change) hc rfl
      rw [if_pos ⟨hd, rfl⟩, if_pos rfl, hjobRows, List.append_assoc]
      refine ⟨jobRow, rfl, ?_, hjobRow⟩
      rw [hjobId, hid, hshared]
      rfl
  | @scheduled sel date hx hd hfound =>
    have hsubjects := DefinitionSelection.subjects_of_find? hx (hfound hc)
      fun id d (h : s.definitions.get? id = some d) => ⟨d.state, h⟩
    refine ⟨_, _, row, hsubjects, hrow, hid, ?_⟩
    have hdate : ¬ (r.executionDate = none ∧ r.includeJobs = true) := by
      rintro ⟨h, -⟩
      rw [hd] at h
      cases h
    rw [if_neg hdate, ← hrows]
    exact Stores.recorded_log s ids c _

end ChangeOutcome

/-- **The rows of a change of job definitions that goes through.**  Without full auditing there are
none.  With it there is one for the job definitions, and exactly if their jobs change along with
them there is another one for the jobs, under the same operation id; each says what was about to
change, to what state, and on whose behalf. -/
theorem state_change_audit_trail {env : Environment} (henv : env.Reliable) {s s' : Stores}
    {c : CommandContext} {t : Transition} {r : StateRequest}
    (hrun : (setJobDefinitionState c t r).run env s = (.ok (), s')) :
    (c.level ≠ .full → s'.log = s.log) ∧
      (c.level = .full → ∃ about aboutJobs row, r.selection.Subjects s about aboutJobs ∧
        row.Records c t .jobDefinition t.operation about ∧
        row.operationId = env.ids.operation s.operationCount ∧
        if r.executionDate = none ∧ r.includeJobs = true then
          ∃ jobRow, s'.log = s.log ++ [row, jobRow] ∧ jobRow.operationId = row.operationId ∧
            jobRow.Records c t .job t.jobOperation aboutJobs
        else s'.log = s.log ++ [row]) := by
  have hout := setJobDefinitionState_outcome henv s c t r
  rw [hrun] at hout
  rw [← CommandContext.isDetailed_eq_true, Ne, ← CommandContext.isDetailed_eq_true,
    Bool.not_eq_true]
  exact ⟨hout.log_eq, hout.exists_rows⟩

/-- the key of the caller is not that of the job definition: the rows have the one on record -/
theorem state_change_audit_trail_owner :
    let env : Environment := { ids := ⟨fun _ => "timer", fun _ => "entry", fun _ => "operation"⟩ }
    let c : CommandContext := { actor := some ⟨"admin"⟩, level := .full }
    let d : JobDefinition := ⟨"d", "order:1", "order", none, "message", .active⟩
    let s : Stores := Stores.putDefinition {} d
    let r : StateRequest :=
      { selection := { jobDefinitionId := some "d", processDefinitionKey := some "invoice" }
        includeJobs := true }
    let owned : AuditSelection :=
      { jobDefinitionId := some "d"
        processDefinitionId := some "order:1"
        processDefinitionKey := some "order" }
    env.Reliable ∧ ∃ s' row jobRow, (setJobDefinitionState c .suspend r).run env s = (.ok (), s') ∧
      s'.log = [row, jobRow] ∧ jobRow.operationId = row.operationId ∧
      row.Records c .suspend .jobDefinition .suspendJobDefinition owned ∧
      jobRow.Records c .suspend .job .suspendJob owned := by
  intro env c d s r owned
  have henv : env.Reliable := ⟨fun _ => rfl, rfl⟩
  obtain ⟨s', hrun⟩ : ∃ s', (setJobDefinitionState c .suspend r).run env s = (.ok (), s') :=
    ⟨_, rfl⟩
  obtain ⟨about, aboutJobs, row, hsubjects, hrow, -, hrest⟩ :=
    (state_change_audit_trail henv hrun).2 rfl
  rw [if_pos ⟨rfl, rfl⟩] at hrest
  obtain ⟨jobRow, hlog, hid, hjobRow⟩ := hrest
  have hpresent : Text.present? r.selection.jobDefinitionId = some "d" := by decide
  cases hsubjects with
  | @jobDefinition id d' hid' hd =>
    rw [hpresent] at hid'
    cases hid'
    cases hd
    exact ⟨henv, s', row, jobRow, hrun, hlog, hid, hrow, hjobRow⟩
  | processDefinitionId hnone => rw [hpresent] at hnone; cases hnone
  | processDefinitionKey hnone => rw [hpresent] at hnone; cases hnone

end JobSuspension
