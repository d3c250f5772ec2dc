import JobSuspension.Proofs.AuditTrail
import JobSuspension.Proofs.Calls
import JobSuspension.Proofs.Stages

/-!
# A call that fails ends its command

No command knows how to go on without an answer.  So a command makes the calls that it would make if
nothing failed, up to the first one that fails, and ends there with the error of that call; what the
calls before it did stays done.

* `Environment.repaired env`      the same environment with every call in order;
* `Command.afterCalls env cs s`   the stores once the calls `cs` have been made;
* `Command.EndsAtFault env p s`   the calls of `p` with and without what fails in `env`;
* `Command.endsAtFault`           commands that do not prune the log end so;
* `StateRequest.LeavesInOrder`, `JobSelection.LeavesInOrder`
                                  what such an end cannot leave behind;
* `failing_call_ends_command`     the two commands that change states.
-/

namespace JobSuspension

/-! ## without failures -/

def Environment.repaired (env : Environment) : Environment := { env with fault := fun _ => none }

theorem Call.perform_repaired (env : Environment) (s : Stores) (c : Call) :
    c.perform env.repaired s = c.perform env s := by
  cases c <;> rfl

theorem Call.answer_repaired (env : Environment) (s : Stores) (c : Call) :
    c.answer env.repaired s = c.perform env s := perform_repaired env s c

/-- a call of a kind that is in order -/
theorem Call.answer_of_fault {env : Environment} {c : Call} (h : env.fault c.kind = none)
    (s : Stores) : c.answer env s = c.answer env.repaired s := by
  rw [answer_repaired, answer, h]

/-! ## calls -/

namespace Call

/-- the rows that a call adds to the log -/
def rows : Call → List LogEntry
  | recordEntries x => x.entries
  | _ => []

/-- the call removes nothing from the log -/
def KeepsLog : Call → Prop
  | deleteEntry _ => False
  | deleteEntriesBy _ => False
  | _ => True

theorem OfChange.keepsLog {c : Call} (h : c.OfChange) : c.KeepsLog := by
  cases c <;> trivial

theorem OfCascade.keepsLog {c : Call} (h : c.OfCascade) : c.KeepsLog := h.ofChange.keepsLog

theorem log_eq {env : Environment} {s s' : Stores} {c : Call} (hc : c.KeepsLog) {r : c.Reply}
    (h : c.perform env s = .ok (r, s')) : s'.log = s.log ++ c.rows := by
  cases c with
  | deleteEntry id => exact hc.elim
  | deleteEntriesBy scope => exact hc.elim
  | recordEntries x => cases h; rfl
  | updateDefinitions x state =>
    simp only [perform] at h
    cases hupdate : s.updateDefinitions x state with
    | error e => rw [hupdate] at h; cases h
    | ok _ =>
      rw [hupdate] at h
      cases h
      rw [Stores.eq_of_updateDefinitions hupdate]
      exact (List.append_nil _).symm
  | updateJobs x state =>
    simp only [perform] at h
    cases hupdate : s.updateJobs x state with
    | error e => rw [hupdate] at h; cases h
    | ok _ =>
      rw [hupdate] at h
      cases h
      rw [Stores.eq_of_updateJobs hupdate]
      exact (List.append_nil _).symm
  | saveJob j =>
    simp only [perform] at h
    cases hvalidate : j.validate with
    | error e => rw [hvalidate] at h; cases h
    | ok _ => rw [hvalidate] at h; cases h; exact (List.append_nil _).symm
  | deleteJob id =>
    simp only [perform] at h
    split at h
    · cases h; exact (List.append_nil _).symm
    · cases h
  | recordJobFailure id message retryAt =>
    simp only [perform] at h
    split at h
    · cases h; exact (List.append_nil _).symm
    · cases h
  | _ => cases h; exact (List.append_nil _).symm

end Call

namespace Command

variable {α : Type}

def afterCalls (env : Environment) (cs : List Call) (s : Stores) : Stores :=
  cs.foldl (fun s c => ((call c).run env s).2) s

/-- the calls that `p` makes if nothing fails, and what becomes of `p` if some of them do -/
inductive EndsAtFault (env : Environment) (p : Command α) (s : Stores) : Prop where
  | spared (h : ∀ q ∈ p.calls env.repaired s, env.fault q.1.kind = none)
      (hrun : p.run env s = p.run env.repaired s)
  | stopped {before after : List (Call × Stores)} {c : Call} {s' : Stores} {e : EngineError}
      (hcalls : p.calls env.repaired s = before ++ (c, s') :: after)
      (hbefore : ∀ q ∈ before, env.fault q.1.kind = none) (hfault : env.fault c.kind = some e)
      (hrun : p.run env s = (.error e, s'))
      (hs' : s' = afterCalls env.repaired (before.map Prod.fst) s)
      (hlog : s'.log = s.log ++ before.flatMap (·.1.rows))

theorem endsAtFault (env : Environment) {p : Command α} (hp : p.Asks Call.KeepsLog) (s : Stores) :
    p.EndsAtFault env s := by
  induction p generalizing s with
  | done a => exact .spared (fun q hq => absurd hq List.not_mem_nil) rfl
  | fail e => exact .spared (fun q hq => absurd hq List.not_mem_nil) rfl
  | next c k ih =>
    cases hfault : env.fault c.kind with
    | some e =>
      obtain ⟨after, hcalls⟩ : ∃ after,
          (next c k).calls env.repaired s = [] ++ (c, s) :: after := by
        unfold calls
        split
        · exact ⟨_, rfl⟩
        · exact ⟨[], rfl⟩
      refine .stopped hcalls (fun q hq => absurd hq List.not_mem_nil) hfault ?_ rfl
        (List.append_nil _).symm
      rw [run_next, Call.answer, hfault]
    | none =>
      have hanswer := Call.answer_of_fault hfault s
      cases h : c.answer env.repaired s with
      | error e =>
        have hcalls : (next c k).calls env.repaired s = [(c, s)] := by
          unfold calls
          rw [h]
        refine .spared ?_ (by rw [run_next, run_next, hanswer, h])
        rw [hcalls]
        exact fun q hq => List.mem_singleton.mp hq ▸ hfault
      | ok answer =>
        obtain ⟨r, s'⟩ := answer
        have hcalls : (next c k).calls env.repaired s =
            (c, s) :: (k r).calls env.repaired s' := by
          rw [calls, h]
        have hrun : (next c k).run env s = (k r).run env s' := by
          rw [run_next, hanswer, h]
        have hafter : ((call c).run env.repaired s).2 = s' := by
          rw [call, run_next, h]
          rfl
        cases ih r (hp.2 r) s' with
        | spared hall hk =>
          refine .spared ?_ (by rw [hrun, hk, run_next, h])
          rw [hcalls]
          exact List.forall_mem_cons.mpr ⟨hfault, hall⟩
        | @stopped before after c' s'' e hk hbefore hfault' hrun' hs' hlog =>
          have hcalls' : (next c k).calls env.repaired s =
              ((c, s) :: before) ++ (c', s'') :: after := by
            rw [hcalls, hk]
            rfl
          refine .stopped hcalls' (List.forall_mem_cons.mpr ⟨hfault, hbefore⟩) hfault'
            (hrun.trans hrun') ?_ ?_
          · rw [List.map_cons, afterCalls, List.foldl_cons, hafter]
            exact hs'
          · rw [Call.answer_repaired] at h
            rw [hlog, Call.log_eq hp.1 h, List.flatMap_cons, List.append_assoc]

end Command

/-! ## what is left behind -/

/-- a change of job definitions, however far it got -/
structure StateRequest.LeavesInOrder (r : StateRequest) (ids : IdSupply) (c : CommandContext)
    (t : Transition) (s s' : Stores) : Prop where
  /-- nothing moves before its row is in the log -/
  recordedFirst : c.level = .full → (s'.definitions = s.definitions ∧ s'.jobs = s.jobs) ∨
    ∃ row, row.entityType = .jobDefinition ∧ s.log ++ [row] <+: s'.log
  /-- a job that is reached as one of the selected job definitions' moves last -/
  cascadedLast : r.executionDate = none → ∀ sel, r.selection.find? = some sel →
    ∀ k j j', s.jobs.get? k = some j → s'.jobs.get? k = some j' → j'.state ≠ j.state →
      sel.reaches false j = false →
      s'.definitions = (s.setDefinitions sel.selects t.target).definitions ∧
        (c.level = .full → ∃ row jobRow, s'.log = s.log ++ [row, jobRow] ∧
          row.entityType = .jobDefinition ∧ jobRow.entityType = .job)
  /-- a change that is left to a timer moves nothing, and stores only the timer -/
  deferred : r.executionDate ≠ none → s'.definitions = s.definitions ∧
    ∀ k, k ≠ ids.timer s.timerCount → s'.jobs.get? k = s.jobs.get? k

/-- a change of jobs, however far it got -/
structure JobSelection.LeavesInOrder (c : CommandContext) (s s' : Stores) : Prop where
  definitions : s'.definitions = s.definitions
  recordedFirst : c.level = .full → s'.jobs = s.jobs ∨
    ∃ row, row.entityType = .job ∧ s'.log = s.log ++ [row]

/-- the row of a change -/
theorem Stores.exists_recorded {s : Stores} (ids : IdSupply) {c : CommandContext}
    (hc : c.level = .full) {t : Transition} (a : AuditContext) (ha : a.changes = [t.change]) :
    ∃ row, row.entityType = a.entityType ∧ (s.recorded ids c a).log = s.log ++ [row] := by
  obtain ⟨row, hrows, hrow, -⟩ :=
    s.exists_row ids a (CommandContext.isDetailed_eq_true.mpr hc) ha
  exact ⟨row, hrow.entityType, by rw [recorded_log, hrows]⟩

/-- the second row of a change of job definitions that takes their jobs along -/
theorem Stores.exists_applied_log (s : Stores) (ids : IdSupply) {c : CommandContext}
    (hc : c.level = .full) {t : Transition} (x : DefinitionSelector) (o : Option String) :
    ∃ row, row.entityType = .job ∧ (s.applied ids c t x true o).log = s.log ++ [row] := by
  rw [applied_log]
  generalize (s.setDefinitions x.selects t.target).setStartTimers x t.target = s₁
  obtain ⟨row, hrows, hrow, -⟩ := s₁.exists_row ids
    (.ofJob o t.jobOperation (x.toSelection.toJobSelection.withOwners s₁) t.change)
    (CommandContext.isDetailed_eq_true.mpr hc) rfl
  exact ⟨row, hrow.entityType, by rw [if_pos rfl, hrows]⟩

section
variable {s : Stores} {ids : IdSupply} {c : CommandContext} {t : Transition}
  {result : Except EngineError Unit × Stores}

theorem JobChangeStage.leavesInOrder {x : JobSelection} {o : Option String}
    (h : JobChangeStage s ids c t x o result) : JobSelection.LeavesInOrder c s result.2 := by
  cases h with
  | untouched e => exact ⟨rfl, fun _ => .inl rfl⟩
  | recorded e =>
    exact ⟨Stores.recorded_definitions _ _ _ _, fun _ => .inl (Stores.recorded_jobs _ _ _ _)⟩
  | changed hx =>
    refine ⟨Stores.recorded_definitions _ _ _ _, fun hc => .inr ?_⟩
    exact s.exists_recorded ids hc (x.audit s t o) rfl

namespace ApplyStage

variable {x : DefinitionSelector} {b : Bool} {o : Option String}

theorem log_prefix (h : ApplyStage s ids c t x b o result) : s.log <+: result.2.log := by
  have happlied (b : Bool) : s.log <+: (s.applied ids c t x b o).log := by
    rw [Stores.applied_log]
    exact List.prefix_append _ _
  cases h with
  | untouched e => exact List.prefix_refl _
  | definitions e => exact List.prefix_refl _
  | startTimers e => exact happlied false
  | jobsRecorded e hb =>
    rw [Stores.recorded_log]
    exact (happlied false).trans (List.prefix_append _ _)
  | changed => exact happlied b

/-- unless everything was done, no job has moved but the start timers -/
theorem jobs_cases (h : ApplyStage s ids c t x b o result) :
    result.2 = s.applied ids c t x true o ∨
      ∀ k j, s.jobs.get? k = some j → x.reaches false j = false →
        result.2.jobs.get? k = some j := by
  have hstart k j (hj : s.jobs.get? k = some j) (hx : x.reaches false j = false) :
      (s.applied ids c t x false o).jobs.get? k = some j := by
    rw [Stores.applied_jobs, Table.get?_map, hj, Option.map_some, hx]
    rfl
  cases h with
  | untouched e => exact .inr fun k j hj _ => hj
  | definitions e => exact .inr fun k j hj _ => hj
  | startTimers e => exact .inr hstart
  | jobsRecorded e hb =>
    refine .inr fun k j hj hx => ?_
    rw [Stores.recorded_jobs]
    exact hstart k j hj hx
  | changed =>
    cases b with
    | false => exact .inr hstart
    | true => exact .inl rfl

end ApplyStage

theorem ChangeStage.leavesInOrder {r : StateRequest} (h : ChangeStage s ids c t r result) :
    r.LeavesInOrder ids c t s result.2 := by
  -- the row of the job definitions stays in whatever log comes later
  have hrow {s' : Stores} (hs' : (s.recorded ids c (r.selection.audit s t)).log <+: s'.log)
      (hc : c.level = .full) : ∃ row : LogEntry, row.entityType = .jobDefinition ∧
        s.log ++ [row] <+: s'.log := by
    obtain ⟨row, hentity, hlog⟩ := s.exists_recorded ids hc (r.selection.audit s t) rfl
    exact ⟨row, hentity, hlog ▸ hs'⟩
  -- a job has moved
  have hmoved {k : String} {j j' : Job} {jobs : Table Job} (hj : jobs.get? k = some j)
      (hj' : jobs.get? k = some j') (hstate : j'.state ≠ j.state) : False :=
    hstate (congrArg Job.state (Option.some.inj (hj'.symm.trans hj)))
  cases h with
  | untouched e =>
    exact ⟨fun _ => .inl ⟨rfl, rfl⟩,
      fun _ _ _ k j j' hj hj' hstate _ => (hmoved hj hj' hstate).elim,
      fun _ => ⟨rfl, fun _ _ => rfl⟩⟩
  | recorded e =>
    have hjobs := Stores.recorded_jobs s ids c (r.selection.audit s t)
    refine ⟨fun hc => .inr (hrow (List.prefix_refl _) hc), ?_, fun _ => ⟨?_, fun k _ => ?_⟩⟩
    · intro _ _ _ k j j' hj hj' hstate _
      exact (hmoved hj (hjobs ▸ hj') hstate).elim
    · exact Stores.recorded_definitions _ _ _ _
    · exact congrArg (·.get? k) hjobs
  | scheduled hx hd =>
    refine ⟨fun hc => .inr (hrow (List.prefix_refl _) hc), fun hd' => ?_, fun _ => ⟨?_, ?_⟩⟩
    · cases hd.symm.trans hd'
    · exact Stores.recorded_definitions _ _ _ _
    · intro k hk
      show (Table.insert _ _ _).get? k = _
      rw [Table.get?_insert, Stores.recorded_jobs]
      exact if_neg (Ne.symm hk)
  | @applied sel hx hd _ happly =>
    refine ⟨fun hc => .inr (hrow happly.log_prefix hc), ?_, fun hd' => (hd' hd).elim⟩
    intro _ sel' hsel k j j' hj hj' hstate hreach
    obtain rfl := Option.some.inj (hx.symm.trans hsel)
    have hjobs := Stores.recorded_jobs s ids c (r.selection.audit s t)
    rcases happly.jobs_cases with hall | hsame
    · rw [hall, Stores.applied_definitions, Stores.recorded_definitions]
      refine ⟨rfl, fun hc => ?_⟩
      obtain ⟨row, hentity, hlog⟩ := s.exists_recorded ids hc (r.selection.audit s t) rfl
      obtain ⟨jobRow, hjobEntity, hjobLog⟩ :=
        (s.recorded ids c (r.selection.audit s t)).exists_applied_log ids hc sel _
      exact ⟨row, jobRow, by rw [hjobLog, hlog, List.append_assoc]; rfl, hentity, hjobEntity⟩
    · exact (hmoved (hsame k j (hjobs ▸ hj) hreach) hj' hstate).elim

end

/-- **A failing call ends its command.**  A change of states makes the calls that it would make if
nothing failed, up to the first that fails.  It ends there with the error of that call, and the
stores are as the calls before it left them.  So a row that was recorded stays, nothing changes
without its row, and the jobs of selected job definitions change only after these have. -/
theorem failing_call_ends_command (env : Environment) (s : Stores) (c : CommandContext)
    (t : Transition) :
    (∀ r : StateRequest, (setJobDefinitionState c t r).EndsAtFault env s ∧
      r.LeavesInOrder env.ids c t s ((setJobDefinitionState c t r).run env s).2) ∧
    ∀ (x : JobSelection) (operationId : Option String),
      (setJobState c t x operationId).EndsAtFault env s ∧
        JobSelection.LeavesInOrder c s ((setJobState c t x operationId).run env s).2 := by
  refine ⟨fun r => ⟨?_, ?_⟩, fun x operationId => ⟨?_, ?_⟩⟩
  · refine Command.endsAtFault env (asks_setJobDefinitionState ?_ c t ?_) s
    · exact fun _ h => h.keepsLog
    · exact fun _ _ => trivial
  · exact (setJobDefinitionState_stage env s c t r).leavesInOrder
  · refine Command.endsAtFault env ((asks_setJobState c t x operationId).mono ?_) s
    exact fun _ h => h.keepsLog
  · exact (setJobState_stage env s c t x operationId).leavesInOrder

/-- the jobs cannot be updated any more: both rows stay, and the job definition is suspended -/
example :
    let env : Environment :=
      { ids := ⟨fun _ => "timer", fun n => n.repr, fun _ => "operation"⟩
        fault := fun k => if k = .updateJobs then some .zeroBatch else none }
    let d : JobDefinition := ⟨"d", "order:1", "order", none, "message", .active⟩
    let j : Job := { id := "j", handlerType := "message", jobDefinitionId := some "d" }
    let s : Stores := (Stores.putDefinition {} d).putJob j
    let run := (setJobDefinitionState { actor := none, level := .full } .suspend
      { selection := { jobDefinitionId := some "d" }, includeJobs := true }).run env s
    run.1 = .error .zeroBatch ∧ run.2.log.map LogEntry.entityType = [.jobDefinition, .job] ∧
      (run.2.definitions.get? "d").map JobDefinition.state = some .suspended ∧
      (run.2.jobs.get? "j").map Job.state = some .active :=
  ⟨rfl, rfl, rfl, rfl⟩

end JobSuspension
