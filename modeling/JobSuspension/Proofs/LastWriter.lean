import JobSuspension.Proofs.StateChanges

/-!
# The last writer wins

What a run of state changes leaves behind can be read off its history: the state of a record is the
one the last successful call that names the record was made for, and nothing else moves.  Which
records a call names is written out here once more, identifier by identifier; a record that lacks
an identifier is never named by it.

* `StateCall`                    a change of job definitions or of jobs, made at once, by anyone;
* `StateCall.namesDefinition x d`, `StateCall.namesJob x j`   the records it is about;
* `StateCall.runAll env calls`   makes the calls, one after the other, whatever becomes of each;
* `StateCall.succeeded env calls s`   the calls that went through, in order;
* `last_writer_wins`             the states after a run.
-/

namespace JobSuspension

/-! ## calls -/

inductive StateCall where
  | definitions (c : CommandContext) (t : Transition) (selection : DefinitionSelection)
      (includeJobs : Bool)
  | jobs (c : CommandContext) (t : Transition) (selection : JobSelection)
      (operationId : Option String)

/-- the identifier that counts, on a job definition -/
def DefinitionSelection.names (x : DefinitionSelection) (d : JobDefinition) : Bool :=
  match Text.present? x.jobDefinitionId, Text.present? x.processDefinitionId,
    Text.present? x.processDefinitionKey with
  | some v, _, _ => d.id = v
  | none, some v, _ => d.processDefinitionId = v
  | none, none, some v => d.processDefinitionKey = v
  | none, none, none => false

/-- the identifier that counts, on a job: one of the jobs that were asked for, or one that starts
instances of the process definition -/
def DefinitionSelection.namesJob (x : DefinitionSelection) (includeJobs : Bool) (j : Job) : Bool :=
  match Text.present? x.jobDefinitionId, Text.present? x.processDefinitionId,
    Text.present? x.processDefinitionKey with
  | some v, _, _ => includeJobs ∧ j.jobDefinitionId = some v
  | none, some v, _ =>
    (includeJobs ∧ j.processDefinitionId = some v) ∨
      (j.handlerType = "timer-start-event" ∧ j.processDefinitionId = some v)
  | none, none, some v =>
    (includeJobs ∧ j.processDefinitionKey = some v) ∨
      (j.handlerType = "timer-start-event" ∧ j.processDefinitionKey = some v)
  | none, none, none => false

def JobSelection.names (x : JobSelection) (j : Job) : Bool :=
  match Text.present? x.jobId, Text.present? x.jobDefinitionId, Text.present? x.processInstanceId,
    Text.present? x.processDefinitionId, Text.present? x.processDefinitionKey with
  | some v, _, _, _, _ => j.id = v
  | none, some v, _, _, _ => j.jobDefinitionId = some v
  | none, none, some v, _, _ => j.processInstanceId = some v
  | none, none, none, some v, _ => j.processDefinitionId = some v
  | none, none, none, none, some v => j.processDefinitionKey = some v
  | none, none, none, none, none => false

theorem DefinitionSelection.names_eq (x : DefinitionSelection) (d : JobDefinition) :
    x.names d = x.find?.any (·.selects d) := by
  rw [find?_eq]
  unfold names
  cases Text.present? x.jobDefinitionId <;> cases Text.present? x.processDefinitionId <;>
    cases Text.present? x.processDefinitionKey <;> rfl

theorem DefinitionSelection.namesJob_eq (x : DefinitionSelection) (includeJobs : Bool) (j : Job) :
    x.namesJob includeJobs j = x.find?.any (·.reaches includeJobs j) := by
  rw [find?_eq, Bool.eq_iff_iff]
  unfold namesJob
  cases Text.present? x.jobDefinitionId <;> cases Text.present? x.processDefinitionId <;>
    cases Text.present? x.processDefinitionKey <;>
    simp [DefinitionSelector.reaches, DefinitionSelector.processDefinition?,
      DefinitionSelector.jobSelector, DefinitionKey.jobKey, JobSelector.selects, Job.get,
      ProcessDefinitionSelector.startsFrom, ProcessDefinitionSelector.owns, Job.isStartTimer,
      Job.startTimerType, or_comm]

theorem JobSelection.names_eq (x : JobSelection) (j : Job) :
    x.names j = x.find?.any (·.selects j) := by
  rw [find?_eq, Bool.eq_iff_iff]
  unfold names
  cases Text.present? x.jobId <;> cases Text.present? x.jobDefinitionId <;>
    cases Text.present? x.processInstanceId <;> cases Text.present? x.processDefinitionId <;>
    cases Text.present? x.processDefinitionKey <;>
    simp [JobSelector.selects, Job.get]

namespace StateCall

def command : StateCall → Command Unit
  | definitions c t selection includeJobs =>
    setJobDefinitionState c t { selection := selection, includeJobs := includeJobs }
  | jobs c t selection operationId => setJobState c t selection operationId

/-- the state the call is made for -/
def state : StateCall → SuspensionState
  | definitions _ t _ _ => t.target
  | jobs _ t _ _ => t.target

def namesDefinition : StateCall → JobDefinition → Bool
  | definitions _ _ selection _, d => selection.names d
  | jobs _ _ _ _, _ => false

def namesJob : StateCall → Job → Bool
  | definitions _ _ selection includeJobs, j => selection.namesJob includeJobs j
  | jobs _ _ selection _, j => selection.names j

/-! ## runs -/

/-- the outcomes of the calls, and the stores after the last of them -/
def runAll (env : Environment) (calls : List StateCall) (s : Stores) :
    List (Except EngineError Unit) × Stores :=
  Command.runAll env (calls.map command) s

def succeeded (env : Environment) (calls : List StateCall) (s : Stores) : List StateCall :=
  ((calls.zip (runAll env calls s).1).filter fun x => x.2.isOk).map (·.1)

/-- the state of the last of the calls, if there is one -/
def lastState (calls : List StateCall) (initial : SuspensionState) : SuspensionState :=
  (calls.getLast?.map state).getD initial

/-- a call that counts settles the state, until a later one does -/
theorem lastState_filter_cons (p : StateCall → Bool) (x : StateCall) (calls : List StateCall)
    (initial : SuspensionState) :
    lastState ((x :: calls).filter p) initial =
      lastState (calls.filter p) (if p x then x.state else initial) := by
  by_cases h : p x = true
  · rw [List.filter_cons_of_pos h, if_pos h]
    simp only [lastState, List.getLast?_cons, Option.map_some, Option.getD_some]
    cases (calls.filter p).getLast? <;> rfl
  · rw [List.filter_cons_of_neg h, if_neg h]

variable {env : Environment}

theorem succeeded_cons (x : StateCall) (calls : List StateCall) (s : Stores) :
    succeeded env (x :: calls) s =
      match x.command.run env s with
      | (.ok _, s') => x :: succeeded env calls s'
      | (.error _, s') => succeeded env calls s' := by
  unfold succeeded
  cases h : x.command.run env s with
  | mk outcome s' =>
    simp only [runAll, List.map_cons, Command.runAll, h, List.zip_cons_cons]
    cases outcome <;> simp [Except.isOk, Except.toBool]

/-! ## one call -/

theorem namesDefinition_withState (x : StateCall) (d : JobDefinition) (state : SuspensionState) :
    x.namesDefinition (d.withState state) = x.namesDefinition d := by
  cases x <;> rfl

theorem namesJob_withState (x : StateCall) (j : Job) (state : SuspensionState) :
    x.namesJob (j.withState state) = x.namesJob j := by
  cases x <;> rfl

theorem run_step (henv : env.Reliable) {s : Stores} (hs : s.WellKeyed) (x : StateCall) :
    StateStep s x.state x.namesDefinition x.namesJob (x.command.run env s) := by
  cases x with
  | definitions c t selection includeJobs =>
    rw [show (definitions c t selection includeJobs).namesDefinition = _ from
        funext fun d => selection.names_eq d,
      show (definitions c t selection includeJobs).namesJob = _ from
        funext fun j => selection.namesJob_eq includeJobs j]
    exact setJobDefinitionState_step henv hs c t (r := ⟨selection, includeJobs, none⟩) rfl
  | jobs c t selection operationId =>
    rw [show (jobs c t selection operationId).namesJob = _ from
      funext fun j => selection.names_eq j]
    exact setJobState_step henv hs c t selection operationId

/-! ## the last writer -/

def writtenDefinition (calls : List StateCall) (d : JobDefinition) : JobDefinition :=
  d.withState (lastState (calls.filter (·.namesDefinition d)) d.state)

def writtenJob (calls : List StateCall) (j : Job) : Job :=
  j.withState (lastState (calls.filter (·.namesJob j)) j.state)

theorem writtenDefinition_cons (x : StateCall) (calls : List StateCall) (d : JobDefinition) :
    writtenDefinition (x :: calls) d =
      writtenDefinition calls (if x.namesDefinition d then d.withState x.state else d) := by
  unfold writtenDefinition
  rw [lastState_filter_cons]
  by_cases h : x.namesDefinition d = true
  · simp only [h, if_true, namesDefinition_withState]
    rfl
  · simp only [h]
    rfl

theorem writtenJob_cons (x : StateCall) (calls : List StateCall) (j : Job) :
    writtenJob (x :: calls) j =
      writtenJob calls (if x.namesJob j then j.withState x.state else j) := by
  unfold writtenJob
  rw [lastState_filter_cons]
  by_cases h : x.namesJob j = true
  · simp only [h, if_true, namesJob_withState]
    rfl
  · simp only [h]
    rfl

theorem changed_runAll (henv : env.Reliable) (calls : List StateCall) {s : Stores}
    (hs : s.WellKeyed) :
    s.Changed (writtenDefinition (succeeded env calls s)) (writtenJob (succeeded env calls s))
      (runAll env calls s).2 := by
  induction calls generalizing s with
  | nil => exact .refl hs (fun _ => rfl) (fun _ => rfl)
  | cons x calls ih =>
    rw [succeeded_cons, runAll, List.map_cons, Command.runAll]
    have hstep := run_step henv hs x
    cases h : x.command.run env s with
    | mk outcome s' =>
      rw [h] at hstep
      cases outcome with
      | error e =>
        obtain rfl := hstep.eq_of_error
        exact ih hs
      | ok _ =>
        -- the first call writes before the others do
        have hfirst := hstep.changed_of_ok
        have hrest := hfirst.trans (ih hfirst.wellKeyed)
        rw [show writtenDefinition (x :: succeeded env calls s') = _ from
            funext (writtenDefinition_cons x _),
          show writtenJob (x :: succeeded env calls s') = _ from funext (writtenJob_cons x _)]
        exact hrest

end StateCall

open StateCall in
/-- **The last writer wins**, and nothing else moves: after any run of state changes, a job
definition or a job is as it was at the start, but for the state of the last successful call that
names it; process instances are as they were. -/
theorem last_writer_wins {env : Environment} (henv : env.Reliable) {s : Stores} (hs : s.WellKeyed)
    (calls : List StateCall) :
    (∀ id, (runAll env calls s).2.definitions.get? id = (s.definitions.get? id).map fun d =>
      { d with state := lastState ((succeeded env calls s).filter (·.namesDefinition d)) d.state }) ∧
    (∀ id, (runAll env calls s).2.jobs.get? id = (s.jobs.get? id).map fun j =>
      { j with state := lastState ((succeeded env calls s).filter (·.namesJob j)) j.state }) ∧
    (runAll env calls s).2.processInstances = s.processInstances := by
  have h := changed_runAll henv calls hs
  refine ⟨fun id => ?_, fun id => ?_, h.processInstances⟩
  · rw [h.definitions, Table.get?_map]
    rfl
  · rw [h.jobs, Table.get?_map]
    rfl

/-- suspending a process definition by key and then activating the timer that starts its instances -/
theorem last_writer_wins_start_timer :
    let env : Environment := { ids := ⟨fun _ => "timer", fun _ => "entry", fun _ => "operation"⟩ }
    let c : CommandContext := { actor := none, level := .activity }
    let d : JobDefinition := ⟨"d", "order:1", "order", none, "message", .active⟩
    let j : Job :=
      { id := "j", processDefinitionKey := some "order", handlerType := "timer-start-event" }
    let s : Stores := (Stores.putDefinition {} d).putJob j
    let calls : List StateCall :=
      [.definitions c .suspend { processDefinitionKey := some "order" } false,
        .jobs c .activate { jobId := some "j" } none]
    env.Reliable ∧ s.WellKeyed ∧
      (StateCall.runAll env calls s).2.definitions.get? "d" = some { d with state := .suspended } ∧
      (StateCall.runAll env calls s).2.jobs.get? "j" = some j := by
  intro env c d j s calls
  have henv : env.Reliable := ⟨fun _ => rfl, rfl⟩
  have hs : s.WellKeyed := (Stores.WellKeyed.empty.putDefinition d).putJob j
  obtain ⟨hdefs, hjobs, -⟩ := last_writer_wins henv hs calls
  have hdone : StateCall.succeeded env calls s = calls := rfl
  refine ⟨henv, hs, ?_, ?_⟩
  · rw [hdefs, hdone]
    rfl
  · rw [hjobs, hdone]
    rfl

end JobSuspension
