import JobSuspension.Proofs.Submissions

/-!
# The history of the log

Rows are appended to the log and never touched again until they are removed.  So the log is what was
submitted, in the order of submission, without what was removed later; rows that come after a
removal are not affected by it.

* `LogCall`                    the nine ways to record an operation, with what each says;
* `LogCall.Group`              the rows of one call;
* `LogCall.Outcome`            nothing is recorded, or one group of rows;
* `LogStep`                    one thing that is done to an engine and concerns the log;
* `LogStep.submits`, `LogStep.removes`   what it adds to the log and what it takes away;
* `LogStep.log_run`, `LogStep.log_runAll`   the log after one step, and after several;
* `operation_log_history`      with what the steps and the calls submit.
-/

namespace JobSuspension

/-! ## recording an operation -/

inductive LogCall where
  | record (audit : AuditContext)
  | task (o : OperationType) (t : TaskRecord) (changes : List PropertyChange)
  | link (o : OperationType) (t : TaskRecord) (change : PropertyChange)
  | attachment (o : OperationType) (t : TaskRecord) (change : PropertyChange)
  | processInstance (operationId : Option String) (o : OperationType)
      (instanceId definitionId definitionKey : Option String) (change : PropertyChange)
  | processDefinition (o : OperationType) (definitionId definitionKey : Option String)
      (change : PropertyChange)
  | job (operationId : Option String) (o : OperationType) (x : JobSelection)
      (change : PropertyChange)
  | jobDefinition (o : OperationType) (x : DefinitionSelection) (change : PropertyChange)
  | jobRetries (o : OperationType) (x : JobSelection) (changes : List PropertyChange)

namespace LogCall

def command (c : CommandContext) : LogCall → Command (Option String)
  | record audit => Journal.record c audit
  | task o t changes => Journal.task c o t changes
  | link o t change => Journal.link c o t change
  | attachment o t change => Journal.attachment c o t change
  | processInstance operationId o instanceId definitionId definitionKey change =>
    Journal.processInstance c operationId o instanceId definitionId definitionKey change
  | processDefinition o definitionId definitionKey change =>
    Journal.processDefinition c o definitionId definitionKey change
  | job operationId o x change => Journal.job c operationId o x change
  | jobDefinition o x change => Journal.jobDefinition c o x change
  | jobRetries o x changes => Journal.jobRetries c o x changes

/-- the call belongs to a family and is not just recorded as it is -/
def isFamily : LogCall → Bool
  | record _ => false
  | _ => true

def operation : LogCall → OperationType
  | record audit => audit.operationType
  | task o _ _ => o
  | link o _ _ => o
  | attachment o _ _ => o
  | processInstance _ o _ _ _ _ => o
  | processDefinition o _ _ _ => o
  | job _ o _ _ => o
  | jobDefinition o _ _ => o
  | jobRetries o _ _ => o

/-- the id that the caller brought along -/
def operationId : LogCall → Option String
  | record audit => audit.operationId
  | processInstance operationId _ _ _ _ _ => operationId
  | job operationId _ _ _ => operationId
  | _ => none

/-- the changes that the caller named -/
def given : LogCall → List PropertyChange
  | record audit => audit.changes
  | task _ _ changes => changes
  | link _ _ change => [change]
  | attachment _ _ change => [change]
  | processInstance _ _ _ _ _ change => [change]
  | processDefinition _ _ _ change => [change]
  | job _ _ _ change => [change]
  | jobDefinition _ _ change => [change]
  | jobRetries _ _ changes => changes

/-- the changes that get a row each -/
def changes (l : LogCall) : List PropertyChange :=
  if l.isFamily then l.operation.changesOrEmpty l.given else l.given

theorem changes_ne_nil {l : LogCall} (hfamily : l.isFamily = true)
    (hcreate : l.operation = .create) : l.changes ≠ [] := by
  unfold changes OperationType.changesOrEmpty
  rw [if_pos hfamily, hcreate]
  cases l.given with
  | nil => exact List.cons_ne_nil _ _
  | cons change rest => exact List.cons_ne_nil _ _

/-- `a` says what the call says, whoever the owners turn out to be -/
structure Says (l : LogCall) (a : AuditContext) : Prop where
  operationType : a.operationType = l.operation
  operationId : a.operationId = l.operationId
  changes : a.changes = l.changes

end LogCall

/-! ## rows -/

def LogEntry.change (e : LogEntry) : PropertyChange := ⟨e.property, e.orgValue, e.newValue⟩

/-- the rows of one call, under one operation id -/
structure LogCall.Group (l : LogCall) (c : CommandContext) (id : String) (rows : List LogEntry) :
    Prop where
  operationId : ∀ row ∈ rows, row.operationId = id
  userId : ∀ row ∈ rows, row.userId = c.userId
  operationType : ∀ row ∈ rows, row.operationType = l.operation
  /-- one row for each change, in their order -/
  changes : rows.map LogEntry.change = l.changes
  /-- even if the caller brought along an empty id -/
  given : ∀ o, l.operationId = some o → id = o
  created : l.isFamily = true → l.operation = .create → rows ≠ []

theorem AuditContext.map_change_entries (a : AuditContext) (c : CommandContext) (id : String)
    (ids : Nat → String) : (a.entries c id ids).map LogEntry.change = a.changes := by
  unfold entries
  rw [List.map_map]
  exact List.zipIdx_map_fst _ _

theorem LogCall.Says.group {l : LogCall} {a : AuditContext} (h : l.Says a) (c : CommandContext)
    {s : Stores} {ids : IdSupply} :
    l.Group c (s.produce ids c a).operationId (s.produce ids c a).entries := by
  have hentries {row : LogEntry} (hrow : row ∈ (s.produce ids c a).entries) :
      ∃ change entryId, row = a.entry c (s.produce ids c a).operationId entryId change := by
    obtain ⟨⟨change, n⟩, -, rfl⟩ := List.mem_map.mp hrow
    exact ⟨change, _, rfl⟩
  have hchanges : (s.produce ids c a).entries.map LogEntry.change = l.changes :=
    (a.map_change_entries c _ fun n => ids.entry (s.entryCount + n)).trans h.changes
  refine ⟨?_, ?_, ?_, hchanges, ?_, ?_⟩
  · intro row hrow
    obtain ⟨change, entryId, rfl⟩ := hentries hrow
    rfl
  · intro row hrow
    obtain ⟨change, entryId, rfl⟩ := hentries hrow
    rfl
  · intro row hrow
    obtain ⟨change, entryId, rfl⟩ := hentries hrow
    exact h.operationType
  · intro o ho
    show a.operationId.getD _ = o
    rw [h.operationId, ho, Option.getD_some]
  · intro hfamily hcreate hnil
    rw [hnil] at hchanges
    exact LogCall.changes_ne_nil hfamily hcreate hchanges.symm

/-! ## the ends of a call -/

theorem Journal.asks_processInstance (c : CommandContext) (operationId : Option String)
    (o : OperationType) (instanceId definitionId definitionKey : Option String)
    (change : PropertyChange) :
    (Journal.processInstance c operationId o instanceId definitionId definitionKey change).Asks
      Call.KeepsLog := by
  have hrecord (a : AuditContext) : (record c a).Asks Call.KeepsLog :=
    (asks_record c a).mono fun _ h => h.ofChange.keepsLog
  unfold processInstance whenDetailed
  split
  · split
    · refine Command.Asks.bind ?_ fun p => hrecord _
      exact (Command.asks_call trivial).bind fun p => by cases p <;> trivial
    · exact hrecord _
  · trivial

namespace LogCall

theorem asks_command (l : LogCall) (c : CommandContext) : (l.command c).Asks Call.KeepsLog := by
  have hjournal {p : Command (Option String)} (h : p.Asks Call.OfJournal) :
      p.Asks Call.KeepsLog := h.mono fun _ h => h.ofChange.keepsLog
  cases l with
  | processInstance => exact Journal.asks_processInstance ..
  | job => exact hjournal (Journal.asks_job ..)
  | jobDefinition => exact hjournal (Journal.asks_jobDefinition ..)
  | _ => exact hjournal (Journal.asks_record ..)

/-- a call is recorded under full auditing only -/
theorem run_of_bare (l : LogCall) {c : CommandContext} (hc : c.isDetailed = false)
    (env : Environment) (s : Stores) : (l.command c).run env s = (.ok none, s) := by
  have hnothing (p : Command (Option String)) : Journal.whenDetailed c p = return none := by
    rw [Journal.whenDetailed, hc]
    rfl
  cases l <;>
    simp only [command, Journal.task, Journal.link, Journal.attachment, Journal.processInstance,
      Journal.processDefinition, Journal.job, Journal.jobDefinition, Journal.jobRetries,
      Journal.record, hnothing, Command.run_pure]

/-- a call fails before anything is recorded, or its rows are recorded as a whole -/
theorem run_cases (l : LogCall) (env : Environment) (c : CommandContext) (s : Stores) :
    (∃ e, (l.command c).run env s = (.error e, s)) ∨
      ∃ a, l.Says a ∧
        (l.command c).run env s = (.ok (s.recordedId env.ids c a), s.recorded env.ids c a) := by
  have hsays {a : AuditContext} (ha : l.Says a)
      (h : (∃ e, (l.command c).run env s = (.error e, s)) ∨
        (l.command c).run env s = (.ok (s.recordedId env.ids c a), s.recorded env.ids c a)) :
      (∃ e, (l.command c).run env s = (.error e, s)) ∨
        ∃ a, l.Says a ∧
          (l.command c).run env s = (.ok (s.recordedId env.ids c a), s.recorded env.ids c a) :=
    h.imp_right fun h => ⟨a, ha, h⟩
  cases l with
  | record audit => exact hsays ⟨rfl, rfl, rfl⟩ (Journal.run_record_cases env s c _)
  | task o t changes => exact hsays ⟨rfl, rfl, rfl⟩ (Journal.run_record_cases env s c _)
  | link o t change => exact hsays ⟨rfl, rfl, rfl⟩ (Journal.run_record_cases env s c _)
  | attachment o t change => exact hsays ⟨rfl, rfl, rfl⟩ (Journal.run_record_cases env s c _)
  | processInstance operationId o instanceId definitionId definitionKey change =>
    rcases Journal.run_processInstance_cases env s c operationId o instanceId definitionId
      definitionKey change with h | ⟨i, d, k, h⟩
    · exact .inl h
    · exact hsays ⟨rfl, rfl, rfl⟩ (.inr h)
  | processDefinition o definitionId definitionKey change =>
    exact hsays ⟨rfl, rfl, rfl⟩ (Journal.run_record_cases env s c _)
  | job operationId o x change =>
    exact hsays ⟨rfl, rfl, rfl⟩ (Journal.run_job_cases env s c operationId o x change)
  | jobDefinition o x change =>
    exact hsays ⟨rfl, rfl, rfl⟩ (Journal.run_jobDefinition_cases env s c o x change)
  | jobRetries o x changes => exact hsays ⟨rfl, rfl, rfl⟩ (Journal.run_record_cases env s c _)

/-- what a call comes to, with the rows it submits -/
inductive Outcome (l : LogCall) (c : CommandContext) (s : Stores) (rows : List LogEntry) :
    Except EngineError (Option String) × Stores → Prop where
  /-- without full auditing -/
  | skipped (hlevel : c.level ≠ .full) (hrows : rows = []) : Outcome l c s rows (.ok none, s)
  | refused (hlevel : c.level = .full) (hrows : rows = []) (e : EngineError) :
      Outcome l c s rows (.error e, s)
  | recorded (hlevel : c.level = .full) {id : String} (hrows : l.Group c id rows) {s' : Stores}
      (hlog : s'.log = s.log ++ rows) : Outcome l c s rows (.ok (some id), s')

theorem outcome {env : Environment} (henv : env.Reliable) (l : LogCall) (c : CommandContext)
    (s : Stores) :
    l.Outcome c s ((l.command c).submitted env s) ((l.command c).run env s) := by
  have hasks := l.asks_command c
  cases hc : c.isDetailed with
  | false =>
    have hrun := l.run_of_bare hc env s
    have hrows : (l.command c).submitted env s = [] :=
      Command.submitted_eq henv hasks (by rw [hrun, List.append_nil])
    rw [hrun, hrows]
    refine .skipped ?_ rfl
    rw [Ne, ← CommandContext.isDetailed_eq_true, hc]
    exact Bool.false_ne_true
  | true =>
    have hlevel := CommandContext.isDetailed_eq_true.mp hc
    rcases l.run_cases env c s with ⟨e, hrun⟩ | ⟨a, ha, hrun⟩
    · have hrows : (l.command c).submitted env s = [] :=
        Command.submitted_eq henv hasks (by rw [hrun, List.append_nil])
      rw [hrun, hrows]
      exact .refused hlevel rfl e
    · have hid : s.recordedId env.ids c a = some (s.produce env.ids c a).operationId := if_pos hc
      have hlog : (s.recorded env.ids c a).log = s.log ++ (s.produce env.ids c a).entries := by
        rw [Stores.recorded_log, Stores.rows, if_pos hc]
      have hrows : (l.command c).submitted env s = (s.produce env.ids c a).entries :=
        Command.submitted_eq henv hasks (by rw [hrun, hlog])
      rw [hrun, hrows, hid]
      exact .recorded hlevel (ha.group c) hlog

end LogCall

/-! ## steps -/

inductive LogStep where
  | log (c : CommandContext) (l : LogCall)
  | definitions (c : CommandContext) (t : Transition) (request : StateRequest)
  | jobs (c : CommandContext) (t : Transition) (selection : JobSelection)
      (operationId : Option String)
  | pass (x : TimerExecutor) (c : CommandContext) (now : Instant) (limit : Nat)
  | delete (c : CommandContext) (id : String)
  | deleteBy (scope : DeleteScope)

namespace LogStep

def run (env : Environment) : LogStep → Stores → Stores
  | log c l, s => ((l.command c).run env s).2
  | definitions c t request, s => ((setJobDefinitionState c t request).run env s).2
  | jobs c t selection operationId, s => ((setJobState c t selection operationId).run env s).2
  | pass x c now limit, s => (x.runPass env c now limit s).2
  | delete c id, s => ((Journal.delete c id).run env s).2
  | deleteBy scope, s => ((Journal.deleteBy scope).run env s).2

def runAll (env : Environment) (steps : List LogStep) (s : Stores) : Stores :=
  steps.foldl (fun s e => e.run env s) s

/-- the rows a step hands to the log, in their order -/
def submits (env : Environment) : LogStep → Stores → List LogEntry
  | log c l, s => (l.command c).submitted env s
  | definitions c t request, s => (setJobDefinitionState c t request).submitted env s
  | jobs c t selection operationId, s => (setJobState c t selection operationId).submitted env s
  | pass x c now limit, s => (x.passAttempts env c now limit s).flatMap (x.submitted env c)
  | delete c id, s => (Journal.delete c id).submitted env s
  | deleteBy scope, s => (Journal.deleteBy scope).submitted env s

/-- the rows a step removes if they are in the log; single rows need full auditing -/
def removes : LogStep → LogEntry → Bool
  | delete c id, row => c.level == .full && row.entryId == id
  | deleteBy scope, row => scope.matchesSelection row.selection
  | _, _ => false

/-- the level a step runs at, if it has one -/
def level? : LogStep → Option AuditingLevel
  | log c _ => some c.level
  | definitions c _ _ => some c.level
  | jobs c _ _ _ => some c.level
  | pass _ c _ _ => some c.level
  | delete c _ => some c.level
  | deleteBy _ => none

/-- the rows that outlast all the steps -/
def survivors (steps : List LogStep) (rows : List LogEntry) : List LogEntry :=
  rows.filter fun row => steps.all fun e => !e.removes row

/-- what the steps submit, in their order, without what later steps remove -/
def history (env : Environment) : List LogStep → Stores → List LogEntry
  | [], _ => []
  | e :: steps, s => survivors steps (e.submits env s) ++ history env steps (e.run env s)

theorem survivors_append (steps : List LogStep) (rows rows' : List LogEntry) :
    survivors steps (rows ++ rows') = survivors steps rows ++ survivors steps rows' :=
  List.filter_append ..

theorem survivors_cons (e : LogStep) (steps : List LogStep) (rows : List LogEntry) :
    survivors (e :: steps) rows = survivors steps (rows.filter fun row => !e.removes row) := by
  unfold survivors
  rw [List.filter_filter]
  congr 1
  funext row
  rw [List.all_cons, Bool.and_comm]

variable {env : Environment}

/-- a step that writes removes nothing -/
theorem filter_not_removes {e : LogStep} (he : ∀ row, e.removes row = false)
    (rows : List LogEntry) : (rows.filter fun row => !e.removes row) = rows := by
  simp [he]

theorem submitted_delete (c : CommandContext) (id : String) (s : Stores) :
    (Journal.delete c id).submitted env s = [] := by
  refine Command.submitted_eq_nil ?_ s
  unfold Journal.delete
  split
  · have hcall : (Command.call (.deleteEntry id)).Asks fun c => c.rows = [] :=
      Command.asks_call rfl
    refine hcall.bind fun found => ?_
    split <;> trivial
  · trivial

variable (henv : env.Reliable)
include henv

theorem log_delete (c : CommandContext) (id : String) (s : Stores) :
    ((Journal.delete c id).run env s).2.log =
      s.log.filter fun row => !(delete c id).removes row := by
  unfold Journal.delete
  split
  · next hc =>
    have hlevel : c.level = .full := CommandContext.isDetailed_eq_true.mp hc
    have hkept : (LogEntry.removeId id s.log).1 =
        s.log.filter fun row => !(delete c id).removes row := by
      refine List.filter_congr fun row _ => ?_
      rw [removes, hlevel]
      rfl
    rw [Command.run_bind, Command.run_call henv, ← hkept]
    simp only [Call.perform]
    split <;> rfl
  · next hc =>
    have hlevel : (c.level == .full) = false := by
      rw [beq_eq_false_iff_ne, Ne, ← CommandContext.isDetailed_eq_true]
      exact hc
    refine (filter_not_removes (fun row => ?_) s.log).symm
    rw [removes, hlevel, Bool.false_and]

/-- a step takes the rows it removes out of the log and appends the rows it submits -/
theorem log_run (e : LogStep) (s : Stores) :
    (e.run env s).log = (s.log.filter fun row => !e.removes row) ++ e.submits env s := by
  cases e with
  | log c l =>
    rw [filter_not_removes fun _ => rfl]
    exact Command.log_run henv (l.asks_command c) s
  | definitions c t request =>
    rw [filter_not_removes fun _ => rfl]
    exact Command.log_run henv (asks_setJobDefinitionState (fun _ h => h.keepsLog) c t
      fun _ _ => trivial) s
  | jobs c t selection operationId =>
    rw [filter_not_removes fun _ => rfl]
    exact Command.log_run henv ((asks_setJobState c t selection operationId).mono
      fun _ h => h.keepsLog) s
  | pass x c now limit =>
    rw [filter_not_removes fun _ => rfl]
    exact x.log_runPass henv c now limit s
  | delete c id =>
    rw [submits, submitted_delete, List.append_nil]
    exact log_delete henv c id s
  | deleteBy scope =>
    have hnothing : (Journal.deleteBy scope).submitted env s = [] :=
      Command.submitted_eq_nil (Command.asks_call rfl) s
    rw [submits, hnothing, List.append_nil, run, Journal.deleteBy, Command.run_call henv]
    rfl

theorem log_runAll (steps : List LogStep) (s : Stores) :
    (runAll env steps s).log = survivors steps s.log ++ history env steps s := by
  induction steps generalizing s with
  | nil =>
    rw [history, List.append_nil]
    exact (List.filter_eq_self.mpr fun _ _ => rfl).symm
  | cons e steps ih =>
    show (runAll env steps (e.run env s)).log = _
    rw [ih, log_run henv, survivors_append, survivors_cons, history, List.append_assoc]

/-- without full auditing a step leaves the log alone, unless it removes what an owner left -/
theorem idle (e : LogStep) {level : AuditingLevel} (he : e.level? = some level)
    (hlevel : level ≠ .full) (s : Stores) :
    e.submits env s = [] ∧ ∀ row, e.removes row = false := by
  have hbare {c : CommandContext} (h : some c.level = some level) : c.isDetailed = false := by
    obtain rfl := Option.some.inj h
    rw [← Bool.not_eq_true, CommandContext.isDetailed_eq_true]
    exact hlevel
  cases e with
  | log c l =>
    refine ⟨?_, fun _ => rfl⟩
    have hout := l.outcome henv c s
    show (l.command c).submitted env s = []
    generalize (l.command c).run env s = result at hout
    obtain rfl := Option.some.inj he
    cases hout with
    | skipped _ hrows => exact hrows
    | refused hfull => exact absurd hfull hlevel
    | recorded hfull => exact absurd hfull hlevel
  | definitions c t request =>
    exact ⟨submitted_setJobDefinitionState henv (hbare he) t request s, fun _ => rfl⟩
  | jobs c t selection operationId =>
    exact ⟨submitted_setJobState henv (hbare he) t selection operationId s, fun _ => rfl⟩
  | pass x c now limit =>
    refine ⟨List.flatMap_eq_nil_iff.mpr fun a _ => ?_, fun _ => rfl⟩
    unfold TimerExecutor.submitted
    split
    · next t _ => exact submitted_handleTimer henv (hbare he) t a.timer a.before
    · rfl
  | delete c id =>
    refine ⟨submitted_delete c id s, fun row => ?_⟩
    obtain rfl := Option.some.inj he
    rw [removes, beq_eq_false_iff_ne.mpr hlevel, Bool.false_and]
  | deleteBy scope => cases he

end LogStep

/-- **The history of the operation log.**  However calls that record operations, changes of states,
passes and removals follow one another, the log is what they submitted, in the order of submission,
without what was removed afterwards.  Without full auditing a step submits and removes nothing,
unless it removes what an owner left behind.  A call that records an operation submits nothing, or
one group of rows that share the operation id of its answer: a row for each change, in their order,
on behalf of the actor. -/
theorem operation_log_history {env : Environment} (henv : env.Reliable) :
    (∀ (steps : List LogStep) (s : Stores), (LogStep.runAll env steps s).log =
      LogStep.survivors steps s.log ++ LogStep.history env steps s) ∧
    (∀ (e : LogStep) (level : AuditingLevel) (s : Stores), e.level? = some level → level ≠ .full →
      e.submits env s = [] ∧ ∀ row, e.removes row = false) ∧
    ∀ (l : LogCall) (c : CommandContext) (s : Stores),
      l.Outcome c s ((LogStep.log c l).submits env s) ((l.command c).run env s) := by
  refine ⟨LogStep.log_runAll henv, fun e level s he hlevel => ?_, fun l c s => ?_⟩
  · exact LogStep.idle henv e he hlevel s
  · exact l.outcome henv c s

/-- a task that is created without a change leaves a row, until the rows of the task are removed;
what the caller calls by the empty id stays, and so does what is recorded later -/
theorem operation_log_history_removed :
    let env : Environment := { ids := ⟨fun _ => "timer", fun n => n.repr, fun n => "op" ++ n.repr⟩ }
    let c : CommandContext := { actor := some ⟨"admin"⟩, level := .full }
    let quiet : CommandContext := { actor := some ⟨"admin"⟩, level := .audit }
    let t : TaskRecord := { id := "t" }
    let steps : List LogStep :=
      [.log c (.task .create t []), .log quiet (.task .update t [.set "owner" "a"]),
        .log c (.job (some "") .suspendJob { jobDefinitionId := none } (.set "state" "b")),
        .log c (.job none .suspendJob { jobId := some "missing" } (.set "state" "b")),
        .delete quiet "1", .deleteBy (.task "t"),
        .log c (.task .update t [.set "owner" "a", .set "name" "b"])]
    env.Reliable ∧ (LogStep.runAll env steps {}).log = LogStep.history env steps {} ∧
      (LogStep.runAll env steps {}).log.map (fun row => (row.entryId, row.operationId)) =
        [("1", ""), ("2", "op1"), ("3", "op1")] := by
  intro env c quiet t steps
  have henv : env.Reliable := ⟨fun _ => rfl, rfl⟩
  have hlog := (operation_log_history henv).1 steps {}
  refine ⟨henv, hlog, ?_⟩
  simp +zetaDelta only
  decide +kernel

end JobSuspension
