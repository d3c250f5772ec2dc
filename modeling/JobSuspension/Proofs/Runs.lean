import JobSuspension.Proofs.Attempts
import JobSuspension.Proofs.Calls
import JobSuspension.Proofs.Outcomes
import JobSuspension.Seed

/-!
# Runs of an engine

State changes, timer passes and whatever else is asked of the stores follow one another in any
order.  What a single call keeps is kept all along, since commands and passes do nothing to the
stores but make calls.

* `Call.Effect env s c s'`       what a call can do to the records;
* `Environment.Keeps env R`      `R` leads from the stores before a call to those after it;
* `Keeps.run`, `Keeps.runPass`   then it does so for a command, and for a pass;
* `EngineStep`                   one thing that is done to an engine;
* `EngineStep.Names id e`        `e` saves, deletes or fails the job `id` by its id;
* `PassRecord`                   what a pass acquired and executed, and its report;
* `EngineStep.runAll env steps`  the records of the passes of a run, and the stores after it.
-/

namespace JobSuspension

/-! ## what calls do -/

/-- what a call that is answered can do to the records -/
inductive Call.Effect (env : Environment) (s : Stores) : Call → Stores → Prop where
  | none {c : Call} {s' : Stores} (h : s.SameRecords s') : Effect env s c s'
  | saveJobDefinition (d : JobDefinition) :
      Effect env s (.saveJobDefinition d) (s.putDefinition d)
  | updateDefinitions (selector : DefinitionSelector) (state : SuspensionState) :
      Effect env s (.updateDefinitions selector state) (s.setDefinitions selector.selects state)
  | saveJob (j : Job) : Effect env s (.saveJob j) (s.putJob j)
  | updateStartTimers (selector : ProcessDefinitionSelector) (state : SuspensionState) :
      Effect env s (.updateStartTimers selector state) (s.setJobs selector.startsFrom state)
  | updateJobs (selector : JobSelector) (state : SuspensionState) :
      Effect env s (.updateJobs selector state) (s.setJobs selector.selects state)
  | scheduleTimer (action : DeferredAction) :
      Effect env s (.scheduleTimer action) (s.addTimer (env.ids.timer s.timerCount) action)
  | deleteJob (id : String) : Effect env s (.deleteJob id) (s.removeJob id)
  | recordJobFailure {id : String} (message : String) (retryAt : Instant) {j : Job}
      (hj : s.jobs.get? id = some j) :
      Effect env s (.recordJobFailure id message retryAt)
        { s with jobs := s.jobs.insert id (j.withFailure message retryAt) }

theorem Call.effect {env : Environment} {s s' : Stores} (c : Call) {r : c.Reply}
    (h : c.perform env s = .ok (r, s')) : c.Effect env s s' := by
  cases c with
  | saveJobDefinition d => cases h; exact .saveJobDefinition d
  | updateDefinitions selector state =>
    simp only [perform] at h
    cases hupdate : s.updateDefinitions selector state with
    | error e => rw [hupdate] at h; cases h
    | ok _ =>
      rw [hupdate] at h
      cases h
      exact Stores.eq_of_updateDefinitions hupdate ▸ .updateDefinitions selector state
  | saveJob j =>
    simp only [perform] at h
    cases hvalidate : j.validate with
    | error e => rw [hvalidate] at h; cases h
    | ok _ => rw [hvalidate] at h; cases h; exact .saveJob j
  | updateStartTimers selector state => cases h; exact .updateStartTimers selector state
  | updateJobs selector state =>
    simp only [perform] at h
    cases hupdate : s.updateJobs selector state with
    | error e => rw [hupdate] at h; cases h
    | ok _ =>
      rw [hupdate] at h
      cases h
      exact Stores.eq_of_updateJobs hupdate ▸ .updateJobs selector state
  | scheduleTimer action => cases h; exact .scheduleTimer action
  | deleteJob id =>
    simp only [perform] at h
    split at h
    · cases h; exact .deleteJob id
    · cases h
  | recordJobFailure id message retryAt =>
    simp only [perform] at h
    split at h
    · next j hj => cases h; exact .recordJobFailure message retryAt hj
    · cases h
  | _ => cases h; exact .none ⟨rfl, rfl, rfl, rfl⟩

/-! ## what calls keep -/

structure Environment.Keeps (env : Environment) (R : Stores → Stores → Prop) : Prop where
  refl : ∀ s, R s s
  trans : ∀ {s s' s''}, R s s' → R s' s'' → R s s''
  call : ∀ (c : Call) {s s' : Stores} {r : c.Reply}, c.perform env s = .ok (r, s') → R s s'

namespace Environment.Keeps

variable {env : Environment} {R : Stores → Stores → Prop} (h : env.Keeps R)
include h

theorem on : env.KeepsOn (fun _ => True) R := ⟨h.refl, h.trans, fun c _ => h.call c⟩

theorem run {α : Type} (p : Command α) (s : Stores) : R s (p.run env s).2 :=
  h.on.run (Command.asks_of_forall (fun _ => trivial) p) s

variable (x : TimerExecutor) (c : CommandContext) (now : Instant)

theorem settle (timer : Job) (s : Stores) : R s (x.settle env c now timer s).2 :=
  h.on.settle x c now (fun _ _ => trivial) s

theorem runPass (limit : Nat) (s : Stores) : R s (x.runPass env c now limit s).2 :=
  h.on.runPass x c now (fun _ => trivial) (fun _ _ _ => trivial) s

end Environment.Keeps

/-- records stay under their own ids, and ids given out are not taken back -/
structure Stores.Later (s s' : Stores) : Prop where
  definitions : s.definitions.KeyedBy JobDefinition.id → s'.definitions.KeyedBy JobDefinition.id
  jobs : s.jobs.KeyedBy Job.id → s'.jobs.KeyedBy Job.id
  processInstances : s.processInstances.KeyedBy ProcessInstance.id →
    s'.processInstances.KeyedBy ProcessInstance.id
  timerCount : s.timerCount ≤ s'.timerCount

namespace Stores.Later

theorem refl (s : Stores) : s.Later s := ⟨id, id, id, Nat.le_refl _⟩

theorem trans {s s' s'' : Stores} (h : s.Later s') (h' : s'.Later s'') : s.Later s'' :=
  ⟨h'.definitions ∘ h.definitions, h'.jobs ∘ h.jobs, h'.processInstances ∘ h.processInstances,
    Nat.le_trans h.timerCount h'.timerCount⟩

theorem wellKeyed {s s' : Stores} (h : s.Later s') (hs : s.WellKeyed) : s'.WellKeyed :=
  ⟨h.definitions hs.definitions, h.jobs hs.jobs, h.processInstances hs.processInstances⟩

theorem setJobs (s : Stores) (p : Job → Bool) (state : SuspensionState) :
    s.Later (s.setJobs p state) :=
  ⟨id, fun hs => hs.map fun j => by split <;> rfl, id, Nat.le_refl _⟩

theorem putProcessInstances (l : List ProcessInstance) (s : Stores) :
    s.Later (l.foldl putProcessInstance s) := by
  induction l generalizing s with
  | nil => exact refl s
  | cons p l ih =>
    have hfirst : s.Later (s.putProcessInstance p) :=
      ⟨id, id, fun hs => hs.insert rfl, Nat.le_refl _⟩
    exact hfirst.trans (ih _)

theorem keeps (env : Environment) : env.Keeps Stores.Later where
  refl := refl
  trans := trans
  call := by
    intro c s s' r hperform
    cases c.effect hperform with
    | none h =>
      exact ⟨fun hs => h.definitions ▸ hs, fun hs => h.jobs ▸ hs, fun hs => h.processInstances ▸ hs,
        Nat.le_of_eq h.timerCount.symm⟩
    | saveJobDefinition d => exact ⟨fun hs => hs.insert rfl, id, id, Nat.le_refl _⟩
    | updateDefinitions selector state =>
      exact ⟨fun hs => hs.map fun d => by split <;> rfl, id, id, Nat.le_refl _⟩
    | saveJob j => exact ⟨id, fun hs => hs.insert rfl, id, Nat.le_refl _⟩
    | updateStartTimers selector state => exact setJobs s _ state
    | updateJobs selector state => exact setJobs s _ state
    | scheduleTimer action => exact ⟨id, fun hs => hs.insert rfl, id, Nat.le_succ _⟩
    | deleteJob id' => exact ⟨id, fun hs => hs.erase id', id, Nat.le_refl _⟩
    | @recordJobFailure id' message retryAt j hj =>
      exact ⟨id, fun hs => hs.insert (hs id' j hj), id, Nat.le_refl _⟩

end Stores.Later

/-! ## seeds -/

theorem Stores.foldl_putProcessInstance_jobs (l : List ProcessInstance) (s : Stores) :
    (l.foldl putProcessInstance s).jobs = s.jobs := by
  induction l generalizing s with
  | nil => rfl
  | cons p l ih => exact ih (s.putProcessInstance p)

/-- a seed that is applied at all saves its job definitions and its jobs first -/
theorem EngineSeed.apply_cases (x : EngineSeed) (env : Environment) (s : Stores) :
    (x.apply env s).2 = s ∨ ∃ definitions instances,
      (x.apply env s).2 = List.foldl Stores.putProcessInstance
        ((saveAll definitions x.jobs).run env s).2 instances := by
  unfold apply
  cases x.checked with
  | error e => exact .inl rfl
  | ok definitions =>
    cases hrun : (saveAll definitions x.jobs).run env s with
    | mk outcome s' =>
      simp only [hrun]
      cases outcome with
      | error e => exact .inr ⟨definitions, [], by rw [hrun]; rfl⟩
      | ok _ => exact .inr ⟨definitions, x.processInstances, by rw [hrun]⟩

theorem EngineSeed.asks_saveAll {Q : Call → Prop} {definitions : List JobDefinition}
    {jobs : List Job} (hdefinitions : ∀ d ∈ definitions, Q (.saveJobDefinition d))
    (hjobs : ∀ j ∈ jobs, Q (.saveJob j)) : (saveAll definitions jobs).Asks Q := by
  refine Command.Asks.bind (Command.asks_forM fun d hd => ?_) fun _ => ?_
  · exact Command.asks_call (hdefinitions d hd)
  · exact Command.asks_forM fun j hj => Command.asks_call (hjobs j hj)

/-! ## steps -/

inductive EngineStep where
  | definitions (c : CommandContext) (t : Transition) (request : StateRequest)
  | jobs (c : CommandContext) (t : Transition) (selection : JobSelection)
      (operationId : Option String)
  | pass (x : TimerExecutor) (c : CommandContext) (now : Instant) (limit : Nat)
  | call (c : Call)
  | seed (seed : EngineSeed)

/-- the call is about the one job `id` -/
def Call.Names (id : String) : Call → Prop
  | saveJob j => j.id = id
  | deleteJob id' => id' = id
  | recordJobFailure id' _ _ => id' = id
  | _ => False

/-- the handler of the timer succeeds -/
def Attempt.succeeds (x : TimerExecutor) (env : Environment) (c : CommandContext) (a : Attempt) :
    Bool :=
  match x.handler? a.timer.handlerType with
  | some t => ((handleTimer c t a.timer).run env a.before).1.isOk
  | none => false

structure PassRecord where
  acquired : List Job
  /-- the timers whose handlers succeeded -/
  executed : List Job
  outcome : Except PassError PassReport

def PassRecord.failures (p : PassRecord) : List TimerFailure :=
  match p.outcome with
  | .ok report => report.failures
  | .error _ => []

namespace EngineStep

def Names (id : String) : EngineStep → Prop
  | call c => c.Names id
  | seed x => ∃ j ∈ x.jobs, j.id = id
  | _ => False

/-- a retry is due within the range of instants -/
def InRange : EngineStep → Prop
  | pass x _ now _ => now.add? x.retryWait ≠ none
  | _ => True

def run (env : Environment) : EngineStep → Stores → List PassRecord × Stores
  | definitions c t request, s => ([], ((setJobDefinitionState c t request).run env s).2)
  | jobs c t selection operationId, s => ([], ((setJobState c t selection operationId).run env s).2)
  | pass x c now limit, s =>
    let attempts := x.passAttempts env c now limit s
    let (outcome, s') := x.runPass env c now limit s
    ([⟨attempts.map Attempt.timer, (attempts.filter (·.succeeds x env c)).map Attempt.timer,
      outcome⟩], s')
  | call c, s => ([], ((Command.call c).run env s).2)
  | seed x, s => ([], (x.apply env s).2)

def runAll (env : Environment) : List EngineStep → Stores → List PassRecord × Stores
  | [], s => ([], s)
  | e :: steps, s =>
    let (records, s') := e.run env s
    let (others, s'') := runAll env steps s'
    (records ++ others, s'')

theorem later_run (env : Environment) (e : EngineStep) (s : Stores) : s.Later (e.run env s).2 := by
  have hkeeps := Stores.Later.keeps env
  cases e with
  | definitions c t request => exact hkeeps.run _ s
  | jobs c t selection operationId => exact hkeeps.run _ s
  | pass x c now limit => exact hkeeps.runPass x c now limit s
  | call c => exact hkeeps.run _ s
  | seed x =>
    show s.Later (x.apply env s).2
    rcases EngineSeed.apply_cases x env s with heq | ⟨definitions, instances, heq⟩
    · rw [heq]
      exact .refl s
    · rw [heq]
      exact (hkeeps.run _ s).trans (.putProcessInstances instances _)

theorem later_runAll (env : Environment) (steps : List EngineStep) (s : Stores) :
    s.Later (runAll env steps s).2 := by
  induction steps generalizing s with
  | nil => exact .refl s
  | cons e steps ih => exact (later_run env e s).trans (ih _)

/-- whatever is done to an engine, its records are stored under their own ids -/
theorem wellKeyed_runAll (env : Environment) (steps : List EngineStep) :
    (runAll env steps {}).2.WellKeyed :=
  (later_runAll env steps {}).wellKeyed Stores.WellKeyed.empty

end EngineStep
end JobSuspension
