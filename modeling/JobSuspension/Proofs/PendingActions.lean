import JobSuspension.Proofs.Firing
import JobSuspension.Proofs.RetryAccount
import JobSuspension.Proofs.Stages

/-!
# Pending actions are out of reach

A change of states finds the jobs it changes by what they say about their owners, and the timer of a
deferred action says nothing of the kind.  So whatever is suspended, and whatever fails, the timer
stays active until it is carried out: a scheduled activation is not stopped by the suspension that
it is meant to undo.  Only who saves a job under the id of the timer, or selects the timer by its
id, can change that.

* `DeferredAction.Pending a id j`     `j` is the timer `id` of the action `a`, perhaps after attempts
                                      that failed;
* `Pending.not_selects`, `Pending.not_startsFrom`, `Pending.isWanted`   what follows for selectors
                                      and for passes;
* `Call.Overrides id c`, `EngineStep.Overrides id e`   `c` or `e` addresses the job `id` itself;
* `Stores.Defers`                     a call, a command or a pass that does not keeps the timer so;
* `pending_action_is_out_of_reach`    from the creation of the timer on.
-/

namespace JobSuspension

/-! ## pending timers -/

structure DeferredAction.Pending (a : DeferredAction) (id : String) (j : Job) : Prop where
  id : j.id = id
  state : j.state = .active
  handlerType : j.handlerType = a.transition.handlerType
  handlerConfiguration : j.handlerConfiguration = some a.configuration
  unowned : j.Unowned

namespace DeferredAction.Pending

variable {a : DeferredAction} {id : String} {j : Job}

theorem toJob (a : DeferredAction) (id : String) : a.Pending id (a.toJob id) :=
  ⟨rfl, rfl, rfl, rfl, ⟨rfl, rfl, rfl, rfl⟩⟩

theorem withFailure (h : a.Pending id j) (message : String) (retryAt : Instant) :
    a.Pending id (j.withFailure message retryAt) :=
  ⟨h.id, h.state, h.handlerType, h.handlerConfiguration, h.unowned.withFailure message retryAt⟩

/-- the one selector that finds the timer is the one of its id -/
theorem not_selects (h : a.Pending id j) {x : JobSelector} (hx : x ≠ ⟨.jobId, id⟩) :
    x.selects j = false := by
  obtain ⟨hdefinition, hinstance, hid, hkey⟩ := h.unowned
  obtain ⟨key, v⟩ := x
  cases key with
  | jobId =>
    have hne : j.id ≠ v := by
      rintro rfl
      exact hx (congrArg (JobSelector.mk .jobId) h.id)
    simp [JobSelector.selects, Job.get, hne]
  | jobDefinitionId => simp [JobSelector.selects, Job.get, hdefinition]
  | processInstanceId => simp [JobSelector.selects, Job.get, hinstance]
  | processDefinitionId => simp [JobSelector.selects, Job.get, hid]
  | processDefinitionKey => simp [JobSelector.selects, Job.get, hkey]

theorem not_startsFrom (h : a.Pending id j) (x : ProcessDefinitionSelector) :
    x.startsFrom j = false := by
  have howns : x.owns j = false := by
    obtain ⟨-, -, hid, hkey⟩ := h.unowned
    cases x <;> simp [ProcessDefinitionSelector.owns, hid, hkey]
  rw [ProcessDefinitionSelector.startsFrom, howns, Bool.and_false]

theorem isAcquirableAt (h : a.Pending id j) (now : Instant) :
    j.isAcquirableAt now = (decide (0 < j.retries) && j.isDueAt now) := by
  rw [Job.isAcquirableAt, h.state]
  rfl

/-- with a handler for it, nothing but its due date and its retries keeps a pass from the timer -/
theorem isWanted (h : a.Pending id j) {x : TimerExecutor} (hx : a.transition ∈ x.handlers)
    (now : Instant) :
    j.isWanted x.handlerTypes now = (decide (0 < j.retries) && j.isDueAt now) := by
  have htype : x.handlerTypes.contains j.handlerType = true := by
    rw [h.handlerType]
    exact TimerExecutor.contains_handlerTypes hx
  rw [Job.isWanted, htype, Bool.and_true, h.isAcquirableAt]

end DeferredAction.Pending

/-! ## stores -/

/-- what is stored under the id of the timer, if anything -/
def DeferredAction.PendingIn (a : DeferredAction) (id : String) (s : Stores) : Prop :=
  ∀ j, s.jobs.get? id = some j → a.Pending id j

namespace DeferredAction.PendingIn

variable {a : DeferredAction} {id : String} {s s' : Stores}

theorem of_eq (h : a.PendingIn id s) (heq : s'.jobs.get? id = s.jobs.get? id) :
    a.PendingIn id s' := by
  intro j hj
  exact h j (heq.symm.trans hj)

theorem addTimer (a : DeferredAction) (id : String) (s : Stores) :
    a.PendingIn id (s.addTimer id a) := by
  intro j hj
  have hget : (s.addTimer id a).jobs.get? id = some (a.toJob id) :=
    (Table.get?_insert _ _ _ _).trans (if_pos rfl)
  obtain rfl := Option.some.inj (hget.symm.trans hj)
  exact .toJob a id

theorem insert (h : a.PendingIn id s) {id' : String} {j : Job} (hj : id' = id → a.Pending id j)
    (hjobs : s'.jobs = s.jobs.insert id' j) : a.PendingIn id s' := by
  intro j' hj'
  rw [hjobs, Table.get?_insert] at hj'
  split at hj'
  · next heq =>
    obtain rfl := Option.some.inj hj'
    exact hj heq
  · exact h j' hj'

/-- an update that passes over pending timers -/
theorem setJobs (h : a.PendingIn id s) {p : Job → Bool}
    (hp : ∀ j, a.Pending id j → p j = false) (state : SuspensionState) :
    a.PendingIn id (s.setJobs p state) := by
  intro j hj
  have hget : (s.setJobs p state).jobs.get? id =
      (s.jobs.get? id).map fun j => if p j then j.withState state else j := Table.get?_map _ _ _
  obtain ⟨j₀, hj₀, rfl⟩ := Option.map_eq_some_iff.mp (hget.symm.trans hj)
  rw [hp j₀ (h j₀ hj₀)]
  exact h j₀ hj₀

theorem removeJob (h : a.PendingIn id s) (id' : String) : a.PendingIn id (s.removeJob id') := by
  intro j hj
  have hget : (s.removeJob id').jobs.get? id = if id' = id then none else s.jobs.get? id :=
    Table.get?_erase _ _ _
  rw [hget] at hj
  split at hj
  · cases hj
  · exact h j hj

end DeferredAction.PendingIn

/-! ## calls -/

/-- the call saves a job under `id`, or changes the state of this one job -/
def Call.Overrides (id : String) : Call → Prop
  | saveJob j => j.id = id
  | updateJobs x _ => x = ⟨.jobId, id⟩
  | _ => False

theorem Call.OfCascade.not_overrides {c : Call} (h : c.OfCascade) (id : String) :
    ¬ c.Overrides id := by
  intro ho
  cases c with
  | saveJob j => exact h.ofChange
  | updateJobs x state => exact h.key_ne x state rfl (congrArg JobSelector.key ho)
  | _ => exact ho

theorem Call.OfSettling.not_overrides {id' : String} {c : Call} (h : c.OfSettling id')
    (id : String) : ¬ c.Overrides id := by
  cases h with
  | handle h => exact h.not_overrides id
  | delete => exact not_false
  | recordFailure => exact not_false

theorem IdSupply.Avoids.mono {ids : IdSupply} {id : String} {s s' : Stores}
    (h : ids.Avoids id s) (hcount : s.timerCount ≤ s'.timerCount) : ids.Avoids id s' := by
  intro n hn
  exact h n (Nat.le_trans hcount hn)

/-- if the timer is pending before, it is afterwards, unless its id is given out again -/
structure Stores.Defers (ids : IdSupply) (a : DeferredAction) (id : String) (s s' : Stores) :
    Prop where
  timerCount : s.timerCount ≤ s'.timerCount
  pending : ids.Avoids id s → a.PendingIn id s → a.PendingIn id s'

namespace Stores.Defers

variable {env : Environment} {a : DeferredAction} {id : String}

theorem of_eq {ids : IdSupply} {s s' : Stores} (hcount : s'.timerCount = s.timerCount)
    (h : s'.jobs.get? id = s.jobs.get? id) : s.Defers ids a id s' :=
  ⟨Nat.le_of_eq hcount.symm, fun _ hs => hs.of_eq h⟩

theorem trans {ids : IdSupply} {s s' s'' : Stores} (h : s.Defers ids a id s')
    (h' : s'.Defers ids a id s'') : s.Defers ids a id s'' := by
  refine ⟨Nat.le_trans h.timerCount h'.timerCount, fun hids hs => ?_⟩
  exact h'.pending (hids.mono h.timerCount) (h.pending hids hs)

theorem perform {c : Call} (hc : ¬ c.Overrides id) {s s' : Stores} {r : c.Reply}
    (h : c.perform env s = .ok (r, s')) : s.Defers env.ids a id s' := by
  refine ⟨((Stores.Later.keeps env).call c h).timerCount, fun hids hs => ?_⟩
  cases c.effect h with
  | none h => exact hs.of_eq (by rw [h.jobs])
  | saveJobDefinition d => exact hs.of_eq rfl
  | updateDefinitions x state => exact hs.of_eq rfl
  | saveJob j => exact hs.insert (fun hid => absurd hid hc) rfl
  | updateStartTimers x state => exact hs.setJobs (fun j hj => hj.not_startsFrom x) state
  | updateJobs x state => exact hs.setJobs (fun j hj => hj.not_selects hc) state
  | scheduleTimer b =>
    have hne : env.ids.timer s.timerCount ≠ id := hids _ (Nat.le_refl _)
    exact hs.insert (fun hid => absurd hid hne) rfl
  | deleteJob id' => exact hs.removeJob id'
  | @recordJobFailure id' message retryAt j hj =>
    refine hs.insert ?_ rfl
    rintro rfl
    exact (hs j hj).withFailure message retryAt

theorem keepsOn (env : Environment) (a : DeferredAction) (id : String) :
    env.KeepsOn (fun c => ¬ c.Overrides id) (Stores.Defers env.ids a id) where
  refl _ := of_eq rfl rfl
  trans := trans
  call _ hc _ _ _ h := perform hc h

end Stores.Defers

/-! ## runs -/

namespace EngineStep

/-- a job is saved under `id`, or `id` is what the change of jobs selects by -/
def Overrides (id : String) : EngineStep → Prop
  | jobs _ _ selection _ => selection.find? = some ⟨.jobId, id⟩
  | call c => c.Overrides id
  | seed x => ∃ j ∈ x.jobs, j.id = id
  | _ => False

/-- what is left after several steps, each in an environment of its own -/
def runThrough (steps : List (Environment × EngineStep)) (s : Stores) : Stores :=
  steps.foldl (fun s p => (p.2.run p.1 s).2) s

variable {a : DeferredAction} {id : String}

theorem defers_run (env : Environment) {e : EngineStep} (he : ¬ e.Overrides id) (s : Stores) :
    s.Defers env.ids a id (e.run env s).2 := by
  have hkeeps := Stores.Defers.keepsOn env a id
  cases e with
  | definitions c t request =>
    have hasks : (setJobDefinitionState c t request).Asks fun c => ¬ c.Overrides id :=
      asks_setJobDefinitionState (fun _ h => h.not_overrides id) c t fun _ _ => not_false
    exact hkeeps.run hasks s
  | jobs c t selection operationId =>
    have hasks : (setJobState c t selection operationId).Asks fun c => ¬ c.Overrides id := by
      refine asks_setJobState_of (fun _ h => h.ofCascade.not_overrides id) c t operationId ?_
      rintro sel hsel rfl
      exact he hsel
    exact hkeeps.run hasks s
  | pass x c now limit =>
    exact hkeeps.runPass x c now (fun _ => not_false) (fun _ _ h => h.not_overrides id) s
  | call c => exact hkeeps.run (Command.asks_call he) s
  | seed x =>
    show s.Defers env.ids a id (x.apply env s).2
    rcases EngineSeed.apply_cases x env s with heq | ⟨definitions, instances, heq⟩
    · rw [heq]
      exact .of_eq rfl rfl
    · have hasks : (EngineSeed.saveAll definitions x.jobs).Asks fun c => ¬ c.Overrides id :=
        EngineSeed.asks_saveAll (fun _ _ => not_false) fun j hj hid => he ⟨j, hj, hid⟩
      have hinstances := Stores.Later.putProcessInstances instances
        ((EngineSeed.saveAll definitions x.jobs).run env s).2
      rw [heq]
      refine (hkeeps.run hasks s).trans ⟨hinstances.timerCount, fun _ hs => hs.of_eq ?_⟩
      rw [Stores.foldl_putProcessInstance_jobs]

theorem pending_runThrough (steps : List (Environment × EngineStep))
    (hsteps : ∀ p ∈ steps, ¬ p.2.Overrides id) {s : Stores}
    (hids : ∀ p ∈ steps, p.1.ids.Avoids id s) (hs : a.PendingIn id s) :
    a.PendingIn id (runThrough steps s) := by
  induction steps generalizing s with
  | nil => exact hs
  | cons p steps ih =>
    obtain ⟨hfirst, hsteps⟩ := List.forall_mem_cons.mp hsteps
    obtain ⟨hid, hids⟩ := List.forall_mem_cons.mp hids
    have hstep : s.Defers p.1.ids a id (p.2.run p.1 s).2 := defers_run p.1 hfirst s
    refine ih hsteps (fun q hq => (hids q hq).mono hstep.timerCount) ?_
    exact hstep.pending hid hs

end EngineStep

/-- **A pending action is out of reach.**  Whatever is asked of an engine after an action was
scheduled, and whichever calls fail, the timer is active as long as it is stored, with the handler
type and the configuration it was given and without owners, unless a job is saved under its id or
its id is selected.  So a pass with a handler for it passes it over only before it is due or when it
has no retries left. -/
theorem pending_action_is_out_of_reach {env : Environment} {s s₁ : Stores} {a : DeferredAction}
    {id : String} (hscheduled : (Command.call (.scheduleTimer a)).run env s = (.ok id, s₁))
    (steps : List (Environment × EngineStep)) (hfresh : ∀ p ∈ steps, p.1.ids.Avoids id s₁)
    (hsteps : ∀ p ∈ steps, ¬ p.2.Overrides id) :
    ∀ j, (EngineStep.runThrough steps s₁).jobs.get? id = some j →
      a.Pending id j ∧
        ∀ (x : TimerExecutor) (now : Instant), a.transition ∈ x.handlers →
          j.isWanted x.handlerTypes now = (decide (0 < j.retries) && j.isDueAt now) := by
  intro j hj
  have hpending : a.PendingIn id s₁ := by
    rcases Command.run_call_cases env s (.scheduleTimer a) with ⟨e, h⟩ | ⟨r, s', hperform, h⟩
    · rw [h] at hscheduled
      cases hscheduled
    · rw [h] at hscheduled
      cases hscheduled
      cases hperform
      exact .addTimer a _ s
  have hleft := EngineStep.pending_runThrough steps hsteps hfresh hpending j hj
  exact ⟨hleft, fun x now hx => hleft.isWanted hx now⟩

/-- the process definition is suspended with its jobs, and so are its jobs once more; the handler
of the activation fails, and the timer waits for its retry -/
theorem pending_action_is_out_of_reach_suspended :
    let ids : IdSupply :=
      ⟨fun n => if n = 0 then "a" else "b", fun _ => "entry", fun _ => "operation"⟩
    let env : Environment := { ids := ids }
    let faulty : Environment := { env with
      fault := fun k => if k = .updateDefinitionsByProcessDefinitionKey then some .zeroBatch
        else none }
    let c : CommandContext := { actor := none, level := .full }
    let a : DeferredAction :=
      ⟨.epoch, .activate, (TimerConfiguration.mk ⟨.processDefinitionKey, "order"⟩ true).encode⟩
    let s₁ : Stores := Stores.addTimer {} "a" a
    let steps : List (Environment × EngineStep) :=
      [(env, .definitions c .suspend
        { selection := { processDefinitionKey := some "order" }, includeJobs := true }),
      (env, .jobs c .suspend { processDefinitionKey := some "order" } none),
      (faulty, .pass { handlers := Transition.all } c .epoch 5)]
    (Command.call (.scheduleTimer a)).run env {} = (.ok "a", s₁) ∧
      (∀ p ∈ steps, p.1.ids.Avoids "a" s₁ ∧ ¬ p.2.Overrides "a") ∧
      ∃ j, (EngineStep.runThrough steps s₁).jobs.get? "a" = some j ∧ j.retries = 2 ∧
        a.Pending "a" j := by
  intro ids env faulty c a s₁ steps
  have hscheduled : (Command.call (.scheduleTimer a)).run env {} = (.ok "a", s₁) := rfl
  have havoids : ids.Avoids "a" s₁ := by
    intro n hn
    have hpos : 1 ≤ n := hn
    show (if n = 0 then "a" else "b") ≠ "a"
    rw [if_neg (by omega)]
    decide
  have hfresh : ∀ p ∈ steps, p.1.ids.Avoids "a" s₁ := by
    simp only [steps, List.forall_mem_cons]
    exact ⟨havoids, havoids, havoids, fun p hp => absurd hp List.not_mem_nil⟩
  have hselection : ({ processDefinitionKey := some "order" } : JobSelection).find? ≠
      some ⟨.jobId, "a"⟩ := by decide
  have hsteps : ∀ p ∈ steps, ¬ p.2.Overrides "a" := by
    simp only [steps, List.forall_mem_cons]
    exact ⟨not_false, hselection, not_false, fun p hp => absurd hp List.not_mem_nil⟩
  have hretries : ((EngineStep.runThrough steps s₁).jobs.get? "a").map Job.retries = some 2 := by
    simp +zetaDelta only
    decide +kernel
  obtain ⟨j, hj, htwo⟩ := Option.map_eq_some_iff.mp hretries
  have hpending := (pending_action_is_out_of_reach hscheduled steps hfresh hsteps j hj).1
  exact ⟨hscheduled, fun p hp => ⟨hfresh p hp, hsteps p hp⟩, j, hj, htwo, hpending⟩

end JobSuspension
