import JobSuspension.Proofs.Runs
import JobSuspension.Proofs.Settlement

/-!
# The attempts of a deferred action

A new timer has three retries.  Passes spend them one by one, until its action is carried out or
none is left, and nothing else that is done to an engine gives one back or brings a timer back that
is gone.  So the retries of the timer and the reports of the passes always add up.

* `Tally.of id history`          how often passes acquired, failed and executed the timer `id`;
* `Stores.Spares id s s'`        of the job `id` nothing has changed but its state;
* `TimerStep id s s' tally`      what one step does to the timer, and what its passes say of it;
* `EngineStep.timerStep_run`     there is nothing else a step can do;
* `RetryAccount action stored tally`   what is stored agrees with what was reported;
* `runAll_account`               it does so all along;
* `deferred_action_retry_account`   from the creation of the timer on.
-/

namespace JobSuspension

/-! ## tallies -/

structure Tally where
  acquired : Nat
  failed : Nat
  executed : Nat
  deriving DecidableEq

namespace Tally

def of (id : String) (history : List PassRecord) : Tally where
  acquired := (history.flatMap fun p => p.acquired.map Job.id).count id
  failed := (history.flatMap fun p => p.failures.map TimerFailure.timerId).count id
  executed := (history.flatMap fun p => p.executed.map Job.id).count id

def add (t u : Tally) : Tally :=
  ⟨t.acquired + u.acquired, t.failed + u.failed, t.executed + u.executed⟩

theorem of_append (id : String) (history later : List PassRecord) :
    of id (history ++ later) = (of id history).add (of id later) := by
  simp only [of, add, List.flatMap_append, List.count_append]

theorem add_zero (t : Tally) : t.add ⟨0, 0, 0⟩ = t := rfl

theorem zero_add (t : Tally) : add ⟨0, 0, 0⟩ t = t := by
  simp only [add, Nat.zero_add]

theorem add_assoc (t u v : Tally) : (t.add u).add v = t.add (u.add v) := by
  simp only [add, Nat.add_assoc]

end Tally

/-- the pass neither acquired the timer nor reports it -/
structure PassRecord.Omits (id : String) (p : PassRecord) : Prop where
  acquired : ∀ timer ∈ p.acquired, timer.id ≠ id
  failures : ∀ f ∈ p.failures, f.timerId ≠ id

theorem Tally.omits {id : String} {history : List PassRecord} (h : of id history = ⟨0, 0, 0⟩) :
    ∀ p ∈ history, p.Omits id := by
  obtain ⟨hacquired, hfailed, -⟩ := Tally.mk.inj h
  rw [List.count_eq_zero] at hacquired hfailed
  refine fun p hp => ⟨fun timer ht e => hacquired ?_, fun f hf e => hfailed ?_⟩
  · exact List.mem_flatMap.mpr ⟨p, hp, List.mem_map.mpr ⟨timer, ht, e⟩⟩
  · exact List.mem_flatMap.mpr ⟨p, hp, List.mem_map.mpr ⟨f, hf, e⟩⟩

/-! ## what spares a timer -/

/-- nothing of the job `id` changes but its state -/
def Stores.Spares (id : String) (s s' : Stores) : Prop :=
  ∃ state : Job → SuspensionState,
    s'.jobs.get? id = (s.jobs.get? id).map fun j => j.withState (state j)

/-- the call names another job, if any, and stores no new one -/
def Call.SparesJob (id : String) (c : Call) : Prop :=
  ¬ c.Names id ∧ ∀ a, c ≠ .scheduleTimer a

theorem Call.OfChange.sparesJob {c : Call} (h : c.OfChange) (id : String) : c.SparesJob id := by
  cases c <;> first | exact h.elim | exact ⟨not_false, fun _ h => by cases h⟩

theorem Call.OfSettling.sparesJob {id id' : String} {c : Call} (h : c.OfSettling id')
    (hid : id' ≠ id) : c.SparesJob id := by
  cases h with
  | handle h => exact h.ofChange.sparesJob id
  | delete => exact ⟨hid, fun _ h => by cases h⟩
  | recordFailure => exact ⟨hid, fun _ h => by cases h⟩

namespace Stores.Spares

variable {id : String} {s s' s'' : Stores}

theorem of_eq (h : s'.jobs.get? id = s.jobs.get? id) : s.Spares id s' :=
  ⟨Job.state, h.trans (congrFun (Option.map_id (α := Job)) _).symm⟩

theorem trans (h : s.Spares id s') (h' : s'.Spares id s'') : s.Spares id s'' := by
  obtain ⟨state, h⟩ := h
  obtain ⟨state', h'⟩ := h'
  refine ⟨fun j => state' (j.withState (state j)), ?_⟩
  rw [h', h, Option.map_map]
  rfl

theorem of_map {p : Job → Bool} {state : SuspensionState}
    (h : s'.jobs = s.jobs.map fun j => if p j then j.withState state else j) : s.Spares id s' := by
  refine ⟨fun j => if p j then state else j.state, ?_⟩
  rw [h, Table.get?_map]
  congr 1
  funext j
  show (if p j then j.withState state else j) = j.withState (if p j then state else j.state)
  split <;> rfl

variable {env : Environment}

theorem perform (c : Call) (hfresh : ∀ a, c = .scheduleTimer a → env.ids.timer s.timerCount ≠ id)
    {r : c.Reply} (h : c.perform env s = .ok (r, s')) (hnames : ¬ c.Names id) :
    s.Spares id s' := by
  cases c.effect h with
  | none h => exact of_eq (by rw [h.jobs])
  | saveJobDefinition d => exact of_eq rfl
  | updateDefinitions selector state => exact of_eq rfl
  | saveJob j => exact of_eq ((Table.get?_insert _ _ _ _).trans (if_neg hnames))
  | updateStartTimers selector state => exact of_map rfl
  | updateJobs selector state => exact of_map rfl
  | scheduleTimer action =>
    exact of_eq ((Table.get?_insert _ _ _ _).trans (if_neg (hfresh action rfl)))
  | deleteJob id' => exact of_eq ((Table.get?_erase _ _ _).trans (if_neg hnames))
  | recordJobFailure message retryAt hj =>
    exact of_eq ((Table.get?_insert _ _ _ _).trans (if_neg hnames))

theorem run_call (henv : env.Reliable) (c : Call)
    (hfresh : ∀ a, c = .scheduleTimer a → env.ids.timer s.timerCount ≠ id)
    (hnames : ¬ c.Names id) : s.Spares id ((Command.call c).run env s).2 := by
  rw [Command.run_call henv]
  cases hperform : c.perform env s with
  | error e => exact of_eq rfl
  | ok answer => exact perform c hfresh hperform hnames

/-- calls that name another job, and store no new one -/
theorem keepsOn (env : Environment) (id : String) :
    env.KeepsOn (Call.SparesJob id) (Stores.Spares id) where
  refl := fun _ => of_eq rfl
  trans := trans
  call := fun c hc _ _ _ h => perform c (fun a ha => (hc.2 a ha).elim) h hc.1

theorem run_setJobDefinitionState (henv : env.Reliable) (hfresh : env.ids.timer s.timerCount ≠ id)
    (c : CommandContext) (t : Transition) (request : StateRequest) :
    s.Spares id ((setJobDefinitionState c t request).run env s).2 := by
  have hout := setJobDefinitionState_outcome henv s c t request
  cases hrun : (setJobDefinitionState c t request).run env s with
  | mk outcome s' =>
    rw [hrun] at hout
    cases hout with
    | refused => exact of_eq rfl
    | missed => exact of_eq (by rw [Stores.recorded_jobs])
    | changed => exact of_map (by rw [Stores.applied_jobs, Stores.recorded_jobs])
    | scheduled =>
      refine of_eq ((Table.get?_insert _ _ _ _).trans ((if_neg hfresh).trans ?_))
      rw [Stores.recorded_jobs]

/-- a job whose state may have changed before -/
theorem exists_of_some {j : Job} {state : SuspensionState} (h : s.Spares id s')
    (hj : s.jobs.get? id = some (j.withState state)) :
    ∃ state, s'.jobs.get? id = some (j.withState state) := by
  obtain ⟨state', h⟩ := h
  exact ⟨state' (j.withState state), by rw [h, hj]; rfl⟩

end Stores.Spares

/-! ## steps -/

/-- what a step does to the timer `id`, and the tally of its passes -/
inductive TimerStep (id : String) (s s' : Stores) : Tally → Prop where
  | spared (h : s.Spares id s') : TimerStep id s s' ⟨0, 0, 0⟩
  | executed {j : Job} (hj : s.jobs.get? id = some j) (hretries : 0 < j.retries.toNat)
      (hgone : s'.jobs.get? id = none) : TimerStep id s s' ⟨1, 0, 1⟩
  | failed {j : Job} {state : SuspensionState} {message : String} {retryAt : Instant}
      (hj : s.jobs.get? id = some j)
      (hretries : (j.withFailure message retryAt).retries.toNat + 1 = j.retries.toNat)
      (hleft : s'.jobs.get? id = some ((j.withState state).withFailure message retryAt)) :
      TimerStep id s s' ⟨1, 1, 0⟩

namespace TimerExecutor

variable {x : TimerExecutor} {env : Environment} {c : CommandContext} {now retryAt : Instant}

theorem Settles.succeeds_eq {a : Attempt} {o : Settlement} (h : Settles x env c retryAt a o) :
    a.succeeds x env c = o.isExecuted := by
  unfold Attempt.succeeds
  cases h with
  | executed ht hrun => rw [ht]; simp only [hrun]; rfl
  | failed ht hrun => rw [ht]; simp only [hrun]; rfl

variable {limit : Nat} {l : List (Attempt × Settlement)} {s s' : Stores}

/-- the record of a pass that settles `l` -/
theorem PassSettles.record (h : PassSettles x env c now retryAt limit s l s') :
    (EngineStep.pass x c now limit).run env s =
      ([⟨l.map (·.1.timer), executedTimers l, .ok (.ofSettlements (l.map Prod.snd))⟩], s') := by
  have hexecuted : ((l.map Prod.fst).filter (·.succeeds x env c)).map Attempt.timer =
      executedTimers l := by
    unfold executedTimers
    rw [List.filter_map, List.map_map]
    exact congrArg _ (List.filter_congr fun p hp => (h.settles.settles hp).succeeds_eq)
  simp only [EngineStep.run, h.run, h.attempts, hexecuted, List.map_map]
  rfl

theorem PassSettles.tally (h : PassSettles x env c now retryAt limit s l s') (id : String) :
    Tally.of id [⟨l.map (·.1.timer), executedTimers l, .ok (.ofSettlements (l.map Prod.snd))⟩] =
      ⟨(l.map (·.1.timer.id)).count id,
        ((l.filter fun p => !p.2.isExecuted).map (·.1.timer.id)).count id,
        ((l.filter (·.2.isExecuted)).map (·.1.timer.id)).count id⟩ := by
  simp only [Tally.of, List.flatMap_cons, List.flatMap_nil, List.append_nil, PassRecord.failures,
    PassReport.ofSettlements, h.settles.failures, executedTimers, List.map_map]
  rfl

/-- a batch settles a timer once, if at all -/
theorem PassSettles.timerStep (h : PassSettles x env c now retryAt limit s l s') (id : String) :
    TimerStep id s s' ⟨(l.map (·.1.timer.id)).count id,
      ((l.filter fun p => !p.2.isExecuted).map (·.1.timer.id)).count id,
      ((l.filter (·.2.isExecuted)).map (·.1.timer.id)).count id⟩ := by
  have hnd := h.distinct
  have hsub (q : Attempt × Settlement → Bool) :
      ((l.filter q).map (·.1.timer.id)).Sublist (l.map (·.1.timer.id)) :=
    (List.filter_sublist).map _
  by_cases hid : id ∈ l.map (·.1.timer.id)
  · obtain ⟨p, hp, rfl⟩ := List.mem_map.mp hid
    -- no other timer of the batch has this id
    have hmem (q : Attempt × Settlement → Bool) :
        p.1.timer.id ∈ (l.filter q).map (·.1.timer.id) ↔ q p = true := by
      refine ⟨fun hq => ?_, fun hq => List.mem_map_of_mem (List.mem_filter.mpr ⟨hp, hq⟩)⟩
      obtain ⟨p', hp', he⟩ := List.mem_map.mp hq
      obtain ⟨hp', hq⟩ := List.mem_filter.mp hp'
      exact List.inj_on_of_nodup_map hnd hp' hp he ▸ hq
    have hcount (q : Attempt × Settlement → Bool) :
        ((l.filter q).map (·.1.timer.id)).count p.1.timer.id = if q p then 1 else 0 := by
      rw [((hsub q).nodup hnd).count]
      simp only [hmem]
    rw [hnd.count, if_pos hid, hcount, hcount]
    have hget := h.settles.get?_of_mem hnd hp
    have hj := h.stored p hp
    have hpos := Job.retries_withFailure (h.wanted p hp)
    rw [hj, Option.bind_some] at hget
    obtain ⟨a, o⟩ := p
    have ha : Settles x env c retryAt a o := h.settles.settles hp
    cases ha with
    | executed => exact .executed hj (by have := hpos "" retryAt; omega) hget
    | failed => exact .failed hj (hpos _ _) hget
  · have hnone (q : Attempt × Settlement → Bool) :
        ((l.filter q).map (·.1.timer.id)).count id = 0 :=
      List.count_eq_zero.mpr fun hq => hid ((hsub q).subset hq)
    rw [List.count_eq_zero.mpr hid, hnone, hnone]
    exact .spared ⟨_, h.settles.get?_of_notMem hid⟩

end TimerExecutor

/-- ids given out from now on are not `id` -/
def IdSupply.Avoids (ids : IdSupply) (id : String) (s : Stores) : Prop :=
  ∀ n, s.timerCount ≤ n → ids.timer n ≠ id

theorem EngineStep.timerStep_run {env : Environment} (henv : env.Reliable) {s : Stores}
    (hs : s.jobs.KeyedBy Job.id) {id : String} (hids : env.ids.Avoids id s) {e : EngineStep}
    (hnames : ¬ e.Names id) (hrange : e.InRange) :
    TimerStep id s (e.run env s).2 (Tally.of id (e.run env s).1) := by
  have hfresh := hids s.timerCount (Nat.le_refl _)
  cases e with
  | definitions c t request => exact .spared (.run_setJobDefinitionState henv hfresh c t request)
  | jobs c t selection operationId =>
    exact .spared ((Stores.Spares.keepsOn env id).run
      ((asks_setJobState c t selection operationId).mono fun _ h => h.sparesJob id) s)
  | call c => exact .spared (.run_call henv c (fun _ _ => hfresh) hnames)
  | seed x =>
    refine .spared ?_
    show s.Spares id (x.apply env s).2
    rcases EngineSeed.apply_cases x env s with heq | ⟨definitions, instances, heq⟩
    · rw [heq]
      exact .of_eq rfl
    · rw [heq]
      have hasks : (EngineSeed.saveAll definitions x.jobs).Asks (Call.SparesJob id) :=
        EngineSeed.asks_saveAll (fun _ _ => ⟨not_false, fun _ h => by cases h⟩)
          fun j hj => ⟨fun hid => hnames ⟨j, hj, hid⟩, fun _ h => by cases h⟩
      refine ((Stores.Spares.keepsOn env id).run hasks s).trans (.of_eq ?_)
      rw [Stores.foldl_putProcessInstance_jobs]
  | pass x c now limit =>
    obtain ⟨retryAt, hretry⟩ := Option.ne_none_iff_exists'.mp hrange
    rcases Nat.eq_zero_or_pos limit with rfl | hlimit
    · exact .spared (.of_eq rfl)
    · obtain ⟨l, s', h⟩ := TimerExecutor.runPass_settles (c := c) henv hs hretry hlimit
      rw [h.record, h.tally]
      exact h.timerStep id

/-! ## accounts -/

inductive RetryAccount (action : DeferredAction) : Option Job → Tally → Prop where
  | waiting {j : Job} {n : Nat} (htype : j.handlerType = action.transition.handlerType)
      (hconfiguration : j.handlerConfiguration = some action.configuration)
      (hretries : j.retries.toNat + n = 3) : RetryAccount action (some j) ⟨n, n, 0⟩
  | done {n : Nat} (hn : n < 3) : RetryAccount action none ⟨n + 1, n, 1⟩

theorem RetryAccount.step {action : DeferredAction} {id : String} {s s' : Stores} {t u : Tally}
    (h : RetryAccount action (s.jobs.get? id) t) (hstep : TimerStep id s s' u) :
    RetryAccount action (s'.jobs.get? id) (t.add u) := by
  cases hstep with
  | spared hspares =>
    obtain ⟨state, hstate⟩ := hspares
    rw [hstate, Tally.add_zero]
    generalize s.jobs.get? id = stored at h
    cases h with
    | waiting htype hconfiguration hretries => exact .waiting htype hconfiguration hretries
    | done hn => exact .done hn
  | executed hj hretries hgone =>
    rw [hj] at h
    rw [hgone]
    cases h with
    | @waiting _ n htype hconfiguration h => exact .done (n := n) (by omega)
  | @failed j state message retryAt hj hretries hleft =>
    rw [hj] at h
    rw [hleft]
    cases h with
    | @waiting _ n htype hconfiguration h =>
      have hsum : (j.withFailure message retryAt).retries.toNat + (n + 1) = 3 := by omega
      exact .waiting htype hconfiguration hsum

theorem TimerStep.of_none {id : String} {s s' : Stores} {t : Tally}
    (h : TimerStep id s s' t) (hnone : s.jobs.get? id = none) :
    s'.jobs.get? id = none ∧ t = ⟨0, 0, 0⟩ := by
  cases h with
  | spared hspares =>
    obtain ⟨state, hstate⟩ := hspares
    rw [hstate, hnone]
    exact ⟨rfl, rfl⟩
  | executed hj => rw [hnone] at hj; cases hj
  | failed hj => rw [hnone] at hj; cases hj

namespace EngineStep

variable {env : Environment} (henv : env.Reliable) {id : String} {action : DeferredAction}
include henv

theorem runAll_account (steps : List EngineStep) (hnames : ∀ e ∈ steps, ¬ e.Names id)
    (hrange : ∀ e ∈ steps, e.InRange) {s : Stores} (hs : s.jobs.KeyedBy Job.id)
    (hids : env.ids.Avoids id s) {t : Tally} (h : RetryAccount action (s.jobs.get? id) t) :
    RetryAccount action ((runAll env steps s).2.jobs.get? id)
      (t.add (Tally.of id (runAll env steps s).1)) := by
  induction steps generalizing s t with
  | nil => exact h
  | cons e steps ih =>
    obtain ⟨hname, hnames⟩ := List.forall_mem_cons.mp hnames
    obtain ⟨hinrange, hrange⟩ := List.forall_mem_cons.mp hrange
    have hlater := later_run env e s
    have hstep := timerStep_run henv hs hids hname hinrange
    have hrest := ih hnames hrange (hlater.jobs hs)
      (fun n hn => hids n (Nat.le_trans hlater.timerCount hn)) (h.step hstep)
    rw [Tally.add_assoc, ← Tally.of_append] at hrest
    exact hrest

/-- a timer that is gone is never heard of again -/
theorem runAll_omits (steps : List EngineStep) (hnames : ∀ e ∈ steps, ¬ e.Names id)
    (hrange : ∀ e ∈ steps, e.InRange) {s : Stores} (hs : s.jobs.KeyedBy Job.id)
    (hids : env.ids.Avoids id s) (hnone : s.jobs.get? id = none) :
    ∀ p ∈ (runAll env steps s).1, p.Omits id := by
  induction steps generalizing s with
  | nil => exact fun p hp => absurd hp List.not_mem_nil
  | cons e steps ih =>
    obtain ⟨hname, hnames⟩ := List.forall_mem_cons.mp hnames
    obtain ⟨hinrange, hrange⟩ := List.forall_mem_cons.mp hrange
    have hlater := later_run env e s
    obtain ⟨hgone, htally⟩ := (timerStep_run henv hs hids hname hinrange).of_none hnone
    have hrest := ih hnames hrange (hlater.jobs hs)
      (fun n hn => hids n (Nat.le_trans hlater.timerCount hn)) hgone
    exact fun p hp => (List.mem_append.mp hp).elim (Tally.omits htally p) (hrest p)

end EngineStep

theorem run_scheduleTimer {env : Environment} (henv : env.Reliable) {s s₁ : Stores}
    {action : DeferredAction} {id : String}
    (h : (Command.call (.scheduleTimer action)).run env s = (.ok id, s₁)) :
    s₁.jobs.get? id = some (action.toJob id) ∧ s₁.timerCount = s.timerCount + 1 := by
  rw [Command.run_call henv] at h
  obtain ⟨hid, rfl⟩ := Prod.mk.inj h
  obtain rfl := Except.ok.inj hid
  exact ⟨(Table.get?_insert _ _ _ _).trans (if_pos rfl), rfl⟩

/-- **A deferred action succeeds at most once and is attempted at most three times.**  As long as
its timer is stored, its retries and the failures that were reported of it make three; once it is
gone it has been executed by one pass, and no later pass knows of it. -/
theorem deferred_action_retry_account {env : Environment} (henv : env.Reliable) {s s₁ : Stores}
    (hs : s.jobs.KeyedBy Job.id) {action : DeferredAction} {id : String}
    (hscheduled : (Command.call (.scheduleTimer action)).run env s = (.ok id, s₁))
    (hfresh : ∀ n, s.timerCount < n → env.ids.timer n ≠ id) (steps : List EngineStep)
    (hnames : ∀ e ∈ steps, ¬ e.Names id) (hrange : ∀ e ∈ steps, e.InRange) :
    let run := EngineStep.runAll env steps s₁
    let tally := Tally.of id run.1
    tally.executed ≤ 1 ∧ tally.acquired ≤ 3 ∧
      ((∃ j, run.2.jobs.get? id = some j ∧ j.handlerType = action.transition.handlerType ∧
          j.handlerConfiguration = some action.configuration ∧ j.retries.toNat ≤ 3 ∧
          tally.failed = 3 - j.retries.toNat ∧ tally.executed = 0) ∨
        (run.2.jobs.get? id = none ∧ tally.executed = 1 ∧ tally.failed < 3 ∧
          ∀ later : List EngineStep, (∀ e ∈ later, ¬ e.Names id) → (∀ e ∈ later, e.InRange) →
            ∀ p ∈ (EngineStep.runAll env later run.2).1, p.Omits id)) := by
  intro run tally
  obtain ⟨hstored, hcount⟩ := run_scheduleTimer henv hscheduled
  have hkeyed : s₁.jobs.KeyedBy Job.id := by
    have hlater := (Stores.Later.keeps env).run (Command.call (.scheduleTimer action)) s
    rw [hscheduled] at hlater
    exact hlater.jobs hs
  have hids : env.ids.Avoids id s₁ := by
    intro n hn
    rw [hcount] at hn
    exact hfresh n hn
  have hstart : RetryAccount action (s₁.jobs.get? id) ⟨0, 0, 0⟩ := by
    rw [hstored]
    exact .waiting rfl rfl rfl
  have haccount : RetryAccount action (run.2.jobs.get? id) (.add ⟨0, 0, 0⟩ tally) :=
    EngineStep.runAll_account henv steps hnames hrange hkeyed hids hstart
  have hlater : s₁.Later run.2 := EngineStep.later_runAll env steps s₁
  have homits := fun hnone later hnames' hrange' =>
    EngineStep.runAll_omits henv later hnames' hrange' (hlater.jobs hkeyed)
      (fun n hn => hids n (Nat.le_trans hlater.timerCount hn)) hnone
  rw [Tally.zero_add] at haccount
  generalize run.2.jobs.get? id = stored at haccount homits
  generalize tally = t at haccount
  cases haccount with
  | @waiting j n htype hconfiguration hretries =>
    refine ⟨Nat.zero_le _, by show n ≤ 3; omega, .inl ⟨j, rfl, htype, hconfiguration, ?_, ?_, rfl⟩⟩
    · omega
    · show n = _
      omega
  | @done n hn => exact ⟨Nat.le_refl _, hn, .inr ⟨rfl, rfl, hn, homits rfl⟩⟩

/-- the first pass finds no job definition; once there is one, the second pass, a nanosecond later,
suspends it -/
theorem deferred_action_retry_account_late :
    let env : Environment :=
      { ids := ⟨fun n => if n = 0 then "a" else "b", fun _ => "entry", fun _ => "operation"⟩ }
    let c : CommandContext := { actor := none, level := .full }
    let x : TimerExecutor := { handlers := [.suspend], retryWait := ⟨1⟩ }
    let action : DeferredAction :=
      ⟨.epoch, .suspend, (TimerConfiguration.mk ⟨.jobDefinitionId, "d"⟩ false).encode⟩
    let d : JobDefinition := ⟨"d", "order:1", "order", none, "message", .active⟩
    let s₁ : Stores := Stores.addTimer {} "a" action
    let steps : List EngineStep :=
      [.pass x c .epoch 5, .call (.saveJobDefinition d), .pass x c ⟨0, 1, by decide⟩ 5]
    let run := EngineStep.runAll env steps s₁
    env.Reliable ∧ (Command.call (.scheduleTimer action)).run env {} = (.ok "a", s₁) ∧
      (∀ e ∈ steps, ¬ e.Names "a" ∧ e.InRange) ∧ Tally.of "a" run.1 = ⟨2, 1, 1⟩ ∧
      run.2.jobs.get? "a" = none ∧
      ∀ later : List EngineStep, (∀ e ∈ later, ¬ e.Names "a") → (∀ e ∈ later, e.InRange) →
        ∀ p ∈ (EngineStep.runAll env later run.2).1, p.Omits "a" := by
  intro env c x action d s₁ steps run
  have henv : env.Reliable := ⟨fun _ => rfl, rfl⟩
  have hfresh : ∀ n, 0 < n → env.ids.timer n ≠ "a" := by
    intro n hn
    show (if n = 0 then "a" else "b") ≠ "a"
    rw [if_neg (by omega)]
    decide
  have hnames : ∀ e ∈ steps, ¬ e.Names "a" := by
    simp [steps, EngineStep.Names, Call.Names]
  have hrange : ∀ e ∈ steps, e.InRange := by
    have hfirst : Instant.add? .epoch x.retryWait ≠ none := by decide
    have hlast : Instant.add? ⟨0, 1, by decide⟩ x.retryWait ≠ none := by decide
    simp [steps, EngineStep.InRange, hfirst, hlast]
  have htally : Tally.of "a" run.1 = ⟨2, 1, 1⟩ := by
    simp +zetaDelta only
    decide +kernel
  have hscheduled : (Command.call (.scheduleTimer action)).run env {} = (.ok "a", s₁) := rfl
  obtain ⟨-, -, ⟨j, -, -, -, -, -, hzero⟩ | ⟨hgone, -, -, homits⟩⟩ :=
    deferred_action_retry_account henv (EngineStep.wellKeyed_runAll env []).jobs hscheduled hfresh
      steps hnames hrange
  · have hone : (Tally.of "a" run.1).executed = 0 := hzero
    rw [htally] at hone
    cases hone
  · exact ⟨henv, hscheduled, fun e he => ⟨hnames e he, hrange e he⟩, htally, hgone, homits⟩

end JobSuspension
