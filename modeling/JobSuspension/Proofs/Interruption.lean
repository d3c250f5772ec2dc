import JobSuspension.Proofs.RetryAccount

/-!
# Passes whose calls fail

A timer is deleted after its handler succeeded, and a failure is recorded after its handler failed;
nothing else takes a timer out of the stores or spends a retry.  So a pass can be cut short by its
own calls anywhere: what it has settled stays settled, and everything else is still there.

* `Attempt.SettledIn`, `Attempt.StoppedBy`   how an attempt ends;
* `TimerExecutor.settle_cases`      there is no other end;
* `Attempt.Leads`                   the attempts of a batch, one after the other;
* `TimerExecutor.BatchEnd`, `TimerExecutor.settleAll_end`   how far a batch gets;
* `TimerExecutor.JobFate`           what a pass can do to a job;
* `interrupted_pass_loses_no_timer` a whole pass.
-/

namespace JobSuspension

/-! ## the ends of an attempt -/

namespace Attempt

variable (x : TimerExecutor) (env : Environment) (c : CommandContext) (now retryAt : Instant)

/-- what the handler of the timer returns, if it has one -/
def handled (a : Attempt) : Option (Except EngineError Unit) :=
  (x.handler? a.timer.handlerType).map fun t => ((handleTimer c t a.timer).run env a.before).1

/-- what is left of a timer that was settled -/
inductive SettledIn (a : Attempt) : Option Job → Prop where
  | deleted (hhandled : a.handled x env c = some (.ok ())) (hcall : env.fault .deleteJob = none) :
      SettledIn a none
  | postponed {e : EngineError} (hhandled : a.handled x env c = some (.error e))
      (hcall : env.fault .recordJobFailure = none) (state : SuspensionState) :
      SettledIn a (some ((a.timer.withState state).withFailure e.message retryAt))

/-- the error that keeps a timer from being settled -/
inductive StoppedBy (a : Attempt) (e : EngineError) : Prop where
  | undeleted (hhandled : a.handled x env c = some (.ok ()))
      (hcall : env.fault .deleteJob = some e)
  | unrecorded {cause : EngineError} (hhandled : a.handled x env c = some (.error cause))
      (hcall : env.fault .recordJobFailure = some e)

/-- the attempts lead from the first stores to the last ones, each by settling its timer -/
inductive Leads : List Attempt → Stores → Stores → Prop where
  | nil (s : Stores) : Leads [] s s
  | cons {a : Attempt} {l : List Attempt} {s' : Stores}
      (ha : a.after = (x.settle env c now a.timer a.before).2) (hl : Leads l a.after s') :
      Leads (a :: l) a.before s'

variable {x env c retryAt}

theorem SettledIn.spares {a : Attempt} {s s' : Stores} {id : String}
    (h : a.SettledIn x env c retryAt (s.jobs.get? id)) (hspares : s.Spares id s') :
    a.SettledIn x env c retryAt (s'.jobs.get? id) := by
  obtain ⟨state, hstate⟩ := hspares
  rw [hstate]
  generalize s.jobs.get? id = left at h
  cases h with
  | deleted hhandled hcall => exact .deleted hhandled hcall
  | @postponed e hhandled hcall state' => exact .postponed hhandled hcall (state _)

end Attempt

namespace TimerExecutor

variable {x : TimerExecutor} {env : Environment} {c : CommandContext} {now retryAt : Instant}

section
variable (env : Environment) {s : Stores} {timer : Job} {state : SuspensionState}
  (hj : s.jobs.get? timer.id = some (timer.withState state))
include hj

theorem step_deleteJob :
    (∃ e, env.fault .deleteJob = some e ∧
        deleteExecuted env timer s = (.error (.refused e), s)) ∨
      (env.fault .deleteJob = none ∧
        deleteExecuted env timer s = (.ok .executed, s.removeJob timer.id)) := by
  unfold deleteExecuted step
  rw [Command.run_bind, Command.call, Command.run_next, Call.answer]
  cases hfault : env.fault .deleteJob with
  | some e => exact .inl ⟨e, rfl, by simp only [Call.kind, hfault]⟩
  | none => exact .inr ⟨rfl, by simp only [Call.kind, hfault, Call.perform, hj]; rfl⟩

theorem step_recordFailure (hretry : now.add? x.retryWait = some retryAt)
    (cause : EngineError) :
    (∃ e, env.fault .recordJobFailure = some e ∧
        x.recordFailure env now timer cause s = (.error (.refused e), s)) ∨
      (env.fault .recordJobFailure = none ∧ ∃ o,
        x.recordFailure env now timer cause s = (.ok o, { s with
          jobs := s.jobs.insert timer.id
            ((timer.withState state).withFailure cause.message retryAt) })) := by
  unfold recordFailure step
  rw [hretry]
  simp only
  rw [Command.run_bind, Command.call, Command.run_next, Call.answer]
  cases hfault : env.fault .recordJobFailure with
  | some e => exact .inl ⟨e, rfl, by simp only [Call.kind, hfault]⟩
  | none => exact .inr ⟨rfl, _, by simp only [Call.kind, hfault, Call.perform, hj]; rfl⟩

end

/-- an attempt of a timer that is stored settles it, or is stopped and leaves it where it was -/
theorem settle_cases (hretry : now.add? x.retryWait = some retryAt) {s s' : Stores}
    {timer : Job} {t : Transition} (ht : x.handler? timer.handlerType = some t)
    {state : SuspensionState} (hj : s.jobs.get? timer.id = some (timer.withState state))
    {outcome : Except PassError Settlement} (h : x.settle env c now timer s = (outcome, s')) :
    ((∃ o, outcome = .ok o) ∧
        Attempt.SettledIn x env c retryAt ⟨timer, s, s'⟩ (s'.jobs.get? timer.id)) ∨
      ∃ e, outcome = .error (.refused e) ∧ Attempt.StoppedBy x env c ⟨timer, s, s'⟩ e ∧
        ∃ state, s'.jobs.get? timer.id = some (timer.withState state) := by
  have hhandled : Attempt.handled x env c ⟨timer, s, s'⟩ =
      some ((handleTimer c t timer).run env s).1 := by
    unfold Attempt.handled
    rw [ht]
    rfl
  -- the timer is still stored when its handler has run
  have hhandler := (Stores.Spares.keepsOn env timer.id).run
    ((asks_handleTimer c t timer).mono fun _ h => h.ofChange.sparesJob timer.id) s
  obtain ⟨state', hj'⟩ := hhandler.exists_of_some hj
  unfold settle at h
  rw [ht] at h
  simp only at h
  cases hrun : (handleTimer c t timer).run env s with
  | mk returned s₁ =>
    rw [hrun] at h hhandled hj'
    cases returned with
    | ok _ =>
      rcases step_deleteJob env hj' with ⟨e, hfault, hdelete⟩ | ⟨hfault, hdelete⟩
      · obtain ⟨rfl, rfl⟩ := Prod.mk.inj (h.symm.trans hdelete)
        exact .inr ⟨e, rfl, .undeleted hhandled hfault, state', hj'⟩
      · obtain ⟨rfl, rfl⟩ := Prod.mk.inj (h.symm.trans hdelete)
        refine .inl ⟨⟨_, rfl⟩, ?_⟩
        rw [show (s₁.removeJob timer.id).jobs.get? timer.id = none from
          (Table.get?_erase _ _ _).trans (if_pos rfl)]
        exact .deleted hhandled hfault
    | error cause =>
      rcases step_recordFailure env hj' hretry cause with
        ⟨e, hfault, hrecord⟩ | ⟨hfault, o, hrecord⟩
      · obtain ⟨rfl, rfl⟩ := Prod.mk.inj (h.symm.trans hrecord)
        exact .inr ⟨e, rfl, .unrecorded hhandled hfault, state', hj'⟩
      · obtain ⟨rfl, rfl⟩ := Prod.mk.inj (h.symm.trans hrecord)
        refine .inl ⟨⟨_, rfl⟩, ?_⟩
        rw [show (s₁.jobs.insert _ _).get? timer.id = some _ from
          (Table.get?_insert _ _ _ _).trans (if_pos rfl)]
        exact .postponed hhandled hfault state'

/-! ## batches -/

/-- a job that is not in the batch -/
theorem settleAll_spares (x : TimerExecutor) (env : Environment) (c : CommandContext)
    (now : Instant) {timers : List Job} {id : String} (hid : id ∉ timers.map Job.id) (s : Stores) :
    s.Spares id (x.settleAll env c now timers s).2 :=
  (Stores.Spares.keepsOn env id).settleAll x c now
    (fun _ ht _ h => h.sparesJob fun e => hid (e ▸ List.mem_map_of_mem ht)) s

/-- the timers that follow stay stored, apart from their states as they were acquired -/
theorem settle_awaits (x : TimerExecutor) (env : Environment) (c : CommandContext) (now : Instant)
    {timer : Job} {timers : List Job} {s : Stores} (hw : s.Awaits (timer :: timers)) :
    (x.settle env c now timer s).2.Awaits timers := by
  obtain ⟨hnd, hstored⟩ := hw
  rw [List.map_cons, List.nodup_cons] at hnd
  refine ⟨hnd.2, fun next hn => ?_⟩
  obtain ⟨state, hst⟩ := hstored next (List.mem_cons_of_mem _ hn)
  have hne : timer.id ≠ next.id := fun e => hnd.1 (e ▸ List.mem_map_of_mem hn)
  have hspares := (Stores.Spares.keepsOn env next.id).settle x c now
    (fun _ h => h.sparesJob hne) s
  exact hspares.exists_of_some hst

theorem attempts_lead (x : TimerExecutor) (env : Environment) (c : CommandContext) (now : Instant)
    (timers : List Job) (s : Stores) :
    Attempt.Leads x env c now (x.attempts env c now timers s) s
      (x.settleAll env c now timers s).2 := by
  induction timers generalizing s with
  | nil => exact .nil s
  | cons timer timers ih =>
    cases h : x.settle env c now timer s with
    | mk outcome s' =>
      have ha : s' = (x.settle env c now timer s).2 := by rw [h]
      cases outcome with
      | error e =>
        rw [attempts_cons_of_error h, settleAll_cons_of_error h]
        exact .cons (a := ⟨timer, s, s'⟩) ha (.nil s')
      | ok o =>
        rw [attempts_cons h, settleAll_cons_of_ok h]
        exact .cons (a := ⟨timer, s, s'⟩) ha (ih s')

variable (x env c retryAt)

/-- how far a pass gets with the timers it acquired -/
inductive BatchEnd {α : Type} (timers : List Job) :
    List Attempt → Except PassError α × Stores → Prop where
  | completed {attempts : List Attempt} {r : α} {s' : Stores}
      (htimers : attempts.map Attempt.timer = timers)
      (hsettled : ∀ a ∈ attempts, a.SettledIn x env c retryAt (s'.jobs.get? a.timer.id)) :
      BatchEnd timers attempts (.ok r, s')
  | stopped {l : List Attempt} {a : Attempt} {later : List Job} {e : EngineError}
      (htimers : timers = l.map Attempt.timer ++ a.timer :: later)
      (hsettled : ∀ b ∈ l, b.SettledIn x env c retryAt (a.after.jobs.get? b.timer.id))
      (hstopped : a.StoppedBy x env c e)
      (hleft : ∀ timer ∈ a.timer :: later,
        ∃ state, a.after.jobs.get? timer.id = some (timer.withState state)) :
      BatchEnd timers (l ++ [a]) (.error (.refused e), a.after)

variable {x env c retryAt}

theorem BatchEnd.cons {α β : Type} {timers : List Job} {l : List Attempt}
    {result : Except PassError α × Stores} (h : BatchEnd x env c retryAt timers l result)
    {a : Attempt} (ha : a.SettledIn x env c retryAt (a.after.jobs.get? a.timer.id))
    (hspares : a.after.Spares a.timer.id result.2) (f : α → β) :
    BatchEnd x env c retryAt (a.timer :: timers) (a :: l) (result.1.map f, result.2) := by
  have hleft := ha.spares hspares
  cases h with
  | completed htimers hsettled =>
    exact .completed (congrArg (a.timer :: ·) htimers)
      (List.forall_mem_cons.mpr ⟨hleft, hsettled⟩)
  | @stopped settled b later e htimers hsettled hstopped hb =>
    exact .stopped (l := a :: settled) (congrArg (a.timer :: ·) htimers)
      (List.forall_mem_cons.mpr ⟨hleft, hsettled⟩) hstopped hb

theorem settleAll_end (env : Environment) (c : CommandContext)
    (hretry : now.add? x.retryWait = some retryAt) (timers : List Job)
    (htypes : ∀ timer ∈ timers, ∃ t, x.handler? timer.handlerType = some t) {s : Stores}
    (hw : s.Awaits timers) :
    BatchEnd x env c retryAt timers (x.attempts env c now timers s)
      (x.settleAll env c now timers s) := by
  induction timers generalizing s with
  | nil => exact .completed rfl fun a ha => absurd ha List.not_mem_nil
  | cons timer timers ih =>
    obtain ⟨⟨t, ht⟩, htypes⟩ := List.forall_mem_cons.mp htypes
    obtain ⟨state, hj⟩ := hw.2 timer List.mem_cons_self
    have hnotin : timer.id ∉ timers.map Job.id := (List.nodup_cons.mp hw.1).1
    have hothers := settle_awaits x env c now hw
    cases h : x.settle env c now timer s with
    | mk outcome s' =>
      rw [h] at hothers
      rcases settle_cases hretry ht hj h with ⟨⟨o, rfl⟩, hsettled⟩ | ⟨e, rfl, hstopped, hleft⟩
      · rw [attempts_cons h, settleAll_cons_of_ok h]
        exact (ih htypes hothers).cons hsettled (settleAll_spares x env c now hnotin s') _
      · rw [attempts_cons_of_error h, settleAll_cons_of_error h]
        refine .stopped (l := []) (a := ⟨timer, s, s'⟩) rfl
          (fun b hb => absurd hb List.not_mem_nil) hstopped ?_
        exact List.forall_mem_cons.mpr ⟨hleft, hothers.2⟩

theorem BatchEnd.map {α β : Type} {timers : List Job} {l : List Attempt}
    {result : Except PassError α × Stores} (h : BatchEnd x env c retryAt timers l result)
    (f : α → β) : BatchEnd x env c retryAt timers l (result.1.map f, result.2) := by
  cases h with
  | completed htimers hsettled => exact .completed htimers hsettled
  | stopped htimers hsettled hstopped hleft => exact .stopped htimers hsettled hstopped hleft

/-- the attempts are those of the first timers of the batch -/
theorem BatchEnd.timers_prefix {α : Type} {timers : List Job} {l : List Attempt}
    {result : Except PassError α × Stores} (h : BatchEnd x env c retryAt timers l result) :
    l.map Attempt.timer <+: timers := by
  cases h with
  | completed htimers => exact ⟨[], by rw [htimers, List.append_nil]⟩
  | @stopped settled a later e htimers =>
    exact ⟨later, by rw [htimers, List.map_append, List.append_assoc]; rfl⟩

/-! ## passes -/

/-- what a pass can do to a job, given its attempts -/
inductive JobFate (x : TimerExecutor) (env : Environment) (c : CommandContext) (retryAt : Instant)
    (attempts : List Attempt) : Option Job → Option Job → Prop where
  | absent : JobFate x env c retryAt attempts none none
  | kept {j : Job} (state : SuspensionState) :
      JobFate x env c retryAt attempts (some j) (some (j.withState state))
  | settled {a : Attempt} (ha : a ∈ attempts) {left : Option Job}
      (h : a.SettledIn x env c retryAt left) :
      JobFate x env c retryAt attempts (some a.timer) left

inductive PassEnd (x : TimerExecutor) (env : Environment) (c : CommandContext)
    (now retryAt : Instant) (limit : Nat) (s : Stores) :
    List Attempt → Except PassError PassReport × Stores → Prop where
  | notAcquired {e : EngineError} (hcall : env.fault .acquireDueTimers = some e) :
      PassEnd x env c now retryAt limit s [] (.error (.refused e), s)
  | acquired (hcall : env.fault .acquireDueTimers = none) {attempts : List Attempt}
      {result : Except PassError PassReport × Stores}
      (h : BatchEnd x env c retryAt (Job.firstDue s.jobs.values now x.handlerTypes limit) attempts
        result) :
      PassEnd x env c now retryAt limit s attempts result

theorem JobFate.of_spares {attempts : List Attempt} {s s' : Stores} {id : String}
    (h : s.Spares id s') :
    JobFate x env c retryAt attempts (s.jobs.get? id) (s'.jobs.get? id) := by
  obtain ⟨state, hstate⟩ := h
  rw [hstate]
  cases s.jobs.get? id with
  | none => exact .absent
  | some j => exact .kept (state j)

/-- every timer of a batch that is stored as it was acquired -/
theorem BatchEnd.jobFate {α : Type} {timers : List Job} {attempts : List Attempt}
    {result : Except PassError α × Stores} (h : BatchEnd x env c retryAt timers attempts result)
    {timer : Job} (ht : timer ∈ timers) :
    JobFate x env c retryAt attempts (some timer) (result.2.jobs.get? timer.id) := by
  cases h with
  | completed htimers hsettled =>
    subst htimers
    obtain ⟨a, ha, rfl⟩ := List.mem_map.mp ht
    exact .settled ha (hsettled a ha)
  | @stopped settled a later e htimers hsettled hstopped hleft =>
    subst htimers
    rcases List.mem_append.mp ht with ht | ht
    · obtain ⟨b, hb, rfl⟩ := List.mem_map.mp ht
      exact .settled (List.mem_append_left _ hb) (hsettled b hb)
    · obtain ⟨state, hstate⟩ := hleft timer ht
      rw [hstate]
      exact .kept state

theorem acquire_cases (henv : env.acquiredTypes = none) (x : TimerExecutor) (now : Instant)
    (s : Stores) {limit : Nat} (hlimit : 1 ≤ limit) :
    (∃ e, env.fault .acquireDueTimers = some e ∧
        step env (x.acquire now limit) s = (.error (.refused e), s)) ∨
      (env.fault .acquireDueTimers = none ∧ step env (x.acquire now limit) s =
        (.ok (Job.firstDue s.jobs.values now x.handlerTypes limit), s)) := by
  unfold step acquire
  rw [if_neg (by omega), Command.call, Command.run_next, Call.answer]
  cases hfault : env.fault .acquireDueTimers with
  | some e => exact .inl ⟨e, rfl, by simp only [Call.kind, hfault]⟩
  | none =>
    refine .inr ⟨rfl, ?_⟩
    simp only [Call.kind, hfault, Call.perform, henv, Option.getD_none]
    rfl

end TimerExecutor

/-- **An interrupted pass loses no timer.**  Whatever calls fail, a job is gone only if its handler
succeeded, and has one retry less only if its handler failed.  A pass ends early only by a call of
its own: it cannot acquire timers, delete one or record a failure.  The timers before that one are
settled, and the others have changed at most in their states, since no handler ran for them. -/
theorem interrupted_pass_loses_no_timer {env : Environment} (henv : env.acquiredTypes = none)
    {s : Stores} (hs : s.jobs.KeyedBy Job.id) (x : TimerExecutor) (c : CommandContext)
    {now retryAt : Instant} (hretry : now.add? x.retryWait = some retryAt) {limit : Nat}
    (hlimit : 1 ≤ limit) :
    let attempts := x.passAttempts env c now limit s
    let result := x.runPass env c now limit s
    (attempts.map (·.timer.id)).Nodup ∧ Attempt.Leads x env c now attempts s result.2 ∧
      TimerExecutor.PassEnd x env c now retryAt limit s attempts result ∧
      ∀ id, TimerExecutor.JobFate x env c retryAt attempts (s.jobs.get? id)
        (result.2.jobs.get? id) := by
  intro attempts result
  rcases TimerExecutor.acquire_cases henv x now s hlimit with
    ⟨e, hfault, hacquire⟩ | ⟨hfault, hacquire⟩
  · have hattempts : attempts = [] := by
      show x.passAttempts env c now limit s = _
      rw [TimerExecutor.passAttempts, hacquire]
    have hresult : result = (.error (.refused e), s) := by
      show x.runPass env c now limit s = _
      rw [TimerExecutor.runPass, hacquire]
    rw [hattempts, hresult]
    exact ⟨List.nodup_nil, .nil s, .notAcquired hfault, fun id => .of_spares (.of_eq rfl)⟩
  · let timers := Job.firstDue s.jobs.values now x.handlerTypes limit
    have hattempts : attempts = x.attempts env c now timers s := by
      show x.passAttempts env c now limit s = _
      rw [TimerExecutor.passAttempts, hacquire]
    have hresult : result = ((x.settleAll env c now timers s).1.map .ofSettlements,
        (x.settleAll env c now timers s).2) := TimerExecutor.runPass_eq hacquire
    have hw : s.Awaits timers := Stores.awaits_firstDue hs now x.handlerTypes limit
    have hend := (TimerExecutor.settleAll_end env c hretry timers (fun timer ht =>
      TimerExecutor.exists_handler? (Job.mem_firstDue ht).2) hw).map PassReport.ofSettlements
    rw [← hattempts, ← hresult] at hend
    refine ⟨?_, ?_, .acquired hfault hend, fun id => ?_⟩
    · have hsub := hend.timers_prefix.sublist.map Job.id
      rw [List.map_map] at hsub
      exact hsub.nodup hw.1
    · rw [hattempts, hresult]
      exact TimerExecutor.attempts_lead x env c now timers s
    · by_cases hid : id ∈ timers.map Job.id
      · obtain ⟨timer, ht, rfl⟩ := List.mem_map.mp hid
        rw [Stores.get?_of_mem_firstDue hs ht]
        exact hend.jobFate ht
      · rw [hresult]
        exact .of_spares (TimerExecutor.settleAll_spares x env c now hid s)

/-- the first timer suspends the second and cannot be deleted: it stays, and the second is not
attempted -/
theorem interrupted_pass_loses_no_timer_undeleted :
    let env : Environment :=
      { ids := ⟨fun _ => "timer", fun _ => "entry", fun _ => "operation"⟩
        fault := fun k => if k = .deleteJob then some (.noJob "a") else none }
    let c : CommandContext := { actor := none, level := .full }
    let x : TimerExecutor := { handlers := Transition.all, retryWait := ⟨1500000⟩ }
    let a : Job :=
      { id := "a", handlerType := "suspend-job-definition", dueDate := some .epoch
        handlerConfiguration :=
          some (TimerConfiguration.mk ⟨.processDefinitionKey, "order"⟩ true).encode }
    let b : Job :=
      { id := "b", handlerType := "activate-job-definition", dueDate := some .epoch
        processDefinitionKey := some "order" }
    let s : Stores := (Stores.putJob {} a).putJob b
    let retryAt : Instant := ⟨0, 1500000, by decide⟩
    let attempts := x.passAttempts env c .epoch 2 s
    let result := x.runPass env c .epoch 2 s
    env.acquiredTypes = none ∧ s.jobs.KeyedBy Job.id ∧
      Instant.add? .epoch x.retryWait = some retryAt ∧
      TimerExecutor.PassEnd x env c .epoch retryAt 2 s attempts result ∧
      (∀ id, TimerExecutor.JobFate x env c retryAt attempts (s.jobs.get? id)
        (result.2.jobs.get? id)) ∧
      attempts.map (·.timer.id) = ["a"] ∧ (result.2.jobs.get? "a").map Job.retries = some 3 ∧
      (result.2.jobs.get? "b").map Job.state = some .suspended := by
  intro env c x a b s retryAt attempts result
  have henv : env.acquiredTypes = none := rfl
  have hs : s.jobs.KeyedBy Job.id := ((Stores.WellKeyed.empty.putJob a).putJob b).jobs
  have hretry : Instant.add? .epoch x.retryWait = some retryAt := by decide
  obtain ⟨-, -, hend, hfate⟩ :=
    interrupted_pass_loses_no_timer henv hs x c hretry (by decide : 1 ≤ 2)
  have hvalues : s.jobs.values = [a, b] := by
    simp +zetaDelta only
    decide +kernel
  have hdue : Job.firstDue s.jobs.values .epoch x.handlerTypes 2 = [a, b] := by
    have ha : Job.isWanted x.handlerTypes .epoch a = true := by decide
    have hb : Job.isWanted x.handlerTypes .epoch b = true := by decide
    have hab : Job.dueBefore a b = true := by decide
    rw [hvalues]
    simp [Job.firstDue, ha, hb, hab, List.mergeSort, List.MergeSort.Internal.splitInTwo]
  have hacquire : TimerExecutor.step env (x.acquire .epoch 2) s = (.ok [a, b], s) := by
    rcases TimerExecutor.acquire_cases henv x .epoch s
        (by decide : 1 ≤ 2) with ⟨e, hfault, -⟩ | ⟨-, h⟩
    · cases hfault
    · rw [h, hdue]
  have hattempts : attempts = x.attempts env c .epoch [a, b] s := by
    show x.passAttempts env c .epoch 2 s = _
    rw [TimerExecutor.passAttempts, hacquire]
  have hresult : result = _ := TimerExecutor.runPass_eq hacquire
  have hids : (x.attempts env c .epoch [a, b] s).map (·.timer.id) = ["a"] := by
    simp +zetaDelta only
    decide +kernel
  have hleft : ((x.settleAll env c .epoch [a, b] s).2.jobs.get? "a").map Job.retries = some 3 ∧
      ((x.settleAll env c .epoch [a, b] s).2.jobs.get? "b").map Job.state = some .suspended := by
    simp +zetaDelta only
    decide +kernel
  rw [← hattempts] at hids
  rw [show (x.settleAll env c .epoch [a, b] s).2 = result.2 by rw [hresult]] at hleft
  exact ⟨henv, hs, hretry, hend, hfate, hids, hleft⟩

end JobSuspension
