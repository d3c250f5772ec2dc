import JobSuspension.Engine.Timers
import JobSuspension.Proofs.Acquisition
import JobSuspension.Proofs.StateChanges

/-!
# Attempts of a timer pass

A pass works on the timers as it acquired them, while the handlers change the stored ones.  What
carries a pass through is that a handler changes nothing of a job but its state: every timer still
to be handled is stored, and apart from its state as it was acquired.

* `Attempt`, `TimerExecutor.attempts`, `TimerExecutor.passAttempts`
                                 the timers a pass handles, with the stores before and after each;
* `settle_of_ok`, `settle_of_error`   settling a stored timer whose handler succeeds or fails;
* `TimerExecutor.SettleStep`     the four things that can become of one timer;
* `TimerExecutor.settle_step`    there are no others;
* `Stores.Awaits s timers`       what carries a pass through;
* `TimerExecutor.of_mem_passAttempts`   what holds of every attempt of a pass.
-/

namespace JobSuspension

/-! ## handlers -/

theorem handleTimer_step {env : Environment} (henv : env.Reliable) {s : Stores} (hs : s.WellKeyed)
    (c : CommandContext) (t : Transition) (timer : Job) :
    ∃ p q, StateStep s t.target p q ((handleTimer c t timer).run env s) := by
  unfold handleTimer
  cases timer.handlerConfiguration with
  | none => exact ⟨fun _ => false, fun _ => false, .refused _⟩
  | some text =>
    simp only [Command.run_bind, Command.run_liftM]
    cases TimerConfiguration.decode text with
    | error e => exact ⟨fun _ => false, fun _ => false, .refused e⟩
    | ok config => exact ⟨_, _, setJobDefinitionState_step henv hs c t rfl⟩

/-! ## settling -/

namespace TimerExecutor

variable (x : TimerExecutor) (env : Environment) (c : CommandContext) (now : Instant)

inductive SettleStep (timer : Job) (s : Stores) : Except PassError Settlement × Stores → Prop where
  | skipped (ht : x.handler? timer.handlerType = none) : SettleStep timer s (.ok .skipped, s)
  | executed {t : Transition} {s' : Stores} (ht : x.handler? timer.handlerType = some t)
      (hrun : (handleTimer c t timer).run env s = (.ok (), s')) :
      SettleStep timer s (.ok .executed, s'.removeJob timer.id)
  | failed {t : Transition} {e : EngineError} {retryAt : Instant} {j : Job}
      (ht : x.handler? timer.handlerType = some t)
      (hrun : (handleTimer c t timer).run env s = (.error e, s))
      (hretry : now.add? x.retryWait = some retryAt)
      (hj : s.jobs.get? timer.id = some j) :
      SettleStep timer s
        (.ok (.failed ⟨timer.id, j.handlerType, (j.withFailure e.message retryAt).retries,
          e.message, retryAt⟩),
          { s with jobs := s.jobs.insert timer.id (j.withFailure e.message retryAt) })
  | outOfRange {t : Transition} {e : EngineError} (ht : x.handler? timer.handlerType = some t)
      (hrun : (handleTimer c t timer).run env s = (.error e, s))
      (hretry : now.add? x.retryWait = none) :
      SettleStep timer s (.error .retryOutOfRange, s)

variable {x env c now} {s : Stores}

theorem step_acquire (henv : env.Reliable) (x : TimerExecutor) (now : Instant) (s : Stores)
    {limit : Nat} (hlimit : 1 ≤ limit) :
    step env (x.acquire now limit) s =
      (.ok (Job.firstDue s.jobs.values now x.handlerTypes limit), s) := by
  unfold step acquire
  rw [if_neg (by omega), Command.run_call henv]
  simp only [Call.perform, henv.acquiredTypes, Option.getD_none]

/-- nothing is acquired in batches of none -/
theorem one_le_of_acquire {limit : Nat} {timers : List Job} {s' : Stores}
    (h : step env (x.acquire now limit) s = (.ok timers, s')) : 1 ≤ limit := by
  cases limit with
  | zero => cases h
  | succ n => exact Nat.succ_pos n

theorem one_le_of_runPass {limit : Nat} {report : PassReport} {s' : Stores}
    (h : x.runPass env c now limit s = (.ok report, s')) : 1 ≤ limit := by
  cases limit with
  | zero => cases h
  | succ n => exact Nat.succ_pos n

theorem run_deleteJob (henv : env.Reliable) {id : String} {j : Job}
    (hj : s.jobs.get? id = some j) :
    (Command.call (.deleteJob id)).run env s = (.ok (), s.removeJob id) := by
  rw [Command.run_call henv]
  simp only [Call.perform, hj]

theorem run_recordJobFailure (henv : env.Reliable) {id message : String} {retryAt : Instant}
    {j : Job} (hj : s.jobs.get? id = some j) :
    (Command.call (.recordJobFailure id message retryAt)).run env s =
      (.ok (j.withFailure message retryAt),
        { s with jobs := s.jobs.insert id (j.withFailure message retryAt) }) := by
  rw [Command.run_call henv]
  simp only [Call.perform, hj]

theorem settle_of_ok (henv : env.Reliable) {timer j : Job} {t : Transition}
    (ht : x.handler? timer.handlerType = some t) {s' : Stores}
    (hrun : (handleTimer c t timer).run env s = (.ok (), s'))
    (hj : s'.jobs.get? timer.id = some j) :
    x.settle env c now timer s = (.ok .executed, s'.removeJob timer.id) := by
  unfold settle
  rw [ht]
  simp only [hrun, deleteExecuted, step, Command.run_bind, run_deleteJob henv hj, Command.run_pure]

theorem settle_of_error (henv : env.Reliable) {timer j : Job} {t : Transition}
    (ht : x.handler? timer.handlerType = some t) {e : EngineError} {s' : Stores}
    (hrun : (handleTimer c t timer).run env s = (.error e, s')) {retryAt : Instant}
    (hretry : now.add? x.retryWait = some retryAt)
    (hj : s'.jobs.get? timer.id = some j) :
    x.settle env c now timer s =
      (.ok (.failed ⟨j.id, j.handlerType, (j.withFailure e.message retryAt).retries, e.message,
        retryAt⟩),
        { s' with jobs := s'.jobs.insert timer.id (j.withFailure e.message retryAt) }) := by
  unfold settle
  rw [ht]
  simp only [hrun, recordFailure, hretry, step, Command.run_bind, run_recordJobFailure henv hj,
    Command.run_pure]
  rfl

/-- a stored timer is settled in one of the four ways -/
theorem settle_step (x : TimerExecutor) (henv : env.Reliable) (hs : s.WellKeyed)
    (c : CommandContext) (now : Instant) {timer : Job} {j : Job} (hj : s.jobs.get? timer.id = some j) :
    SettleStep x env c now timer s (x.settle env c now timer s) := by
  cases ht : x.handler? timer.handlerType with
  | none =>
    unfold settle
    rw [ht]
    exact .skipped ht
  | some t =>
    obtain ⟨p, q, hstep⟩ := handleTimer_step henv hs c t timer
    cases hrun : (handleTimer c t timer).run env s with
    | mk outcome s' =>
      rw [hrun] at hstep
      cases hstep with
      | refused e =>
        cases hretry : now.add? x.retryWait with
        | none =>
          unfold settle
          rw [ht]
          simp only [hrun, recordFailure, hretry]
          exact .outOfRange ht hrun hretry
        | some retryAt =>
          have hid : j.id = timer.id := hs.jobs timer.id j hj
          rw [settle_of_error henv ht hrun hretry hj, hid]
          exact .failed ht hrun hretry hj
      | changed hchanged =>
        obtain ⟨j', hj'⟩ : ∃ j', s'.jobs.get? timer.id = some j' := by
          rw [hchanged.get?_jobs, hj]
          exact ⟨_, rfl⟩
        rw [settle_of_ok henv ht hrun hj']
        exact .executed ht hrun

theorem SettleStep.wellKeyed (henv : env.Reliable) (hs : s.WellKeyed) {timer : Job}
    {r : Except PassError Settlement × Stores} (h : SettleStep x env c now timer s r) :
    r.2.WellKeyed := by
  cases h with
  | skipped => exact hs
  | outOfRange => exact hs
  | failed ht hrun hretry hj => exact hs.withFailure hj _ _
  | @executed t s' ht hrun =>
    obtain ⟨p, q, hstep⟩ := handleTimer_step henv hs c t timer
    rw [hrun] at hstep
    exact hstep.changed_of_ok.wellKeyed.removeJob _

/-- a job that is not the timer keeps everything but its state -/
theorem SettleStep.get?_of_ne (henv : env.Reliable) (hs : s.WellKeyed) {timer : Job}
    {r : Except PassError Settlement × Stores} (h : SettleStep x env c now timer s r)
    {id : String} (hid : id ≠ timer.id) :
    r.2.jobs.get? id = s.jobs.get? id ∨
      ∃ j state, s.jobs.get? id = some j ∧ r.2.jobs.get? id = some (j.withState state) := by
  cases h with
  | skipped => exact .inl rfl
  | outOfRange => exact .inl rfl
  | failed =>
    left
    show Table.get? (Table.insert _ _ _) _ = _
    rw [Table.get?_insert, if_neg (Ne.symm hid)]
  | @executed t s' ht hrun =>
    obtain ⟨p, q, hstep⟩ := handleTimer_step henv hs c t timer
    rw [hrun] at hstep
    show Table.get? (Table.erase _ _) _ = _ ∨ ∃ _ _, _ ∧ Table.get? (Table.erase _ _) _ = _
    rw [Table.get?_erase, if_neg (Ne.symm hid), hstep.changed_of_ok.get?_jobs]
    cases hj : s.jobs.get? id with
    | none => exact .inl rfl
    | some j =>
      by_cases hq : q j = true
      · exact .inr ⟨j, t.target, rfl, by simp [hq]⟩
      · exact .inl (by simp [hq])

end TimerExecutor

/-! ## attempts -/

structure Attempt where
  timer : Job
  /-- what the handler finds -/
  before : Stores
  /-- what is left once the timer is settled -/
  after : Stores

namespace TimerExecutor

def attempts (x : TimerExecutor) (env : Environment) (c : CommandContext) (now : Instant) :
    List Job → Stores → List Attempt
  | [], _ => []
  | timer :: timers, s =>
    ⟨timer, s, (x.settle env c now timer s).2⟩ ::
      match x.settle env c now timer s with
      | (.ok _, s') => x.attempts env c now timers s'
      | (.error _, _) => []

def passAttempts (x : TimerExecutor) (env : Environment) (c : CommandContext) (now : Instant)
    (limit : Nat) (s : Stores) : List Attempt :=
  match step env (x.acquire now limit) s with
  | (.ok timers, s') => x.attempts env c now timers s'
  | (.error _, _) => []

variable {x : TimerExecutor} {env : Environment} {c : CommandContext} {now : Instant}

section
variable {timers : List Job} {s s' : Stores} {timer : Job}

theorem settleAll_cons_of_ok {o : Settlement} (h : x.settle env c now timer s = (.ok o, s')) :
    x.settleAll env c now (timer :: timers) s =
      ((x.settleAll env c now timers s').1.map (o :: ·), (x.settleAll env c now timers s').2) := by
  rw [settleAll, h]
  simp only
  cases x.settleAll env c now timers s' with
  | mk outcomes s'' => cases outcomes <;> rfl

theorem settleAll_cons_of_error {e : PassError}
    (h : x.settle env c now timer s = (.error e, s')) :
    x.settleAll env c now (timer :: timers) s = (.error e, s') := by
  rw [settleAll, h]

/-- a batch that is settled is settled timer by timer -/
theorem exists_of_settleAll_cons {outcomes : List Settlement}
    (h : x.settleAll env c now (timer :: timers) s = (.ok outcomes, s')) :
    ∃ o s₁ rest, x.settle env c now timer s = (.ok o, s₁) ∧
      x.settleAll env c now timers s₁ = (.ok rest, s') ∧ outcomes = o :: rest := by
  cases hsettle : x.settle env c now timer s with
  | mk outcome s₁ =>
    cases outcome with
    | error e =>
      rw [settleAll_cons_of_error hsettle] at h
      cases h
    | ok o =>
      rw [settleAll_cons_of_ok hsettle] at h
      cases hall : x.settleAll env c now timers s₁ with
      | mk rest s₂ =>
        rw [hall] at h
        cases rest with
        | error e => cases h
        | ok rest =>
          cases h
          exact ⟨o, s₁, rest, rfl, hall, rfl⟩

theorem attempts_cons {o : Settlement} (h : x.settle env c now timer s = (.ok o, s'))
    (timers : List Job) :
    x.attempts env c now (timer :: timers) s =
      ⟨timer, s, s'⟩ :: x.attempts env c now timers s' := by
  rw [attempts, h]

theorem attempts_cons_of_error {e : PassError}
    (h : x.settle env c now timer s = (.error e, s')) :
    x.attempts env c now (timer :: timers) s = [⟨timer, s, s'⟩] := by
  rw [attempts, h]

end

theorem settleAll_snd (timers : List Job) (s : Stores) :
    (x.settleAll env c now timers s).2 =
      ((x.attempts env c now timers s).getLast?.map Attempt.after).getD s := by
  induction timers generalizing s with
  | nil => rfl
  | cons timer timers ih =>
    cases h : x.settle env c now timer s with
    | mk outcome s' =>
      cases outcome with
      | error e =>
        rw [settleAll_cons_of_error h, attempts_cons_of_error h]
        rfl
      | ok o =>
        rw [settleAll_cons_of_ok h, attempts_cons h, ih s', List.getLast?_cons]
        cases (x.attempts env c now timers s').getLast? <;> rfl

theorem runPass_eq {timers : List Job} {limit : Nat} {s : Stores}
    (h : step env (x.acquire now limit) s = (.ok timers, s)) :
    x.runPass env c now limit s =
      ((x.settleAll env c now timers s).1.map .ofSettlements,
        (x.settleAll env c now timers s).2) := by
  rw [runPass, h]
  simp only
  cases x.settleAll env c now timers s with
  | mk outcomes s' => cases outcomes <;> rfl

/-- the attempts end where the pass ends -/
theorem runPass_snd {limit : Nat} {s : Stores} (henv : env.Reliable) :
    (x.runPass env c now limit s).2 =
      ((x.passAttempts env c now limit s).getLast?.map Attempt.after).getD s := by
  rcases Nat.eq_zero_or_pos limit with rfl | hlimit
  · rfl
  · have hacquire := step_acquire henv x now s hlimit
    rw [runPass_eq hacquire, passAttempts, hacquire, settleAll_snd]

end TimerExecutor

/-! ## timers still to be handled -/

def Stores.Awaits (s : Stores) (timers : List Job) : Prop :=
  (timers.map Job.id).Nodup ∧
    ∀ timer ∈ timers, ∃ state, s.jobs.get? timer.id = some (timer.withState state)

/-- what is acquired is stored, each timer under its own id -/
theorem Stores.get?_of_mem_firstDue {s : Stores} (hs : s.jobs.KeyedBy Job.id) {now : Instant}
    {types : List String} {limit : Nat} {timer : Job}
    (h : timer ∈ Job.firstDue s.jobs.values now types limit) :
    s.jobs.get? timer.id = some timer :=
  (Stores.mem_values hs).mp (Job.mem_firstDue h).1

theorem Stores.awaits_firstDue {s : Stores} (hs : s.jobs.KeyedBy Job.id) (now : Instant)
    (types : List String) (limit : Nat) :
    s.Awaits (Job.firstDue s.jobs.values now types limit) :=
  ⟨Job.nodup_firstDue (Stores.nodup_values hs),
    fun timer ht => ⟨timer.state, get?_of_mem_firstDue hs ht⟩⟩

namespace TimerExecutor

variable {x : TimerExecutor} {env : Environment} {c : CommandContext} {now : Instant} {s : Stores}

theorem acquire_awaits (henv : env.Reliable) (hs : s.WellKeyed) {limit : Nat} {timers : List Job}
    {s' : Stores} (h : step env (x.acquire now limit) s = (.ok timers, s')) :
    s' = s ∧ s.Awaits timers := by
  rw [step_acquire henv x now s (one_le_of_acquire h)] at h
  cases h
  exact ⟨rfl, Stores.awaits_firstDue hs.jobs _ _ _⟩

/-- settling the first timer leaves the others waiting -/
theorem SettleStep.awaits (henv : env.Reliable) (hs : s.WellKeyed) {timer : Job}
    {timers : List Job} (hw : s.Awaits (timer :: timers))
    {r : Except PassError Settlement × Stores} (h : SettleStep x env c now timer s r) :
    r.2.Awaits timers := by
  obtain ⟨hnd, hstored⟩ := hw
  rw [List.map_cons, List.nodup_cons] at hnd
  refine ⟨hnd.2, fun next hn => ?_⟩
  obtain ⟨state, hst⟩ := hstored next (List.mem_cons_of_mem _ hn)
  have hne : next.id ≠ timer.id := fun e => hnd.1 (e ▸ List.mem_map_of_mem hn)
  rcases h.get?_of_ne henv hs hne with he | ⟨j, state', hj, he⟩
  · exact ⟨state, he.trans hst⟩
  · rw [hst, Option.some.injEq] at hj
    subst hj
    exact ⟨state', he⟩

theorem of_mem_attempts (henv : env.Reliable) {timers : List Job} {a : Attempt} :
    ∀ {s : Stores}, s.WellKeyed → s.Awaits timers → a ∈ x.attempts env c now timers s →
      a.before.WellKeyed ∧
      (∃ state, a.before.jobs.get? a.timer.id = some (a.timer.withState state)) ∧
      a.after = (x.settle env c now a.timer a.before).2 := by
  induction timers with
  | nil => intro s _ _ ha; exact absurd ha List.not_mem_nil
  | cons timer timers ih =>
    intro s hs hw ha
    obtain ⟨state, hst⟩ := hw.2 timer List.mem_cons_self
    have hstep := x.settle_step henv hs c now hst
    rcases List.mem_cons.mp ha with rfl | ha
    · exact ⟨hs, ⟨state, hst⟩, rfl⟩
    · cases h : x.settle env c now timer s with
      | mk outcome s' =>
        rw [h] at hstep ha
        cases outcome with
        | error e => exact absurd ha List.not_mem_nil
        | ok o => exact ih (hstep.wellKeyed henv hs) (hstep.awaits henv hs hw) ha

/-- **What carries a pass through**: the timer of every attempt is stored, and apart from its state
as it was acquired. -/
theorem of_mem_passAttempts (henv : env.Reliable) (hs : s.WellKeyed) {limit : Nat} {a : Attempt}
    (ha : a ∈ x.passAttempts env c now limit s) :
    a.before.WellKeyed ∧
    (∃ state, a.before.jobs.get? a.timer.id = some (a.timer.withState state)) ∧
    a.after = (x.settle env c now a.timer a.before).2 := by
  unfold passAttempts at ha
  cases h : step env (x.acquire now limit) s with
  | mk outcome s' =>
    rw [h] at ha
    cases outcome with
    | error e => exact absurd ha List.not_mem_nil
    | ok timers =>
      obtain ⟨rfl, hw⟩ := acquire_awaits henv hs h
      exact of_mem_attempts henv hs hw ha

end TimerExecutor
end JobSuspension
