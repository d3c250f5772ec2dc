import JobSuspension.Proofs.AcceptedSettings
import JobSuspension.Proofs.Instants
import JobSuspension.Proofs.Interruption

/-!
# Retries out of range

The date of a retry is the time of the pass and the retry wait.  The settings accept any wait that
fits 63 bits, which is more than the years of an instant hold.  A wait that leads out of them does
no harm until a handler fails; that timer then ends the pass, without losing a retry.

* `Instant.millis`, `Instant.lastMillis`   milliseconds since the epoch, and the last ones;
* `Instant.add?_ofMillis_eq_none`          when an instant cannot be moved on by milliseconds;
* `Attempt.Fails x env c a`                the handler of the timer fails;
* `settle_outOfRange`, `settleAll_outOfRange`, `runPass_outOfRange`
                                           when a timer, a batch or a pass ends so;
* `runPass_ends`                           while the stores answer, nothing else ends a pass early;
* `Settings.safeWait`                      the longest wait that is safe up to the year 9999;
* `pass_ends_out_of_range`                 all of it, for the passes of a worker.
-/

namespace JobSuspension

/-! ## moving on out of range -/

namespace Instant

/-- milliseconds since the epoch; those of a leap second are counted like those before it -/
def millis (t : Instant) : Int := t.second * 1000 + t.nano % 1000000000 / 1000000

/-- the last millisecond an instant can have -/
def lastMillis : Int := maxSecond * 1000 + 999

theorem add?_ofMillis_eq_none {t : Instant} {ms : Int} (hms : 0 ≤ ms) :
    t.add? (.ofMillis ms) = none ↔ lastMillis < t.millis + ms := by
  have hnanos := Duration.nanos_ofMillis ms
  rw [add?_eq_none (by omega), hnanos]
  unfold lastNanos nanos lastMillis millis
  omega

end Instant

/-! ## handlers that fail -/

/-- the timer has a handler, and the handler fails -/
def Attempt.Fails (x : TimerExecutor) (env : Environment) (c : CommandContext) (a : Attempt) :
    Prop :=
  ∃ e, a.handled x env c = some (.error e)

namespace TimerExecutor

variable {x : TimerExecutor} {env : Environment} {c : CommandContext} {now : Instant}

/-- no command ends a pass this way -/
theorem step_ne_outOfRange {α : Type} (p : Command α) (s : Stores) :
    (step env p s).1 ≠ .error .retryOutOfRange := by
  unfold step
  split <;> simp

theorem settle_outOfRange (timer : Job) (s s' : Stores) :
    (x.settle env c now timer s).1 = .error .retryOutOfRange ↔
      now.add? x.retryWait = none ∧ Attempt.Fails x env c ⟨timer, s, s'⟩ := by
  unfold settle Attempt.Fails Attempt.handled
  cases x.handler? timer.handlerType with
  | none => simp
  | some t =>
    cases hrun : (handleTimer c t timer).run env s with
    | mk outcome s'' =>
      cases outcome with
      | ok => simp [hrun, deleteExecuted, step_ne_outOfRange]
      | error cause =>
        cases hretry : now.add? x.retryWait with
        | none => simp [hrun, recordFailure, hretry]
        | some retryAt => simp [hrun, recordFailure, hretry, step_ne_outOfRange]

theorem settleAll_outOfRange (timers : List Job) (s : Stores) :
    (x.settleAll env c now timers s).1 = .error .retryOutOfRange ↔
      now.add? x.retryWait = none ∧
        ∃ a ∈ x.attempts env c now timers s, a.Fails x env c := by
  induction timers generalizing s with
  | nil => simp [settleAll, attempts]
  | cons timer timers ih =>
    cases h : x.settle env c now timer s with
    | mk outcome s' =>
      have hfirst : (x.settle env c now timer s).1 = .error .retryOutOfRange ↔
          now.add? x.retryWait = none ∧ Attempt.Fails x env c ⟨timer, s, s'⟩ :=
        settle_outOfRange timer s s'
      rw [h] at hfirst
      cases outcome with
      | error e =>
        rw [settleAll_cons_of_error h, attempts_cons_of_error h]
        simpa using hfirst
      | ok o =>
        have hrest : (x.settleAll env c now (timer :: timers) s).1 = .error .retryOutOfRange ↔
            (x.settleAll env c now timers s').1 = .error .retryOutOfRange := by
          rw [settleAll_cons_of_ok h]
          cases (x.settleAll env c now timers s').1 <;> simp [Except.map]
        -- the first timer was settled, so a failure out of range is one of a later timer
        have hsettled (hnone : now.add? x.retryWait = none) :
            ¬ Attempt.Fails x env c ⟨timer, s, s'⟩ := by
          intro hfails
          cases hfirst.mpr ⟨hnone, hfails⟩
        rw [hrest, ih, attempts_cons h]
        simp only [List.mem_cons, exists_eq_or_imp]
        constructor
        · rintro ⟨hnone, hlater⟩
          exact ⟨hnone, .inr hlater⟩
        · rintro ⟨hnone, hfails⟩
          exact ⟨hnone, hfails.resolve_left (hsettled hnone)⟩

theorem runPass_outOfRange (limit : Nat) (s : Stores) :
    (x.runPass env c now limit s).1 = .error .retryOutOfRange ↔
      now.add? x.retryWait = none ∧
        ∃ a ∈ x.passAttempts env c now limit s, a.Fails x env c := by
  have hacquire : (step env (x.acquire now limit) s).1 ≠ .error .retryOutOfRange :=
    step_ne_outOfRange _ s
  unfold runPass passAttempts
  cases h : step env (x.acquire now limit) s with
  | mk outcome s' =>
    rw [h] at hacquire
    cases outcome with
    | error e => simpa using hacquire
    | ok timers =>
      rw [← settleAll_outOfRange]
      simp only
      cases x.settleAll env c now timers s' with
      | mk outcomes s'' => cases outcomes <;> simp

/-! ## stores that answer -/

variable {s : Stores}

theorem SettleStep.ok_or_unchanged {timer : Job} {r : Except PassError Settlement × Stores}
    (h : SettleStep x env c now timer s r) :
    (∃ o, r.1 = .ok o) ∨ r = (.error .retryOutOfRange, s) := by
  cases h with
  | skipped => exact .inl ⟨_, rfl⟩
  | executed => exact .inl ⟨_, rfl⟩
  | failed => exact .inl ⟨_, rfl⟩
  | outOfRange => exact .inr rfl

theorem settleAll_ends (henv : env.Reliable) (timers : List Job) (hs : s.WellKeyed)
    (hw : s.Awaits timers) :
    (∃ outcomes, (x.settleAll env c now timers s).1 = .ok outcomes) ∨
      (x.settleAll env c now timers s).1 = .error .retryOutOfRange ∧
        ∃ a ∈ x.attempts env c now timers s, a.Fails x env c ∧
          (x.settleAll env c now timers s).2 = a.before := by
  induction timers generalizing s with
  | nil => exact .inl ⟨[], rfl⟩
  | cons timer timers ih =>
    obtain ⟨state, hstored⟩ := hw.2 timer List.mem_cons_self
    have hstep := x.settle_step henv hs c now hstored
    cases h : x.settle env c now timer s with
    | mk outcome s' =>
      rw [h] at hstep
      rcases hstep.ok_or_unchanged with ⟨o, ho⟩ | hended
      · obtain rfl : outcome = .ok o := ho
        rw [settleAll_cons_of_ok h, attempts_cons h]
        rcases ih (hstep.wellKeyed henv hs) (hstep.awaits henv hs hw) with
          ⟨outcomes, houtcomes⟩ | ⟨herror, a, ha, hfails, hleft⟩
        · rw [houtcomes]
          exact .inl ⟨o :: outcomes, rfl⟩
        · rw [herror]
          exact .inr ⟨rfl, a, List.mem_cons_of_mem _ ha, hfails, hleft⟩
      · obtain ⟨rfl, rfl⟩ := Prod.mk.inj hended
        obtain ⟨-, hfails⟩ := (settle_outOfRange timer s' s').mp (congrArg Prod.fst h)
        rw [settleAll_cons_of_error h, attempts_cons_of_error h]
        exact .inr ⟨rfl, ⟨timer, s', s'⟩, List.mem_singleton_self _, hfails, rfl⟩

/-- a pass that ends early leaves the failing timer as its handler found it -/
theorem runPass_ends (henv : env.Reliable) (hs : s.WellKeyed) {limit : Nat} (hlimit : 1 ≤ limit) :
    (∃ report, (x.runPass env c now limit s).1 = .ok report) ∨
      (x.runPass env c now limit s).1 = .error .retryOutOfRange ∧
        ∃ a ∈ x.passAttempts env c now limit s, a.Fails x env c ∧
          (x.runPass env c now limit s).2 = a.before := by
  have hacquire := step_acquire henv x now s hlimit
  rw [runPass_eq hacquire, passAttempts, hacquire]
  rcases settleAll_ends henv _ hs (Stores.awaits_firstDue hs.jobs now x.handlerTypes limit) with
    ⟨outcomes, houtcomes⟩ | ⟨herror, hleft⟩
  · rw [houtcomes]
    exact .inl ⟨.ofSettlements outcomes, rfl⟩
  · rw [herror]
    exact .inr ⟨rfl, hleft⟩

end TimerExecutor

/-! ## workers -/

namespace Settings

variable {lookup : String → Option String} {workerId : String} {settings : Settings}

theorem one_le_batchSize (h : load lookup workerId = .ok settings) : 1 ≤ settings.batchSize := by
  have hbatchSize := (Holds.tellsNumber_iff (by decide)).mp (load_eq_ok.mp h).batchSize
  exact hbatchSize.2

theorem wait_of_retryWait {wait : Duration} (h : settings.retryWait = .ok wait) :
    wait = .ofMillis settings.retryWaitMillis :=
  (retryWait_eq_ok.mp h).1

/-- from the last millisecond of the year 9999 to the last of all -/
def safeWait : Nat := 7956864576000000

end Settings

/-- **Only a retry out of range crashes a pass.**  A worker's pass between 1970 and 9999 ends this
way exactly if the wait it was told leads out of the range of instants and the handler of a timer
fails.  The settings accept such waits; no wait up to `Settings.safeWait` is one.  The timer whose
handler failed stays as it was, with the retries it had; any other pass ends with a report. -/
theorem pass_ends_out_of_range {lookup : String → Option String} {workerId : String}
    {settings : Settings} (hload : Settings.load lookup workerId = .ok settings) {wait : Duration}
    (hwait : settings.retryWait = .ok wait) (handlers : List Transition) (env : Environment)
    (c : CommandContext) {now : Instant} (hnow : 0 ≤ now.second ∧ now.second ≤ 253402300799)
    (s : Stores) :
    let x : TimerExecutor := { handlers := handlers, retryWait := wait }
    let attempts := x.passAttempts env c now settings.batchSize s
    let result := x.runPass env c now settings.batchSize s
    (result.1 = .error .retryOutOfRange ↔
      Instant.lastMillis < now.millis + settings.retryWaitMillis ∧
        ∃ a ∈ attempts, a.Fails x env c) ∧
    (settings.retryWaitMillis ≤ Settings.safeWait → result.1 ≠ .error .retryOutOfRange) ∧
    (Instant.lastMillis < settings.retryWaitMillis → (∃ a ∈ attempts, a.Fails x env c) →
      result.1 = .error .retryOutOfRange) ∧
    (env.Reliable → s.WellKeyed →
      (∃ report, result.1 = .ok report) ∨
        result.1 = .error .retryOutOfRange ∧
          ∃ a ∈ attempts, a.Fails x env c ∧ result.2 = a.before) := by
  intro x attempts result
  obtain rfl := Settings.wait_of_retryWait hwait
  have hends : result.1 = .error .retryOutOfRange ↔
      Instant.lastMillis < now.millis + settings.retryWaitMillis ∧
        ∃ a ∈ attempts, a.Fails x env c := by
    rw [← Instant.add?_ofMillis_eq_none (Int.natCast_nonneg _)]
    exact TimerExecutor.runPass_outOfRange _ _
  have hmillis : 0 ≤ now.millis ∧ now.millis ≤ 253402300799999 := by
    obtain ⟨-, -, hnano, -, -⟩ := now.valid
    unfold Instant.millis
    omega
  have hlast : Instant.lastMillis = 253402300799999 + Settings.safeWait := by decide
  refine ⟨hends, fun hsafe hended => ?_, fun hlong hfails => ?_, fun henv hs => ?_⟩
  · have hout := (hends.mp hended).1
    omega
  · exact hends.mpr ⟨by omega, hfails⟩
  · exact TimerExecutor.runPass_ends henv hs (Settings.one_le_batchSize hload)

/-- the longest wait the settings accept: the first timer that fails, here for want of a
configuration, crashes the pass and keeps its retries -/
theorem pass_ends_out_of_range_longest :
    let env : Environment := { ids := ⟨fun _ => "timer", fun _ => "entry", fun _ => "operation"⟩ }
    let c : CommandContext := { actor := none, level := .none }
    let lookup (name : String) : Option String :=
      if name = Settings.retryWaitName then some "9223372036854775807" else none
    let settings : Settings := ⟨.full, "worker", 10, 1000, Settings.maxWait, none⟩
    let x : TimerExecutor := { handlers := Transition.all, retryWait := .ofMillis Settings.maxWait }
    let timer : Job :=
      { id := "a", handlerType := "suspend-job-definition", dueDate := some .epoch }
    let s : Stores := Stores.putJob {} timer
    let result := x.runPass env c .epoch settings.batchSize s
    Settings.load lookup "worker" = .ok settings ∧
      settings.retryWait = .ok (.ofMillis Settings.maxWait) ∧
      result.1 = .error .retryOutOfRange ∧
      result.2.jobs.get? "a" = some timer := by
  intro env c lookup settings x timer s result
  have henv : env.Reliable := ⟨fun _ => rfl, rfl⟩
  have hs : s.WellKeyed := Stores.WellKeyed.empty.putJob timer
  have hload : Settings.load lookup "worker" = .ok settings := by decide +kernel
  have hwait : settings.retryWait = .ok (.ofMillis Settings.maxWait) := by decide +kernel
  have hnow : 0 ≤ Instant.epoch.second ∧ Instant.epoch.second ≤ 253402300799 := by decide
  obtain ⟨hends, -, -, hleft⟩ := pass_ends_out_of_range hload hwait Transition.all env c hnow s
  have hdue : Job.firstDue s.jobs.values .epoch x.handlerTypes 10 = [timer] := by
    have hvalues : s.jobs.values = [timer] := by decide +kernel
    have htimer : Job.isWanted x.handlerTypes .epoch timer = true := by decide
    rw [hvalues]
    simp [Job.firstDue, htimer]
  have hsettle : x.settle env c .epoch timer s = (.error .retryOutOfRange, s) := by rfl
  have hattempts : x.passAttempts env c .epoch settings.batchSize s = [⟨timer, s, s⟩] := by
    rw [TimerExecutor.passAttempts, TimerExecutor.step_acquire henv x .epoch s (by decide), hdue]
    exact TimerExecutor.attempts_cons_of_error hsettle
  have hfails : Attempt.Fails x env c ⟨timer, s, s⟩ :=
    ((TimerExecutor.settle_outOfRange timer s s).mp (congrArg Prod.fst hsettle)).2
  have hresult : result.1 = .error .retryOutOfRange :=
    hends.mpr ⟨by decide, _, by rw [hattempts]; exact List.mem_singleton_self _, hfails⟩
  refine ⟨hload, hwait, hresult, ?_⟩
  rcases hleft henv hs with ⟨report, hreport⟩ | ⟨-, a, ha, -, hbefore⟩
  · cases hresult.symm.trans hreport
  · obtain rfl := List.mem_singleton.mp (hattempts ▸ ha)
    rw [show result.2 = s from hbefore]
    decide +kernel

end JobSuspension
