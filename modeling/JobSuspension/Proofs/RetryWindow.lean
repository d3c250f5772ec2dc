import JobSuspension.Proofs.DueTimers
import JobSuspension.Proofs.Fairness
import JobSuspension.Proofs.Interruption

/-!
# The retry window

A timer that failed waits for its retry.  It is due at the date of the retry then, and only another
failure moves that date: no handler does, and the failure comes from a pass that acquired the timer,
at its due date or later, so that the next retry is later still.

* `Stores.DueFrom s id date`      whatever date the timer `id` has is `date` or later;
* `SettleStep.dueFrom`, `settleAll_dueFrom`, `runPasses_dueFrom`   it stays so through later passes;
* `not_acquires_of_dueFrom`       no pass acquires the timer before;
* `TimerExecutor.LeavesAlone x env passes s id`   none of the passes acquires the timer;
* `runPasses_spares`              then they change no more of it than its state;
* `TimerFailure.RecordedIn f j`   what a failure leaves of the timer;
* `failed_timer_waits_for_retry`  from the failure on, through any later passes.
-/

namespace JobSuspension

/-! ## dates only move on -/

def Stores.DueFrom (s : Stores) (id : String) (date : Instant) : Prop :=
  ∀ j due, s.jobs.get? id = some j → j.dueDate = some due → date ≤ due

theorem Stores.DueFrom.withState {s s' : Stores} {id : String} {date : Instant}
    (h : s.DueFrom id date) {j : Job} {state : SuspensionState} (hj : s.jobs.get? id = some j)
    (hj' : s'.jobs.get? id = some (j.withState state)) : s'.DueFrom id date := by
  intro a due ha hdue
  obtain rfl := Option.some.inj (hj'.symm.trans ha)
  exact h j due hj hdue

namespace TimerExecutor

variable {x : TimerExecutor} {env : Environment} {c : CommandContext} {now date : Instant}
  {id : String} {s : Stores}

section
variable (henv : env.Reliable) (hwait : 0 < x.retryWait.nanos)
include henv hwait

theorem SettleStep.dueFrom (hs : s.WellKeyed) {timer : Job} {state : SuspensionState}
    (hstored : s.jobs.get? timer.id = some (timer.withState state))
    (hdue : timer.IsDueFor x.handlerTypes now) (hdate : s.DueFrom id date)
    {r : Except PassError Settlement × Stores} (h : SettleStep x env c now timer s r) :
    r.2.DueFrom id date := by
  by_cases hid : id = timer.id
  · subst hid
    cases h with
    | skipped => exact hdate
    | outOfRange => exact hdate
    | @executed t s' =>
      intro j due hj
      have hgone : (s'.jobs.erase timer.id).get? timer.id = none :=
        (Table.get?_erase _ _ _).trans (if_pos rfl)
      cases hgone.symm.trans hj
    | @failed t e retryAt j ht hrun hretry hj =>
      -- it was due when it was acquired, and the retry is later than that
      obtain ⟨due, hdueDate, hnow⟩ := hdue.date
      have hfrom : date ≤ due := hdate _ due hstored hdueDate
      have hlater : now < retryAt := Instant.lt_of_add? hwait hretry
      intro a due' ha hdue'
      obtain rfl := Option.some.inj (((Table.get?_insert _ _ _ _).trans (if_pos rfl)).symm.trans ha)
      obtain rfl : retryAt = due' := Option.some.inj hdue'
      exact Instant.le_trans hfrom (Instant.le_trans hnow (Instant.le_of_lt hlater))
  · rcases h.get?_of_ne henv hs hid with hsame | ⟨j, state, hj, hj'⟩
    · exact fun j due ha => hdate j due (hsame.symm.trans ha)
    · exact hdate.withState hj hj'

theorem settleAll_dueFrom (timers : List Job)
    (hdue : ∀ timer ∈ timers, timer.IsDueFor x.handlerTypes now) (hs : s.WellKeyed)
    (hw : s.Awaits timers) (hdate : s.DueFrom id date) :
    (x.settleAll env c now timers s).2.DueFrom id date := by
  induction timers generalizing s with
  | nil => exact hdate
  | cons timer timers ih =>
    obtain ⟨htimer, hdue⟩ := List.forall_mem_cons.mp hdue
    obtain ⟨state, hstored⟩ := hw.2 timer List.mem_cons_self
    have hstep := x.settle_step henv hs c now hstored
    have hdate' := hstep.dueFrom henv hwait hs hstored htimer hdate
    have hs' := hstep.wellKeyed henv hs
    have hw' := hstep.awaits henv hs hw
    cases hsettle : x.settle env c now timer s with
    | mk outcome s' =>
      rw [hsettle] at hdate' hs' hw'
      cases outcome with
      | error e =>
        rw [settleAll_cons_of_error hsettle]
        exact hdate'
      | ok o =>
        rw [settleAll_cons_of_ok hsettle]
        exact ih hdue hs' hw' hdate'

theorem runPass_dueFrom (hs : s.WellKeyed) (hdate : s.DueFrom id date) (p : Pass) :
    (x.runPass env p.context p.now p.limit s).2.DueFrom id date := by
  rcases Nat.eq_zero_or_pos p.limit with hzero | hlimit
  · rw [hzero]
    exact hdate
  · rw [runPass_eq (step_acquire henv x p.now s hlimit)]
    refine settleAll_dueFrom henv hwait _ (fun timer ht => ?_) hs
      (Stores.awaits_firstDue hs.jobs _ _ _) hdate
    exact Job.isWanted_iff.mp (Job.mem_firstDue ht).2

theorem runPasses_dueFrom (passes : List Pass) (hs : s.WellKeyed) (hdate : s.DueFrom id date) :
    (x.runPasses env passes s).2.WellKeyed ∧ (x.runPasses env passes s).2.DueFrom id date := by
  induction passes generalizing s with
  | nil => exact ⟨hs, hdate⟩
  | cons p passes ih =>
    have hlater := (Stores.Later.keeps env).runPass x p.context p.now p.limit s
    exact ih (hlater.wellKeyed hs) (runPass_dueFrom henv hwait hs hdate p)

end

/-! ## passes that acquire it, and passes that do not -/

theorem not_acquires_of_dueFrom (henv : env.Reliable) (hs : s.WellKeyed)
    (hdate : s.DueFrom id date) {p : Pass} (hnow : p.now < date) : ¬ x.Acquires env p s id := by
  rintro ⟨timers, hacquire, hid⟩
  obtain ⟨timer, htimer, rfl⟩ := List.mem_map.mp hid
  rw [step_acquire henv x p.now s (one_le_of_acquire hacquire)] at hacquire
  cases hacquire
  obtain ⟨due, hdue, hle⟩ := (Job.isWanted_iff.mp (Job.mem_firstDue htimer).2).date
  have hfrom := hdate timer due (Stores.get?_of_mem_firstDue hs.jobs htimer) hdue
  exact Instant.lt_irrefl _ (Instant.lt_of_le_of_lt (Instant.le_trans hfrom hle) hnow)

/-- none of the passes acquires the timer -/
def LeavesAlone (x : TimerExecutor) (env : Environment) : List Pass → Stores → String → Prop
  | [], _, _ => True
  | p :: passes, s, id => ¬ x.Acquires env p s id ∧
      x.LeavesAlone env passes (x.runPass env p.context p.now p.limit s).2 id

theorem runPass_spares (henv : env.Reliable) {p : Pass} (h : ¬ x.Acquires env p s id) :
    s.Spares id (x.runPass env p.context p.now p.limit s).2 := by
  rcases Nat.eq_zero_or_pos p.limit with hzero | hlimit
  · rw [hzero]
    exact .of_eq rfl
  · have hacquire := step_acquire henv x p.now s hlimit
    rw [runPass_eq hacquire]
    exact settleAll_spares x env p.context p.now (fun hid => h ⟨_, hacquire, hid⟩) s

theorem runPasses_spares (henv : env.Reliable) (passes : List Pass)
    (h : x.LeavesAlone env passes s id) : s.Spares id (x.runPasses env passes s).2 := by
  induction passes generalizing s with
  | nil => exact .of_eq rfl
  | cons p passes ih =>
    obtain ⟨hfirst, hrest⟩ := h
    exact (runPass_spares henv hfirst).trans (ih hrest)

end TimerExecutor

/-! ## the failure -/

/-- what is left of a timer that failed, whatever becomes of its state -/
structure TimerFailure.RecordedIn (f : TimerFailure) (j : Job) : Prop where
  retries : j.retries = f.retriesLeft
  date : j.dueDate = some f.retryAt

theorem TimerFailure.RecordedIn.isAcquirableAt_iff {f : TimerFailure} {j : Job}
    (h : f.RecordedIn j) (hactive : j.state = .active) (now : Instant) :
    j.isAcquirableAt now = true ↔ 0 < f.retriesLeft ∧ f.retryAt ≤ now := by
  rw [Job.isAcquirableAt, Bool.and_eq_true, Bool.and_eq_true, Job.isDueAt_iff, h.date, h.retries,
    hactive, decide_eq_true_eq]
  constructor
  · rintro ⟨⟨-, hretries⟩, due, hdue, hnow⟩
    obtain rfl := Option.some.inj hdue
    exact ⟨hretries, hnow⟩
  · rintro ⟨hretries, hnow⟩
    exact ⟨⟨rfl, hretries⟩, _, rfl, hnow⟩

theorem TimerExecutor.PassSettles.exists_recorded {x : TimerExecutor} {env : Environment}
    {c : CommandContext} {now retryAt : Instant} {limit : Nat} {s s' : Stores}
    {l : List (Attempt × Settlement)} (h : PassSettles x env c now retryAt limit s l s')
    {f : TimerFailure} (hf : f ∈ (PassReport.ofSettlements (l.map Prod.snd)).failures) :
    f.retryAt = retryAt ∧ ∃ j, s'.jobs.get? f.timerId = some j ∧ f.RecordedIn j := by
  obtain ⟨o, ho, hfailure⟩ := List.mem_filterMap.mp hf
  obtain ⟨⟨a, o⟩, hp, rfl⟩ := List.mem_map.mp ho
  have hget := h.settles.get?_of_mem h.distinct hp
  rw [h.stored _ hp, Option.bind_some] at hget
  have hsettles : Settles x env c retryAt a o := h.settles.settles hp
  cases hsettles with
  | executed => cases hfailure
  | failed =>
    obtain rfl := Option.some.inj hfailure
    exact ⟨rfl, _, hget, rfl, rfl⟩

/-- **The retry window.**  A timer that fails in a pass is due again strictly after it, in and out of
leap seconds.  Whatever passes follow, no pass before that date acquires the timer.  And until a
pass does, it stays stored with the retries and the date reported, so that while it is active, it
can be acquired from that date on if and only if it has retries left. -/
theorem failed_timer_waits_for_retry {env : Environment} (henv : env.Reliable) {x : TimerExecutor}
    (hwait : 0 < x.retryWait.nanos) {s s' : Stores} (hs : s.WellKeyed) {c : CommandContext}
    {now retryAt : Instant} (hretry : now.add? x.retryWait = some retryAt) {limit : Nat}
    {report : PassReport} (hrun : x.runPass env c now limit s = (.ok report, s'))
    {f : TimerFailure} (hf : f ∈ report.failures) :
    f.retryAt = retryAt ∧ now < f.retryAt ∧
      (∀ passes p, p.now < f.retryAt →
        ¬ x.Acquires env p (x.runPasses env passes s').2 f.timerId) ∧
      ∀ passes, x.LeavesAlone env passes s' f.timerId →
        ∃ j, (x.runPasses env passes s').2.jobs.get? f.timerId = some j ∧ f.RecordedIn j ∧
          (j.state = .active → ∀ t, f.retryAt ≤ t →
            (j.isAcquirableAt t = true ↔ 0 < f.retriesLeft)) := by
  have hlimit : 1 ≤ limit := TimerExecutor.one_le_of_runPass hrun
  obtain ⟨l, s'', hpass⟩ := TimerExecutor.runPass_settles (c := c) henv hs.jobs hretry hlimit
  obtain ⟨hreport, rfl⟩ := Prod.mk.inj (hrun.symm.trans hpass.run)
  obtain rfl := Except.ok.inj hreport
  obtain ⟨hdate, j, hj, hrecorded⟩ := hpass.exists_recorded hf
  have hdue : s'.DueFrom f.timerId f.retryAt := by
    intro a due ha hdue
    obtain rfl := Option.some.inj (hj.symm.trans ha)
    obtain rfl := Option.some.inj (hrecorded.date.symm.trans hdue)
    exact Instant.le_refl _
  have hs' : s'.WellKeyed := hpass.later.wellKeyed hs
  refine ⟨hdate, ?_, fun passes p hnow => ?_, fun passes halone => ?_⟩
  · rw [hdate]
    exact Instant.lt_of_add? hwait hretry
  · obtain ⟨hkeyed, hfrom⟩ := TimerExecutor.runPasses_dueFrom henv hwait passes hs' hdue
    exact TimerExecutor.not_acquires_of_dueFrom henv hkeyed hfrom hnow
  · obtain ⟨state, hstate⟩ := TimerExecutor.runPasses_spares henv passes halone
    rw [hj, Option.map_some] at hstate
    have hrecorded' : f.RecordedIn (j.withState (state j)) := ⟨hrecorded.retries, hrecorded.date⟩
    refine ⟨_, hstate, hrecorded', fun hactive t ht => ?_⟩
    rw [hrecorded'.isAcquirableAt_iff hactive]
    exact and_iff_left ht

/-- a timer without a configuration in a leap second: it is not tried again at once, but may be a
nanosecond later -/
theorem failed_timer_waits_for_retry_leap_second :
    let env : Environment := { ids := ⟨fun _ => "timer", fun _ => "entry", fun _ => "operation"⟩ }
    let c : CommandContext := { actor := none, level := .full }
    let x : TimerExecutor := { handlers := Transition.all, retryWait := ⟨1⟩ }
    let now : Instant := ⟨59, 1500000000, by decide⟩
    let retryAt : Instant := ⟨59, 1500000001, by decide⟩
    let early : Pass := ⟨now, 1, c⟩
    let a : Job := { id := "a", handlerType := "suspend-job-definition", dueDate := some .epoch }
    let s : Stores := Stores.putJob {} a
    env.Reliable ∧ 0 < x.retryWait.nanos ∧ s.WellKeyed ∧ now.add? x.retryWait = some retryAt ∧
      ∃ report s' f, x.runPass env c now 1 s = (.ok report, s') ∧ f ∈ report.failures ∧
        f.timerId = "a" ∧ f.retriesLeft = 2 ∧ now < f.retryAt ∧ ¬ x.Acquires env early s' "a" ∧
        ∃ j, (x.runPasses env [early] s').2.jobs.get? "a" = some j ∧
          (j.state = .active → j.isAcquirableAt retryAt = true) := by
  intro env c x now retryAt early a s
  have henv : env.Reliable := ⟨fun _ => rfl, rfl⟩
  have hs : s.WellKeyed := Stores.WellKeyed.empty.putJob a
  have hwait : 0 < x.retryWait.nanos := by decide
  have hretry : now.add? x.retryWait = some retryAt := by decide
  have hvalues : s.jobs.values = [a] := rfl
  have hdue : Job.firstDue s.jobs.values now x.handlerTypes 1 = [a] := by
    have ha : Job.isWanted x.handlerTypes now a = true := by decide
    rw [hvalues]
    simp [Job.firstDue, ha]
  have hacquire := TimerExecutor.step_acquire henv x now s (Nat.le_refl 1)
  rw [hdue] at hacquire
  have hrun : x.runPass env c now 1 s = _ := TimerExecutor.runPass_eq hacquire
  have hall : (x.settleAll env c now [a] s).1.toOption.map (fun l =>
      (l.filterMap Settlement.failure?).map fun f => (f.timerId, f.retriesLeft)) =
        some [("a", 2)] := by
    simp +zetaDelta only
    decide +kernel
  refine ⟨henv, hwait, hs, hretry, ?_⟩
  cases hsettled : x.settleAll env c now [a] s with
  | mk outcomes s' =>
    rw [hsettled] at hrun hall
    cases outcomes with
    | error e => cases hall
    | ok outcomes =>
      have hfailures : (outcomes.filterMap Settlement.failure?).map
          (fun f => (f.timerId, f.retriesLeft)) = [("a", 2)] := Option.some.inj hall
      obtain ⟨f, hf, hsays⟩ := List.exists_of_mem_map (hfailures ▸ List.mem_singleton.mpr rfl)
      obtain ⟨hid, hleft⟩ := Prod.mk.inj hsays
      obtain ⟨hdate, hlater, hbefore, huntil⟩ :=
        failed_timer_waits_for_retry henv hwait hs hretry hrun hf
      rw [hid] at hbefore huntil
      have hearly : ¬ x.Acquires env early s' "a" := by
        refine hbefore [] early ?_
        rw [hdate]
        decide
      obtain ⟨j, hj, -, hactive⟩ := huntil [early] ⟨hearly, trivial⟩
      refine ⟨_, s', f, hrun, hf, hid, hleft, hlater, hearly, j, hj, fun h => ?_⟩
      refine (hactive h retryAt (hdate ▸ Instant.le_refl _)).mpr ?_
      rw [hleft]
      decide

end JobSuspension
