import JobSuspension.Proofs.Attempts
import JobSuspension.Proofs.Outcomes

/-!
# Every acquired timer is settled

A pass handles the timers it acquired one after the other while their handlers change the stored
jobs, those of the same batch among them.  Still each timer is settled once: it is gone if its
handler succeeded, and otherwise it is stored, with one retry less, and reported.  A handler writes
states and nothing else, and recording a failure writes everything but the state, so neither undoes
what the other did.

* `Job.gives? timer j`              the state that `timer` gives to `j` when it is carried out;
* `Job.stateAfter timers j`         the state of `j` once `timers` have been carried out;
* `Settlement.leaves o j`           what is left of a timer `j` once it is settled;
* `TimerExecutor.Settles`           one attempt and what becomes of the timer;
* `TimerExecutor.SettlesAll`        the attempts of a batch, one after the other;
* `SettlesAll.get?_of_notMem`, `SettlesAll.get?_of_mem`   every job after a batch;
* `PassSettles.exists_of_get?`      where every job after a pass comes from;
* `pass_settles_what_it_acquires`   a whole pass.
-/

namespace JobSuspension

/-! ## what timers write -/

namespace Job

def gives? (timer j : Job) : Option SuspensionState :=
  (Transition.ofHandlerType? timer.handlerType).bind fun t =>
    (timer.handlerConfiguration.bind TimerConfiguration.decode?).bind fun config =>
      if config.selector.reaches config.includeJobs j then some t.target else none

/-- the last of the timers that reach the job counts -/
def stateAfter (timers : List Job) (j : Job) : SuspensionState :=
  (timers.filterMap (·.gives? j)).getLast?.getD j.state

def afterTimers (timers : List Job) (j : Job) : Job := j.withState (stateAfter timers j)

theorem gives?_withState (timer j : Job) (state : SuspensionState) :
    timer.gives? (j.withState state) = timer.gives? j := rfl

/-- the jobs that the configuration of a timer reaches -/
theorem afterTimers_singleton {timer : Job} {t : Transition} {text : String}
    {config : TimerConfiguration} (htype : timer.handlerType = t.handlerType)
    (htext : timer.handlerConfiguration = some text)
    (hdecode : TimerConfiguration.decode text = .ok config) (j : Job) :
    afterTimers [timer] j =
      if config.selector.reaches config.includeJobs j then j.withState t.target else j := by
  have hconfig : TimerConfiguration.decode? text = some config := by
    unfold TimerConfiguration.decode at hdecode
    cases h : TimerConfiguration.decode? text with
    | none => rw [h] at hdecode; cases hdecode
    | some config' => rw [h] at hdecode; rw [Except.ok.inj hdecode]
  have hgives : timer.gives? j =
      if config.selector.reaches config.includeJobs j then some t.target else none := by
    rw [gives?, htype, Transition.ofHandlerType?_handlerType, htext, Option.bind_some,
      Option.bind_some, hconfig, Option.bind_some]
  unfold afterTimers stateAfter
  rw [List.filterMap_cons, List.filterMap_nil, hgives]
  by_cases hreach : config.selector.reaches config.includeJobs j = true
  · rw [if_pos hreach, if_pos hreach]
    rfl
  · rw [if_neg hreach, if_neg hreach]
    rfl

theorem afterTimers_cons (timer : Job) (timers : List Job) (j : Job) :
    afterTimers (timer :: timers) j = afterTimers timers (afterTimers [timer] j) := by
  unfold afterTimers stateAfter
  simp only [List.filterMap_cons, List.filterMap_nil, gives?_withState]
  cases timer.gives? j with
  | none => rfl
  | some state =>
    simp only [List.getLast?_cons, List.getLast?_nil, Option.getD_some, Option.getD_none]
    rfl

theorem afterTimers_append (timers others : List Job) (j : Job) :
    afterTimers (timers ++ others) j = afterTimers others (afterTimers timers j) := by
  induction timers generalizing j with
  | nil => rfl
  | cons timer timers ih => rw [List.cons_append, afterTimers_cons, ih, ← afterTimers_cons]

theorem gives?_of_unowned {j : Job} (h : j.Unowned) (timer : Job) : timer.gives? j = none := by
  unfold gives?
  simp only [DefinitionSelector.reaches_of_unowned h, Bool.false_eq_true, if_false,
    Option.bind_fun_none]

/-- no timer reaches a job that belongs to nobody -/
theorem afterTimers_of_unowned {j : Job} (h : j.Unowned) (timers : List Job) :
    afterTimers timers j = j := by
  have hnone : timers.filterMap (·.gives? j) = [] :=
    List.filterMap_eq_nil_iff.mpr fun timer _ => gives?_of_unowned h timer
  unfold afterTimers stateAfter
  rw [hnone]
  rfl

/-- a failure writes what handlers do not write -/
theorem afterTimers_withFailure (timers : List Job) (j : Job) (message : String)
    (retryAt : Instant) :
    afterTimers timers (j.withFailure message retryAt) =
      (afterTimers timers j).withFailure message retryAt := rfl

end Job

/-- what is left of a timer that had come to be `j` when it was settled -/
def Settlement.leaves : Settlement → Job → Option Job
  | skipped, j => some j
  | executed, _ => none
  | failed f, j => some (j.withFailure f.errorMessage f.retryAt)

/-- the report of a failed attempt -/
def Job.failure (timer : Job) (e : EngineError) (retryAt : Instant) : TimerFailure :=
  ⟨timer.id, timer.handlerType, (timer.withFailure e.message retryAt).retries, e.message, retryAt⟩

/-! ## one attempt -/

namespace TimerExecutor

variable {x : TimerExecutor} {env : Environment} {c : CommandContext} {now retryAt : Instant}

theorem handler?_eq_some {handlerType : String} {t : Transition}
    (h : x.handler? handlerType = some t) : t ∈ x.handlers ∧ handlerType = t.handlerType := by
  have hmem : t ∈ x.registered := List.mem_of_find?_eq_some h
  refine ⟨List.contains_iff_mem.mp (List.mem_filter.mp hmem).2, ?_⟩
  have htype : (t.handlerType == handlerType) = true := List.find?_some (p := fun t : Transition =>
    t.handlerType == handlerType) h
  exact (beq_iff_eq.mp htype).symm

/-- what is acquired has a handler -/
theorem exists_handler? {timer : Job} {now : Instant}
    (h : Job.isWanted x.handlerTypes now timer = true) :
    ∃ t, x.handler? timer.handlerType = some t := by
  have hcontains := (Bool.and_eq_true_iff.mp h).2
  obtain ⟨t, ht, htype⟩ := List.mem_map.mp (List.contains_iff_mem.mp hcontains)
  refine Option.isSome_iff_exists.mp (List.find?_isSome.mpr ⟨t, ht, ?_⟩)
  exact beq_iff_eq.mpr htype

/-- a handler that succeeds writes states, and one that fails writes nothing -/
theorem handleTimer_jobs (henv : env.Reliable) (s : Stores) {timer : Job} {t : Transition}
    (ht : x.handler? timer.handlerType = some t) :
    (∃ e s', (handleTimer c t timer).run env s = (.error e, s') ∧ s'.jobs = s.jobs) ∨
      ∃ s', (handleTimer c t timer).run env s = (.ok (), s') ∧
        s'.jobs = s.jobs.map (Job.afterTimers [timer]) := by
  rcases handleTimer_outcome henv s c t timer with ⟨e, s', hrun, hsame⟩ |
    ⟨text, config, s', htext, hdecode, hrun, hjobs⟩
  · exact .inl ⟨e, s', hrun, hsame.jobs⟩
  · refine .inr ⟨s', hrun, hjobs.trans (Table.map_congr fun k j _ => ?_)⟩
    exact (Job.afterTimers_singleton (handler?_eq_some ht).2 htext hdecode j).symm

variable (x env c retryAt)

/-- an attempt of a stored timer, and what becomes of it -/
inductive Settles (a : Attempt) : Settlement → Prop where
  | executed {t : Transition} {state : SuspensionState}
      (ht : x.handler? a.timer.handlerType = some t)
      (hrun : ((handleTimer c t a.timer).run env a.before).1 = .ok ())
      (hj : a.before.jobs.get? a.timer.id = some (a.timer.withState state))
      (hjobs : a.after.jobs = (a.before.jobs.map (Job.afterTimers [a.timer])).erase a.timer.id) :
      Settles a .executed
  | failed {t : Transition} {state : SuspensionState} {e : EngineError}
      (ht : x.handler? a.timer.handlerType = some t)
      (hrun : ((handleTimer c t a.timer).run env a.before).1 = .error e)
      (hj : a.before.jobs.get? a.timer.id = some (a.timer.withState state))
      (hjobs : a.after.jobs = a.before.jobs.insert a.timer.id
        ((a.timer.withState state).withFailure e.message retryAt)) :
      Settles a (.failed (a.timer.failure e retryAt))

variable {x env c retryAt}

/-- a handler that succeeds settles its timer, whether or not a retry could be due in time -/
theorem settle_executes (henv : env.Reliable) (retryAt : Instant) {s s' : Stores} {timer : Job}
    {t : Transition} (ht : x.handler? timer.handlerType = some t) {state : SuspensionState}
    (hj : s.jobs.get? timer.id = some (timer.withState state))
    (hrun : (handleTimer c t timer).run env s = (.ok (), s'))
    (hjobs : s'.jobs = s.jobs.map (Job.afterTimers [timer])) :
    x.settle env c now timer s = (.ok .executed, s'.removeJob timer.id) ∧
      Settles x env c retryAt ⟨timer, s, s'.removeJob timer.id⟩ .executed := by
  have hj' : s'.jobs.get? timer.id = some (Job.afterTimers [timer] (timer.withState state)) := by
    rw [hjobs, Table.get?_map, hj, Option.map_some]
  refine ⟨settle_of_ok henv ht hrun hj', .executed ht (by rw [hrun]) hj ?_⟩
  show s'.jobs.erase _ = (s.jobs.map _).erase _
  rw [hjobs]

theorem settle_settles (henv : env.Reliable) (hretry : now.add? x.retryWait = some retryAt)
    {s : Stores} {timer : Job} {t : Transition} (ht : x.handler? timer.handlerType = some t)
    {state : SuspensionState} (hj : s.jobs.get? timer.id = some (timer.withState state)) :
    ∃ o s', x.settle env c now timer s = (.ok o, s') ∧
      Settles x env c retryAt ⟨timer, s, s'⟩ o := by
  rcases handleTimer_jobs (c := c) henv s ht with ⟨e, s', hrun, hjobs⟩ | ⟨s', hrun, hjobs⟩
  · have hj' : s'.jobs.get? timer.id = some (timer.withState state) := by rw [hjobs, hj]
    have hsettle := settle_of_error henv ht hrun hretry hj'
    refine ⟨.failed (timer.failure e retryAt), _, hsettle, .failed ht (by rw [hrun]) hj ?_⟩
    show s'.jobs.insert _ _ = s.jobs.insert _ _
    rw [hjobs]
  · exact ⟨_, _, settle_executes henv retryAt ht hj hrun hjobs⟩

/-- whatever settles a stored timer is an attempt of it -/
theorem exists_settles (henv : env.Reliable) {s s' : Stores} {timer : Job} {t : Transition}
    (ht : x.handler? timer.handlerType = some t) {state : SuspensionState}
    (hj : s.jobs.get? timer.id = some (timer.withState state)) {o : Settlement}
    (h : x.settle env c now timer s = (.ok o, s')) :
    ∃ retryAt, Settles x env c retryAt ⟨timer, s, s'⟩ o := by
  cases hretry : now.add? x.retryWait with
  | some retryAt =>
    obtain ⟨o', s'', hsettle, ha⟩ := settle_settles (c := c) henv hretry ht hj
    obtain ⟨ho, rfl⟩ := Prod.mk.inj (h.symm.trans hsettle)
    obtain rfl := Except.ok.inj ho
    exact ⟨retryAt, ha⟩
  | none =>
    rcases handleTimer_jobs (c := c) henv s ht with ⟨e, s'', hrun, -⟩ | ⟨s'', hrun, hjobs⟩
    · have hsettle : x.settle env c now timer s = (.error .retryOutOfRange, s'') := by
        unfold settle
        rw [ht]
        simp only [hrun, recordFailure, hretry]
      rw [hsettle] at h
      cases h
    · obtain ⟨hsettle, ha⟩ : x.settle env c now timer s = _ ∧ _ :=
        settle_executes henv .epoch ht hj hrun hjobs
      obtain ⟨ho, rfl⟩ := Prod.mk.inj (h.symm.trans hsettle)
      obtain rfl := Except.ok.inj ho
      exact ⟨.epoch, ha⟩

namespace Settles

variable {a : Attempt} {o : Settlement}

/-- the jobs that one attempt carried out -/
theorem get?_of_ne (h : Settles x env c retryAt a o) {k : String} (hk : k ≠ a.timer.id) :
    a.after.jobs.get? k = (a.before.jobs.get? k).map
      (Job.afterTimers (if o.isExecuted then [a.timer] else [])) := by
  cases h with
  | executed ht hrun hj hjobs =>
    rw [hjobs, Table.get?_erase, if_neg (Ne.symm hk), Table.get?_map]
    rfl
  | failed ht hrun hj hjobs =>
    rw [hjobs, Table.get?_insert, if_neg (Ne.symm hk)]
    exact (congrFun (Option.map_id (α := Job)) _).symm

theorem get?_self (h : Settles x env c retryAt a o) :
    a.after.jobs.get? a.timer.id = (a.before.jobs.get? a.timer.id).bind o.leaves := by
  cases h with
  | executed ht hrun hj hjobs =>
    rw [hjobs, Table.get?_erase, if_pos rfl, hj]
    rfl
  | failed ht hrun hj hjobs =>
    rw [hjobs, Table.get?_insert, if_pos rfl, hj]
    rfl

/-- the timers that follow go on waiting -/
theorem awaits (h : Settles x env c retryAt a o) {timers : List Job}
    (hw : a.before.Awaits (a.timer :: timers)) : a.after.Awaits timers := by
  obtain ⟨hnd, hstored⟩ := hw
  rw [List.map_cons, List.nodup_cons] at hnd
  refine ⟨hnd.2, fun next hn => ?_⟩
  obtain ⟨state, hst⟩ := hstored next (List.mem_cons_of_mem _ hn)
  have hne : next.id ≠ a.timer.id := fun e => hnd.1 (e ▸ List.mem_map_of_mem hn)
  exact ⟨_, (h.get?_of_ne hne).trans (by rw [hst]; rfl)⟩

end Settles

/-! ## a batch -/

variable (x env c retryAt)

inductive SettlesAll : List (Attempt × Settlement) → Stores → Stores → Prop where
  | nil (s : Stores) : SettlesAll [] s s
  | cons {a : Attempt} {o : Settlement} {l : List (Attempt × Settlement)} {s' : Stores}
      (ha : Settles x env c retryAt a o) (hl : SettlesAll l a.after s') :
      SettlesAll ((a, o) :: l) a.before s'

/-- the timers that were carried out -/
def executedTimers (l : List (Attempt × Settlement)) : List Job :=
  (l.filter (·.2.isExecuted)).map (·.1.timer)

variable {x env c retryAt}

theorem executedTimers_cons (a : Attempt) (o : Settlement) (l : List (Attempt × Settlement)) :
    executedTimers ((a, o) :: l) =
      (if o.isExecuted then [a.timer] else []) ++ executedTimers l := by
  cases o <;> rfl

/-- a batch that waits is settled as a whole, timer by timer -/
theorem settleAll_settles (henv : env.Reliable)
    (hretry : now.add? x.retryWait = some retryAt) (timers : List Job)
    (htypes : ∀ timer ∈ timers, ∃ t, x.handler? timer.handlerType = some t) {s : Stores}
    (hw : s.Awaits timers) :
    ∃ l s', x.settleAll env c now timers s = (.ok (l.map Prod.snd), s') ∧
      x.attempts env c now timers s = l.map Prod.fst ∧ l.map (·.1.timer) = timers ∧
      SettlesAll x env c retryAt l s s' := by
  induction timers generalizing s with
  | nil => exact ⟨[], s, rfl, rfl, rfl, .nil s⟩
  | cons timer timers ih =>
    obtain ⟨⟨t, ht⟩, htypes⟩ := List.forall_mem_cons.mp htypes
    obtain ⟨state, hst⟩ := hw.2 timer List.mem_cons_self
    obtain ⟨o, s', hsettle, ha⟩ := settle_settles (c := c) henv hretry ht hst
    obtain ⟨l, s'', hall, hattempts, htimers, hl⟩ := ih htypes (ha.awaits hw)
    refine ⟨(⟨timer, s, s'⟩, o) :: l, s'', ?_, ?_, ?_, .cons ha hl⟩
    · simp only [settleAll, hsettle, hall, List.map_cons]
    · simp only [attempts, hsettle, hattempts, List.map_cons]
    · rw [List.map_cons, htimers]

namespace SettlesAll

variable {l : List (Attempt × Settlement)} {s s' : Stores}

theorem settles (h : SettlesAll x env c retryAt l s s') {p : Attempt × Settlement} (hp : p ∈ l) :
    Settles x env c retryAt p.1 p.2 := by
  induction h with
  | nil => exact absurd hp List.not_mem_nil
  | cons ha hl ih =>
    rcases List.mem_cons.mp hp with rfl | hp
    · exact ha
    · exact ih hp

theorem get?_of_notMem (h : SettlesAll x env c retryAt l s s') {k : String}
    (hk : k ∉ l.map (·.1.timer.id)) :
    s'.jobs.get? k = (s.jobs.get? k).map (Job.afterTimers (executedTimers l)) := by
  induction h with
  | nil s => exact (congrFun (Option.map_id (α := Job)) _).symm
  | cons ha hl ih =>
    rw [List.map_cons, List.mem_cons, not_or] at hk
    rw [ih hk.2, ha.get?_of_ne hk.1, Option.map_map, executedTimers_cons]
    congr 1
    funext j
    exact (Job.afterTimers_append _ _ j).symm

/-- once settled, a timer is only written by the handlers that follow -/
theorem get?_of_mem (h : SettlesAll x env c retryAt l s s')
    (hnd : (l.map (·.1.timer.id)).Nodup) {p : Attempt × Settlement} (hp : p ∈ l) :
    s'.jobs.get? p.1.timer.id = (s.jobs.get? p.1.timer.id).bind fun j =>
      p.2.leaves (Job.afterTimers (executedTimers l) j) := by
  induction h with
  | nil => exact absurd hp List.not_mem_nil
  | @cons a o l s' ha hl ih =>
    rw [List.map_cons, List.nodup_cons] at hnd
    rcases List.mem_cons.mp hp with rfl | hp
    · rw [hl.get?_of_notMem hnd.1, ha.get?_self]
      cases ha with
      | executed ht hrun hj hjobs =>
        rw [hj]
        rfl
      | @failed t state e ht hrun hj hjobs =>
        rw [hj, executedTimers_cons]
        exact congrArg some (Job.afterTimers_withFailure (executedTimers l)
          (a.timer.withState state) e.message retryAt)
    · have hne : p.1.timer.id ≠ a.timer.id := by
        intro e
        rw [← e] at hnd
        exact hnd.1 (List.mem_map_of_mem (f := fun p : Attempt × Settlement => p.1.timer.id) hp)
      rw [ih hnd.2 hp, ha.get?_of_ne hne, executedTimers_cons]
      cases a.before.jobs.get? p.1.timer.id with
      | none => rfl
      | some j => rw [Option.map_some, Option.bind_some, Option.bind_some, Job.afterTimers_append]

/-! ### the report -/

theorem count (h : SettlesAll x env c retryAt l s s') :
    (l.map Prod.snd).countP Settlement.isExecuted +
      ((l.map Prod.snd).filterMap Settlement.failure?).length = l.length := by
  induction h with
  | nil => rfl
  | @cons a o l s' ha hl ih =>
    cases ha <;>
      simp only [List.map_cons, List.countP_cons, List.filterMap_cons, Settlement.isExecuted,
        Settlement.failure?, List.length_cons, if_true, reduceCtorEq, if_false] <;>
      omega

/-- the failures of a batch, in order -/
theorem failures (h : SettlesAll x env c retryAt l s s') :
    ((l.map Prod.snd).filterMap Settlement.failure?).map TimerFailure.timerId =
      (l.filter fun p => !p.2.isExecuted).map (·.1.timer.id) := by
  induction h with
  | nil => rfl
  | @cons a o l s' ha hl ih =>
    cases ha with
    | executed => exact ih
    | failed => exact congrArg (a.timer.id :: ·) ih

end SettlesAll

end TimerExecutor

/-! ## a pass -/

/-- the timers that are gone afterwards -/
def Attempt.carriedOut (attempts : List Attempt) (after : Stores) : List Job :=
  (attempts.filter fun a => (after.jobs.get? a.timer.id).isNone).map Attempt.timer

namespace TimerExecutor

variable (x : TimerExecutor) (env : Environment) (c : CommandContext) (now retryAt : Instant)

/-- `l` is what a pass does with the timers it acquires -/
structure PassSettles (limit : Nat) (s : Stores) (l : List (Attempt × Settlement)) (s' : Stores) :
    Prop where
  acquired : step env (x.acquire now limit) s = (.ok (l.map (·.1.timer)), s)
  run : x.runPass env c now limit s = (.ok (.ofSettlements (l.map Prod.snd)), s')
  attempts : x.passAttempts env c now limit s = l.map Prod.fst
  length : l.length ≤ limit
  distinct : (l.map (·.1.timer.id)).Nodup
  stored : ∀ p ∈ l, s.jobs.get? p.1.timer.id = some p.1.timer
  wanted : ∀ p ∈ l, Job.isWanted x.handlerTypes now p.1.timer = true
  settles : SettlesAll x env c retryAt l s s'

variable {x env c now retryAt}

theorem runPass_settles (henv : env.Reliable) {s : Stores} (hs : s.jobs.KeyedBy Job.id)
    (hretry : now.add? x.retryWait = some retryAt) {limit : Nat} (hlimit : 1 ≤ limit) :
    ∃ l s', PassSettles x env c now retryAt limit s l s' := by
  let timers := Job.firstDue s.jobs.values now x.handlerTypes limit
  have hacquire : step env (x.acquire now limit) s = (.ok timers, s) :=
    step_acquire henv x now s hlimit
  have hwanted : ∀ timer ∈ timers, Job.isWanted x.handlerTypes now timer = true :=
    fun timer ht => (Job.mem_firstDue ht).2
  have hw : s.Awaits timers := Stores.awaits_firstDue hs now x.handlerTypes limit
  obtain ⟨l, s', hall, hattempts, htimers, hl⟩ := settleAll_settles (c := c) henv hretry timers
    (fun timer ht => exists_handler? (hwanted timer ht)) hw
  have hmem : ∀ p ∈ l, p.1.timer ∈ timers := fun p hp => htimers ▸ List.mem_map_of_mem hp
  refine ⟨l, s', ?_, ?_, ?_, ?_, ?_, fun p hp => ?_, fun p hp => hwanted _ (hmem p hp), hl⟩
  · rw [htimers, hacquire]
  · simp only [runPass, hacquire, hall]
  · simp only [passAttempts, hacquire, hattempts]
  · rw [← List.length_map (fun p : Attempt × Settlement => p.1.timer), htimers]
    exact Job.length_firstDue_le
  · have hnd := hw.1
    rw [← htimers, List.map_map] at hnd
    exact hnd
  · exact Stores.get?_of_mem_firstDue hs (hmem p hp)

namespace PassSettles

variable {limit : Nat} {l : List (Attempt × Settlement)} {s s' : Stores}

/-- what becomes of a timer can be seen in the stores -/
theorem isNone_get? (h : PassSettles x env c now retryAt limit s l s') {p : Attempt × Settlement}
    (hp : p ∈ l) : (s'.jobs.get? p.1.timer.id).isNone = p.2.isExecuted := by
  rw [h.settles.get?_of_mem h.distinct hp, h.stored p hp, Option.bind_some]
  obtain ⟨a, o⟩ := p
  have ha : Settles x env c retryAt a o := h.settles.settles hp
  cases ha <;> rfl

theorem timers_eq (h : PassSettles x env c now retryAt limit s l s') (henv : env.Reliable)
    (hlimit : 1 ≤ limit) :
    l.map (·.1.timer) = Job.firstDue s.jobs.values now x.handlerTypes limit := by
  have hacquired := h.acquired
  rw [step_acquire henv x now s hlimit] at hacquired
  exact (Except.ok.inj (Prod.mk.inj hacquired).1).symm

/-- where the jobs that are stored after a pass come from -/
theorem exists_of_get? (h : PassSettles x env c now retryAt limit s l s') {k : String} {a : Job}
    (ha : s'.jobs.get? k = some a) :
    (k ∉ l.map (·.1.timer.id) ∧
        ∃ j, s.jobs.get? k = some j ∧ a = j.afterTimers (executedTimers l)) ∨
      ∃ p ∈ l, p.1.timer.id = k ∧ ∃ e : EngineError,
        a = (p.1.timer.afterTimers (executedTimers l)).withFailure e.message retryAt := by
  by_cases hk : k ∈ l.map (·.1.timer.id)
  · obtain ⟨⟨attempt, o⟩, hp, rfl⟩ := List.mem_map.mp hk
    rw [h.settles.get?_of_mem h.distinct hp, h.stored _ hp, Option.bind_some] at ha
    have hsettles : Settles x env c retryAt attempt o := h.settles.settles hp
    cases hsettles with
    | executed => cases ha
    | @failed t state e => exact .inr ⟨_, hp, rfl, e, (Option.some.inj ha).symm⟩
  · rw [h.settles.get?_of_notMem hk] at ha
    obtain ⟨j, hj, rfl⟩ := Option.map_eq_some_iff.mp ha
    exact .inl ⟨hk, j, hj, rfl⟩

theorem executedTimers_eq (h : PassSettles x env c now retryAt limit s l s') :
    executedTimers l = Attempt.carriedOut (l.map Prod.fst) s' := by
  unfold Attempt.carriedOut executedTimers
  rw [List.filter_map, List.map_map, List.filter_congr fun p hp => (h.isNone_get? hp).symm]
  rfl

end PassSettles

end TimerExecutor

/-! ## settlement -/

/-- how a report and the stores after a pass account for its attempts -/
structure PassReport.AccountsFor (report : PassReport) (x : TimerExecutor) (env : Environment)
    (c : CommandContext) (retryAt : Instant) (attempts : List Attempt) (s s' : Stores) : Prop where
  acquired : report.acquired = attempts.length
  total : report.acquired = report.executed + report.failures.length
  /-- no timer is attempted twice -/
  distinct : (attempts.map (·.timer.id)).Nodup
  /-- the timers are the stored ones -/
  stored : ∀ a ∈ attempts, s.jobs.get? a.timer.id = some a.timer
  /-- the timers that are still stored are those reported, in the order of acquisition -/
  inOrder : report.failures.map TimerFailure.timerId =
    (attempts.map (·.timer.id)).filter fun id => (s'.jobs.get? id).isSome
  /-- either the handler of a timer succeeded and the timer is gone, or it failed and the timer has
  one retry less, is due again later, and has the state that others of the pass gave to it -/
  settled : ∀ a ∈ attempts, ∃ t, x.handler? a.timer.handlerType = some t ∧
    (((handleTimer c t a.timer).run env a.before).1 = .ok () ∧ s'.jobs.get? a.timer.id = none ∨
      ∃ e retries, ((handleTimer c t a.timer).run env a.before).1 = .error e ∧
        retries.toNat + 1 = a.timer.retries.toNat ∧
        ⟨a.timer.id, a.timer.handlerType, retries, e.message, retryAt⟩ ∈ report.failures ∧
        s'.jobs.get? a.timer.id = some { a.timer with
          retries := retries
          exceptionMessage := some e.message
          dueDate := some retryAt
          state := Job.stateAfter (Attempt.carriedOut attempts s') a.timer })
  /-- all other jobs are as they were, but for their states -/
  others : ∀ k, k ∉ attempts.map (·.timer.id) →
    s'.jobs.get? k = (s.jobs.get? k).map fun j =>
      { j with state := Job.stateAfter (Attempt.carriedOut attempts s') j }

/-- a timer that is acquired has a retry to lose -/
theorem Job.retries_withFailure {types : List String} {now : Instant} {timer : Job}
    (h : isWanted types now timer = true) (message : String) (retryAt : Instant) :
    (timer.withFailure message retryAt).retries.toNat + 1 = timer.retries.toNat := by
  have hpos : 0 < timer.retries := by
    simp only [isWanted, isAcquirableAt, Bool.and_eq_true, decide_eq_true_eq] at h
    exact h.1.1.2
  have hne : ¬ timer.retries = 0 := by
    intro e
    rw [e] at hpos
    exact absurd hpos (by decide)
  show (if timer.retries = 0 then 0 else timer.retries - 1).toNat + 1 = _
  rw [if_neg hne]
  have hle : (1 : UInt32) ≤ timer.retries := by
    rw [UInt32.le_iff_toNat_le]
    rw [UInt32.lt_iff_toNat_lt] at hpos
    exact hpos
  rw [UInt32.toNat_sub_of_le _ _ hle]
  rw [UInt32.le_iff_toNat_le] at hle
  have : (1 : UInt32).toNat = 1 := rfl
  omega

namespace TimerExecutor.PassSettles

variable {x : TimerExecutor} {env : Environment} {c : CommandContext} {now retryAt : Instant}
  {limit : Nat} {l : List (Attempt × Settlement)} {s s' : Stores}

theorem accountsFor (h : PassSettles x env c now retryAt limit s l s') :
    (PassReport.ofSettlements (l.map Prod.snd)).AccountsFor x env c retryAt (l.map Prod.fst)
      s s' where
  acquired := by
    show (l.map Prod.snd).length = _
    rw [List.length_map, List.length_map]
  total := by
    show (l.map Prod.snd).length = _
    rw [List.length_map]
    exact h.settles.count.symm
  distinct := by
    rw [List.map_map]
    exact h.distinct
  stored := by
    intro a ha
    obtain ⟨p, hp, rfl⟩ := List.mem_map.mp ha
    exact h.stored p hp
  inOrder := by
    show ((l.map Prod.snd).filterMap Settlement.failure?).map TimerFailure.timerId = _
    rw [h.settles.failures, List.map_map, List.filter_map]
    congr 1
    refine List.filter_congr fun p hp => ?_
    rw [← h.isNone_get? hp, Option.not_isNone]
    rfl
  settled := by
    intro a ha
    obtain ⟨⟨a, o⟩, hp, rfl⟩ := List.mem_map.mp ha
    have hget := h.settles.get?_of_mem h.distinct hp
    rw [h.stored _ hp, Option.bind_some, h.executedTimers_eq] at hget
    have hsettles : Settles x env c retryAt a o := h.settles.settles hp
    cases hsettles with
    | @executed t state ht hrun hj hjobs => exact ⟨t, ht, .inl ⟨hrun, hget⟩⟩
    | @failed t state e ht hrun hj hjobs =>
      refine ⟨t, ht, .inr ⟨e, (a.timer.withFailure e.message retryAt).retries, hrun,
        Job.retries_withFailure (h.wanted _ hp) _ _, ?_, hget⟩⟩
      refine List.mem_filterMap.mpr ⟨_, List.mem_map_of_mem hp, rfl⟩
  others := by
    intro k hk
    rw [List.map_map] at hk
    rw [h.settles.get?_of_notMem hk, h.executedTimers_eq]
    rfl

end TimerExecutor.PassSettles

/-- **A pass settles what it acquires.**  It acquires no more timers than it may and attempts each
of them once.  Each is gone because its handler succeeded, or it is stored and reported with one
retry less; its state, like that of every other job, is the one that the last handler to reach it
gave to it, and nothing else of any other job has moved. -/
theorem pass_settles_what_it_acquires {env : Environment} (henv : env.Reliable) {s : Stores}
    (hs : s.jobs.KeyedBy Job.id) (x : TimerExecutor) (c : CommandContext) {now retryAt : Instant}
    (hretry : now.add? x.retryWait = some retryAt) {limit : Nat} (hlimit : 1 ≤ limit) :
    ∃ report s', x.runPass env c now limit s = (.ok report, s') ∧ report.acquired ≤ limit ∧
      TimerExecutor.step env (x.acquire now limit) s =
        (.ok ((x.passAttempts env c now limit s).map Attempt.timer), s) ∧
      report.AccountsFor x env c retryAt (x.passAttempts env c now limit s) s s' := by
  obtain ⟨l, s', h⟩ := TimerExecutor.runPass_settles (c := c) henv hs hretry hlimit
  refine ⟨_, s', h.run, ?_, ?_, ?_⟩
  · show (l.map Prod.snd).length ≤ limit
    rw [List.length_map]
    exact h.length
  · rw [h.acquired, h.attempts, List.map_map]
    rfl
  · rw [h.attempts]
    exact h.accountsFor

/-- the first timer suspends the second, which then fails: the failure leaves it suspended -/
theorem pass_settles_what_it_acquires_batch :
    let env : Environment := { ids := ⟨fun _ => "timer", fun _ => "entry", fun _ => "operation"⟩ }
    let c : CommandContext := { actor := none, level := .full }
    let x : TimerExecutor := { handlers := Transition.all, retryWait := ⟨1500000⟩ }
    let a : Job :=
      { id := "a", handlerType := "suspend-job-definition", dueDate := some .epoch
        handlerConfiguration :=
          some (TimerConfiguration.mk ⟨.processDefinitionKey, "order"⟩ true).encode }
    let b : Job :=
      { id := "b", handlerType := "activate-job-definition", dueDate := some .epoch
        processDefinitionKey := some "order" }
    let s : Stores := (Stores.putJob {} a).putJob b
    let retryAt : Instant := ⟨0, 1500000, by decide⟩
    env.Reliable ∧ s.jobs.KeyedBy Job.id ∧ Instant.add? .epoch x.retryWait = some retryAt ∧
      ∃ report s', x.runPass env c .epoch 2 s = (.ok report, s') ∧
        report.AccountsFor x env c retryAt (x.passAttempts env c .epoch 2 s) s s' ∧
        report.failures.map TimerFailure.timerId = ["b"] ∧ s'.jobs.get? "a" = none ∧
        (s'.jobs.get? "b").map Job.state = some .suspended := by
  intro env c x a b s retryAt
  have henv : env.Reliable := ⟨fun _ => rfl, rfl⟩
  have hs : s.jobs.KeyedBy Job.id := ((Stores.WellKeyed.empty.putJob a).putJob b).jobs
  have hretry : Instant.add? .epoch x.retryWait = some retryAt := by decide
  obtain ⟨report, s', hrun, -, -, haccounts⟩ :=
    pass_settles_what_it_acquires henv hs x c hretry (by decide : 1 ≤ 2)
  have hvalues : s.jobs.values = [a, b] := by
    simp +zetaDelta only
    decide +kernel
  have hdue : Job.firstDue s.jobs.values .epoch x.handlerTypes 2 = [a, b] := by
    have ha : Job.isWanted x.handlerTypes .epoch a = true := by decide
    have hb : Job.isWanted x.handlerTypes .epoch b = true := by decide
    have hab : Job.dueBefore a b = true := by decide
    rw [hvalues]
    simp [Job.firstDue, ha, hb, hab, List.mergeSort, List.MergeSort.Internal.splitInTwo]
  have hall : (x.settleAll env c .epoch [a, b] s).1.toOption.map
        (fun l => (l.filterMap Settlement.failure?).map TimerFailure.timerId) = some ["b"] ∧
      (x.settleAll env c .epoch [a, b] s).2.jobs.get? "a" = none ∧
      ((x.settleAll env c .epoch [a, b] s).2.jobs.get? "b").map Job.state = some .suspended := by
    simp +zetaDelta only
    decide +kernel
  refine ⟨henv, hs, hretry, report, s', hrun, haccounts, ?_⟩
  cases hsettled : x.settleAll env c .epoch [a, b] s with
  | mk outcomes s'' =>
    rw [hsettled] at hall
    rw [TimerExecutor.runPass, TimerExecutor.step_acquire henv x .epoch s (by decide), hdue] at hrun
    simp only [hsettled] at hrun
    cases outcomes with
    | error e => cases hrun
    | ok outcomes =>
      cases hrun
      exact ⟨Option.some.inj hall.1, hall.2⟩

end JobSuspension
