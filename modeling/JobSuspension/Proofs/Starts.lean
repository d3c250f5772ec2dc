import JobSuspension.Proofs.RetryAccount

/-!
# When a handler starts

A pass looks at the states of its timers once, when it acquires them.  By the time the handler of a
timer starts, handlers of the same pass have given states to jobs, and the timer may be one of them:
a timer that was acquired while it was active is then carried out although it is suspended.

* `jobs_before_attempt`          what the attempts up to one of them have done to a job;
* `state_when_handler_starts`    the state of a timer at the start of its handler;
* `state_when_handler_starts_suspended`   a timer that its pass suspends and then carries out.
-/

namespace JobSuspension
namespace TimerExecutor

variable {x : TimerExecutor} {env : Environment} {c : CommandContext} {now : Instant}

theorem attempts_singleton (timer : Job) (s : Stores) :
    x.attempts env c now [timer] s = [⟨timer, s, (x.settle env c now timer s).2⟩] := by
  unfold attempts
  cases x.settle env c now timer s with
  | mk outcome s' => cases outcome <;> rfl

/-- an attempt that others follow did not end the batch -/
theorem exists_of_attempts_eq_cons {timer : Job} {timers : List Job} {s : Stores} {a : Attempt}
    {others : List Attempt} (h : x.attempts env c now (timer :: timers) s = a :: others)
    (hne : others ≠ []) :
    ∃ o s', x.settle env c now timer s = (.ok o, s') ∧ a = ⟨timer, s, s'⟩ ∧
      x.attempts env c now timers s' = others := by
  unfold attempts at h
  cases hsettle : x.settle env c now timer s with
  | mk outcome s' =>
    simp only [hsettle] at h
    obtain ⟨rfl, hothers⟩ := List.cons.inj h
    cases outcome with
    | error e => exact absurd hothers.symm hne
    | ok o => exact ⟨o, s', rfl, rfl, hothers⟩

/-- the timers that were carried out among some attempts -/
def doneBefore (x : TimerExecutor) (env : Environment) (c : CommandContext)
    (earlier : List Attempt) : List Job :=
  (earlier.filter (·.succeeds x env c)).map Attempt.timer

theorem doneBefore_cons (a : Attempt) (earlier : List Attempt) :
    x.doneBefore env c (a :: earlier) =
      (if a.succeeds x env c then [a.timer] else []) ++ x.doneBefore env c earlier := by
  unfold doneBefore
  rw [List.filter_cons]
  split <;> rfl

/-- up to one of its attempts, a batch has done to every other job what the timers before have -/
theorem jobs_before_attempt (henv : env.Reliable) {timers : List Job}
    (htypes : ∀ timer ∈ timers, ∃ t, x.handler? timer.handlerType = some t)
    {earlier later : List Attempt} {a : Attempt} {s : Stores} (hw : s.Awaits timers)
    (h : x.attempts env c now timers s = earlier ++ a :: later) :
    a.timer ∈ timers ∧ a.timer.id ∉ earlier.map (·.timer.id) ∧
      ∀ k, k ∉ earlier.map (·.timer.id) → a.before.jobs.get? k =
        (s.jobs.get? k).map (Job.afterTimers (x.doneBefore env c earlier)) := by
  have hne (earlier : List Attempt) : earlier ++ a :: later ≠ [] :=
    List.append_ne_nil_of_right_ne_nil earlier (List.cons_ne_nil a later)
  induction timers generalizing earlier s with
  | nil => exact absurd h.symm (hne earlier)
  | cons timer timers ih =>
    obtain ⟨⟨t, ht⟩, htypes⟩ := List.forall_mem_cons.mp htypes
    obtain ⟨state, hst⟩ := hw.2 timer List.mem_cons_self
    cases earlier with
    | nil =>
      obtain ⟨rfl, -⟩ := List.cons.inj h
      refine ⟨List.mem_cons_self, List.not_mem_nil, fun k _ => ?_⟩
      exact (congrFun (Option.map_id (α := Job)) _).symm
    | cons first earlier =>
      obtain ⟨o, s', hsettle, rfl, hrest⟩ := exists_of_attempts_eq_cons h (hne earlier)
      obtain ⟨retryAt, ha⟩ := exists_settles henv ht hst hsettle
      obtain ⟨hmem, hnew, hget⟩ := ih htypes (ha.awaits hw) hrest
      have hother : a.timer.id ≠ timer.id := by
        intro e
        have hdistinct : timer.id ∉ timers.map Job.id := (List.nodup_cons.mp hw.1).1
        rw [← e] at hdistinct
        exact hdistinct (List.mem_map_of_mem hmem)
      refine ⟨List.mem_cons_of_mem _ hmem, ?_, fun k hk => ?_⟩
      · rw [List.map_cons, List.mem_cons, not_or]
        exact ⟨hother, hnew⟩
      · rw [List.map_cons, List.mem_cons, not_or] at hk
        have hfirst := ha.get?_of_ne hk.1
        rw [← ha.succeeds_eq] at hfirst
        rw [hget k hk.2, hfirst, Option.map_map, doneBefore_cons]
        congr 1
        funext j
        exact (Job.afterTimers_append _ _ j).symm

end TimerExecutor

/-! ## the state at the start -/

theorem Job.isActive_of_isWanted {types : List String} {now : Instant} {timer : Job}
    (h : isWanted types now timer = true) : timer.state = .active := by
  simp only [isWanted, isAcquirableAt, Bool.and_eq_true, Bool.not_eq_true'] at h
  cases hstate : timer.state with
  | active => rfl
  | suspended =>
    rw [hstate] at h
    exact absurd h.1.1.1 (by decide)

/-- **When the handler of a timer starts**, the timer is stored as it was acquired, but for its
state: it was active when it was acquired, and it is suspended by now exactly if the last of the
timers to reach it, out of those that the pass has carried out before, suspends.  No timer reaches
a timer that belongs to nobody. -/
theorem state_when_handler_starts {env : Environment} (henv : env.Reliable) {s : Stores}
    (hs : s.jobs.KeyedBy Job.id) (x : TimerExecutor) (c : CommandContext) (now : Instant)
    (limit : Nat) {earlier later : List Attempt} {a : Attempt}
    (h : x.passAttempts env c now limit s = earlier ++ a :: later) :
    let done := x.doneBefore env c earlier
    s.jobs.get? a.timer.id = some a.timer ∧ a.timer.state = .active ∧
      ∃ j, a.before.jobs.get? a.timer.id = some j ∧ j = a.timer.afterTimers done ∧
        (j.state = .suspended ↔ (done.filterMap (·.gives? a.timer)).getLast? = some .suspended) ∧
        (a.timer.Unowned → j = a.timer) := by
  intro done
  rcases Nat.eq_zero_or_pos limit with rfl | hlimit
  · exact absurd h.symm (List.append_ne_nil_of_right_ne_nil _ (List.cons_ne_nil a later))
  · unfold TimerExecutor.passAttempts at h
    rw [TimerExecutor.step_acquire henv x now s hlimit] at h
    have hw : s.Awaits (Job.firstDue s.jobs.values now x.handlerTypes limit) :=
      Stores.awaits_firstDue hs now x.handlerTypes limit
    obtain ⟨hmem, hnew, hget⟩ := TimerExecutor.jobs_before_attempt henv
      (fun timer ht => TimerExecutor.exists_handler? (Job.mem_firstDue ht).2) hw h
    have hstored : s.jobs.get? a.timer.id = some a.timer := Stores.get?_of_mem_firstDue hs hmem
    have hactive : a.timer.state = .active := Job.isActive_of_isWanted (Job.mem_firstDue hmem).2
    refine ⟨hstored, hactive, a.timer.afterTimers done, ?_, rfl, ?_, ?_⟩
    · rw [hget _ hnew, hstored]
      rfl
    · show Job.stateAfter done a.timer = .suspended ↔ _
      unfold Job.stateAfter
      rw [hactive]
      cases (done.filterMap (·.gives? a.timer)).getLast? with
      | none => simp only [Option.getD_none, reduceCtorEq]
      | some state => rw [Option.getD_some, Option.some.injEq]
    · intro hunowned
      exact Job.afterTimers_of_unowned hunowned done

/-- the first timer suspends the second, which is carried out all the same: it activates the job
definition, and it is gone -/
theorem state_when_handler_starts_suspended :
    let env : Environment := { ids := ⟨fun _ => "timer", fun _ => "entry", fun _ => "operation"⟩ }
    let c : CommandContext := { actor := none, level := .full }
    let x : TimerExecutor := { handlers := Transition.all }
    let d : JobDefinition := ⟨"d", "invoice:1", "invoice", none, "message", .suspended⟩
    let a : Job :=
      { id := "a", handlerType := "suspend-job-definition", dueDate := some .epoch
        handlerConfiguration :=
          some (TimerConfiguration.mk ⟨.processDefinitionKey, "order"⟩ true).encode }
    let b : Job :=
      { id := "b", handlerType := "activate-job-definition", dueDate := some .epoch
        processDefinitionKey := some "order"
        handlerConfiguration :=
          some (TimerConfiguration.mk ⟨.processDefinitionKey, "invoice"⟩ false).encode }
    let steps : List EngineStep :=
      [.call (.saveJobDefinition d), .call (.saveJob a), .call (.saveJob b)]
    let s := (EngineStep.runAll env steps {}).2
    env.Reliable ∧ s.WellKeyed ∧ ∃ first second,
      x.passAttempts env c .epoch 2 s = [first, second] ∧ second.timer = b ∧ b.state = .active ∧
        (∃ j, second.before.jobs.get? "b" = some j ∧ j.state = .suspended) ∧
        second.succeeds x env c = true ∧ second.after.jobs.get? "b" = none ∧
        second.after.definitions.get? "d" = some (d.withState .active) := by
  intro env c x d a b steps s
  have henv : env.Reliable := ⟨fun _ => rfl, rfl⟩
  have hs : s.WellKeyed := EngineStep.wellKeyed_runAll env steps
  have hvalues : s.jobs.values = [a, b] := by
    simp +zetaDelta only
    decide +kernel
  have hdue : Job.firstDue s.jobs.values .epoch x.handlerTypes 2 = [a, b] := by
    rw [hvalues]
    refine Job.firstDue_of_sorted ?_ ?_ (Nat.le_refl 2)
    · simp only [List.forall_mem_cons, List.not_mem_nil, false_imp_iff, implies_true, and_true]
      exact ⟨by decide, by decide⟩
    · refine List.pairwise_pair.mpr ?_
      decide
  let s₁ := (x.settle env c .epoch a s).2
  let first : Attempt := ⟨a, s, s₁⟩
  let second : Attempt := ⟨b, s₁, (x.settle env c .epoch b s₁).2⟩
  have hok : (x.settle env c .epoch a s).1 = .ok .executed := by
    simp +zetaDelta only
    decide +kernel
  have hfirst : x.settle env c .epoch a s = (.ok .executed, s₁) := by rw [← hok]
  have hsecond : second.succeeds x env c = true ∧ second.after.jobs.get? "b" = none ∧
      second.after.definitions.get? "d" = some (d.withState .active) := by
    simp +zetaDelta only
    decide +kernel
  have hattempts : x.passAttempts env c .epoch 2 s = [first] ++ second :: [] := by
    unfold TimerExecutor.passAttempts
    rw [TimerExecutor.step_acquire henv x .epoch s (by decide), hdue]
    simp only [TimerExecutor.attempts_cons hfirst, TimerExecutor.attempts_singleton]
    rfl
  obtain ⟨-, hactive, j, hj, -, hsuspended, -⟩ :=
    state_when_handler_starts henv hs.jobs x c .epoch 2 hattempts
  have hlast : ((x.doneBefore env c [first]).filterMap (·.gives? b)).getLast? =
      some .suspended := by
    simp +zetaDelta only
    decide +kernel
  exact ⟨henv, hs, first, second, hattempts, rfl, hactive, ⟨j, hj, hsuspended.mpr hlast⟩, hsecond⟩

end JobSuspension
