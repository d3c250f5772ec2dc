import JobSuspension.Proofs.Attempts

/-!
# An error changes nothing

A change of state has no way back: it records, updates the job definitions, updates the start timers,
records again and updates the jobs.  It is atomic all the same, since each stage fails only where an
earlier one already did.  With detailed auditing the journal looks a single record up before
anything is written; without it the first update looks it up; and neither the start timers nor the
jobs of a selected job definition can be missing.

* `StateRequest.run_error`, `JobSelection.run_error`   a command that ends with an error;
* `Stores.SameButAttempt id s s'`   the stores differ at most in what a failed attempt leaves on the
                                    job `id`;
* `error_changes_nothing`           for both commands, and for every attempt of a timer pass.
-/

namespace JobSuspension

variable {env : Environment} {s : Stores}

/-! ## commands -/

theorem StateRequest.run_error (henv : env.Reliable) (hs : s.WellKeyed) {c : CommandContext}
    {t : Transition} {r : StateRequest} {e : EngineError} {s' : Stores}
    (h : (setJobDefinitionState c t r).run env s = (.error e, s')) : s' = s := by
  cases hd : r.executionDate with
  | none =>
    have hstep := setJobDefinitionState_step henv hs c t hd
    rw [h] at hstep
    exact hstep.eq_of_error
  | some date =>
    cases hr : r.refusal? s c with
    | some e' =>
      rw [run_setJobDefinitionState_refused henv hs c t hr] at h
      cases h
      rfl
    | none =>
      obtain ⟨sel, hx⟩ := exists_of_refusal? hr
      rw [run_setJobDefinitionState_later henv c t hx hd hr] at h
      cases h

theorem JobSelection.run_error (henv : env.Reliable) (hs : s.WellKeyed) {c : CommandContext}
    {t : Transition} {x : JobSelection} {o : Option String} {e : EngineError} {s' : Stores}
    (h : (setJobState c t x o).run env s = (.error e, s')) : s' = s := by
  have hstep := setJobState_step henv hs c t x o
  rw [h] at hstep
  exact hstep.eq_of_error

/-! ## attempts -/

structure Stores.SameButAttempt (id : String) (s s' : Stores) : Prop where
  definitions : s'.definitions = s.definitions
  processInstances : s'.processInstances = s.processInstances
  log : s'.log = s.log
  others : ∀ k, k ≠ id → s'.jobs.get? k = s.jobs.get? k
  job : ∃ j retries message due, s.jobs.get? id = some j ∧
    s'.jobs.get? id =
      some { j with retries := retries, exceptionMessage := message, dueDate := due }

/-- a timer whose handler fails -/
theorem Attempt.sameButAttempt (henv : env.Reliable) (hs : s.WellKeyed) {x : TimerExecutor}
    {c : CommandContext} {now : Instant} {limit : Nat} {a : Attempt}
    (ha : a ∈ x.passAttempts env c now limit s) {t : Transition} {e : EngineError} {s' : Stores}
    (ht : x.handler? a.timer.handlerType = some t)
    (h : (handleTimer c t a.timer).run env a.before = (.error e, s')) :
    Stores.SameButAttempt a.timer.id a.before a.after := by
  obtain ⟨hb, ⟨state, hst⟩, hafter⟩ := TimerExecutor.of_mem_passAttempts henv hs ha
  have hstep := x.settle_step henv hb c now hst
  rw [hafter]
  generalize x.settle env c now a.timer a.before = r at hstep
  cases hstep with
  | skipped ht' => exact absurd (ht'.symm.trans ht) (by simp)
  | executed ht' hrun =>
    rw [Option.some.inj (ht'.symm.trans ht), h] at hrun
    cases hrun
  | outOfRange =>
    exact ⟨rfl, rfl, rfl, fun _ _ => rfl, a.timer.withState state, _, _, _, hst, hst⟩
  | @failed t' e' retryAt j ht' hrun hretry hj =>
    refine ⟨rfl, rfl, rfl, fun k hk => ?_, j, (j.withFailure e'.message retryAt).retries,
      some e'.message, some retryAt, hj, ?_⟩
    · show Table.get? (Table.insert _ _ _) _ = _
      rw [Table.get?_insert, if_neg (Ne.symm hk)]
    · show Table.get? (Table.insert _ _ _) _ = _
      rw [Table.get?_insert, if_pos rfl]
      rfl

/-- **An error changes nothing**: neither a change of job definitions, now or later, nor a change of
jobs leaves a trace when it ends with an error; and a timer whose handler fails in a pass loses a
retry, and that is all. -/
theorem error_changes_nothing (henv : env.Reliable) (hs : s.WellKeyed) :
    (∀ c t r e s', (setJobDefinitionState c t r).run env s = (.error e, s') → s' = s) ∧
    (∀ c t x o e s', (setJobState c t x o).run env s = (.error e, s') → s' = s) ∧
    (∀ (x : TimerExecutor) c now limit, ∀ a ∈ x.passAttempts env c now limit s, ∀ t e s',
      x.handler? a.timer.handlerType = some t →
      (handleTimer c t a.timer).run env a.before = (.error e, s') →
      Stores.SameButAttempt a.timer.id a.before a.after) :=
  ⟨fun _ _ _ _ _ h => StateRequest.run_error henv hs h,
    fun _ _ _ _ _ _ h => JobSelection.run_error henv hs h,
    fun _ _ _ _ _ ha _ _ _ ht h => Attempt.sameButAttempt henv hs ha ht h⟩

/-- a request without a selector, and a timer without a configuration -/
theorem error_changes_nothing_timer :
    let env : Environment := { ids := ⟨fun _ => "timer", fun _ => "entry", fun _ => "operation"⟩ }
    let c : CommandContext := { actor := none, level := .full }
    let timer : Job :=
      { id := "timer", handlerType := "suspend-job-definition", dueDate := some .epoch }
    let s : Stores := Stores.putJob {} timer
    let x : TimerExecutor := { handlers := [.suspend] }
    env.Reliable ∧ s.WellKeyed ∧
      (setJobDefinitionState c .suspend { selection := {} }).run env s =
        (.error .noDefinitionSelector, s) ∧
      ∃ a ∈ x.passAttempts env c .epoch 1 s, Stores.SameButAttempt "timer" a.before a.after := by
  intro env c timer s x
  have henv : env.Reliable := ⟨fun _ => rfl, rfl⟩
  have hs : s.WellKeyed := Stores.WellKeyed.empty.putJob timer
  have hdue : Job.firstDue [timer] .epoch ["suspend-job-definition"] 1 = [timer] := by
    have hw : Job.isWanted ["suspend-job-definition"] .epoch timer = true := by decide
    simp [Job.firstDue, hw]
  have hacquire : TimerExecutor.step env (x.acquire .epoch 1) s = (.ok [timer], s) := by
    show (Except.ok (Job.firstDue [timer] .epoch ["suspend-job-definition"] 1), s) = _
    rw [hdue]
  obtain ⟨s', hmem⟩ : ∃ s', ⟨timer, s, s'⟩ ∈ x.passAttempts env c .epoch 1 s := by
    unfold TimerExecutor.passAttempts
    rw [hacquire]
    exact ⟨_, List.mem_cons_self⟩
  have herror := error_changes_nothing henv hs
  exact ⟨henv, hs, rfl, _, hmem, herror.2.2 _ _ _ _ _ hmem .suspend _ s rfl rfl⟩

end JobSuspension
