import JobSuspension.Proofs.AuditTrail
import JobSuspension.Proofs.Faults
import JobSuspension.Proofs.Interruption

/-!
# Submitted rows

A command speaks to the log in its calls, and the rows of these calls, one call after the other, are
what it submits.  If the log is not to be cut down, it grows by exactly these rows, also in a pass,
where the handlers submit and the rest of the pass does not.

* `Command.submitted env p s`   the rows of the calls that `p` makes;
* `Command.log_run`             a command that removes nothing appends exactly these;
* `TimerExecutor.submitted`     the rows of the handler of one attempt;
* `TimerExecutor.log_settle`, `log_leads`, `log_runPass`   one attempt, several, a pass;
* `submitted_setJobState`, `submitted_setJobDefinitionState`, `submitted_handleTimer`
                                nothing is submitted without full auditing.
-/

namespace JobSuspension

/-! ## what is submitted -/

/-- only rows are submitted to the log, and stores in order take them -/
theorem Call.rows_of_refused {env : Environment} {s : Stores} {c : Call} {e : EngineError}
    (h : c.perform env s = .error e) : c.rows = [] := by
  cases c <;> first | rfl | cases h

namespace Command

variable {α : Type} {env : Environment}

def submitted (env : Environment) (p : Command α) (s : Stores) : List LogEntry :=
  (p.calls env s).flatMap (·.1.rows)

theorem log_run (henv : env.Reliable) {p : Command α} (hp : p.Asks Call.KeepsLog) (s : Stores) :
    (p.run env s).2.log = s.log ++ p.submitted env s := by
  induction p generalizing s with
  | done a => exact (List.append_nil _).symm
  | fail e => exact (List.append_nil _).symm
  | next c k ih =>
    have hanswer : c.answer env s = c.perform env s := by rw [Call.answer, henv.fault]
    cases hperform : c.perform env s with
    | error e =>
      rw [hperform] at hanswer
      rw [run_next, submitted, calls, hanswer, List.flatMap_singleton,
        Call.rows_of_refused hperform, List.append_nil]
    | ok answer =>
      obtain ⟨r, s'⟩ := answer
      rw [hperform] at hanswer
      have hrest : ((k r).run env s').2.log = s'.log ++ (k r).submitted env s' := ih r (hp.2 r) s'
      rw [Call.log_eq hp.1 hperform] at hrest
      rw [run_next, submitted, calls, hanswer, List.flatMap_cons, ← List.append_assoc]
      exact hrest

/-- a command that leaves the log alone has submitted nothing -/
theorem submitted_eq {p : Command α} (henv : env.Reliable) (hp : p.Asks Call.KeepsLog)
    {s : Stores} {rows : List LogEntry} (h : (p.run env s).2.log = s.log ++ rows) :
    p.submitted env s = rows := by
  rw [log_run henv hp] at h
  exact List.append_cancel_left h

/-- nothing is submitted by calls that carry no rows -/
theorem submitted_eq_nil {p : Command α} (hp : p.Asks fun c => c.rows = []) (s : Stores) :
    p.submitted env s = [] := by
  induction p generalizing s with
  | done a => rfl
  | fail e => rfl
  | next c k ih =>
    unfold submitted calls
    split
    · next r s' _ =>
      rw [List.flatMap_cons, hp.1]
      exact ih r (hp.2 r) s'
    · rw [List.flatMap_singleton, hp.1]

end Command

/-! ## passes -/

namespace TimerExecutor

variable {env : Environment} (henv : env.Reliable) (x : TimerExecutor) (c : CommandContext)
  (now : Instant)

/-- the rows of the handler of an attempt -/
def submitted (x : TimerExecutor) (env : Environment) (c : CommandContext) (a : Attempt) :
    List LogEntry :=
  match x.handler? a.timer.handlerType with
  | some t => (handleTimer c t a.timer).submitted env a.before
  | none => []

theorem keepsOn_log (env : Environment) :
    env.KeepsOn (fun c => c.KeepsLog ∧ c.rows = []) fun s s' => s'.log = s.log where
  refl _ := rfl
  trans h h' := h'.trans h
  call c hc s s' r h := by rw [Call.log_eq hc.1 h, hc.2, List.append_nil]

include henv

theorem log_settle {a : Attempt} (ha : a.after = (x.settle env c now a.timer a.before).2) :
    a.after.log = a.before.log ++ x.submitted env c a := by
  rw [ha]
  unfold submitted settle
  cases x.handler? a.timer.handlerType with
  | none => exact (List.append_nil _).symm
  | some t =>
    have hasks : (handleTimer c t a.timer).Asks Call.KeepsLog :=
      (asks_handleTimer c t a.timer).mono fun _ h => h.keepsLog
    have hrun := Command.log_run henv hasks a.before
    simp only
    split
    · next s' hhandler =>
      rw [hhandler] at hrun
      have hcall : (Call.deleteJob a.timer.id).KeepsLog ∧ (Call.deleteJob a.timer.id).rows = [] :=
        ⟨trivial, rfl⟩
      have hdelete : (deleteExecuted env a.timer s').2.log = s'.log :=
        (keepsOn_log env).step_call hcall _ s'
      exact hdelete.trans hrun
    · next cause s' hhandler =>
      rw [hhandler] at hrun
      have hfailure : (x.recordFailure env now a.timer cause s').2.log = s'.log := by
        unfold recordFailure
        split
        · rfl
        · next retryAt _ =>
          have hcall : (Call.recordJobFailure a.timer.id cause.message retryAt).KeepsLog ∧
              (Call.recordJobFailure a.timer.id cause.message retryAt).rows = [] := ⟨trivial, rfl⟩
          exact (keepsOn_log env).step_call hcall _ s'
      exact hfailure.trans hrun

theorem log_leads {attempts : List Attempt} {s s' : Stores}
    (h : Attempt.Leads x env c now attempts s s') :
    s'.log = s.log ++ attempts.flatMap (x.submitted env c) := by
  induction h with
  | nil s => exact (List.append_nil _).symm
  | cons ha hl ih => rw [ih, log_settle henv x c now ha, List.flatMap_cons, List.append_assoc]

/-- a pass submits what its handlers submit, one after the other -/
theorem log_runPass (limit : Nat) (s : Stores) :
    (x.runPass env c now limit s).2.log =
      s.log ++ (x.passAttempts env c now limit s).flatMap (x.submitted env c) := by
  rcases Nat.eq_zero_or_pos limit with rfl | hlimit
  · exact (List.append_nil _).symm
  · have hacquire := step_acquire henv x now s hlimit
    rw [runPass_eq hacquire, passAttempts, hacquire]
    exact log_leads henv x c now (attempts_lead x env c now _ s)

end TimerExecutor

/-! ## without full auditing -/

section
variable {env : Environment} (henv : env.Reliable) {c : CommandContext}
  (hc : c.isDetailed = false) (t : Transition)
include henv hc

theorem submitted_setJobDefinitionState (r : StateRequest) (s : Stores) :
    (setJobDefinitionState c t r).submitted env s = [] := by
  have hasks : (setJobDefinitionState c t r).Asks Call.KeepsLog :=
    asks_setJobDefinitionState (fun _ h => h.keepsLog) c t fun _ _ => trivial
  refine Command.submitted_eq henv hasks ?_
  rw [(setJobDefinitionState_outcome henv s c t r).log_eq hc, List.append_nil]

theorem submitted_setJobState (x : JobSelection) (o : Option String) (s : Stores) :
    (setJobState c t x o).submitted env s = [] := by
  have hasks : (setJobState c t x o).Asks Call.KeepsLog :=
    (asks_setJobState c t x o).mono fun _ h => h.keepsLog
  have hrows : (s.recorded env.ids c (x.audit s t o)).log = s.log := by
    rw [Stores.recorded_log, Stores.rows_eq_nil _ _ _ hc, List.append_nil]
  refine Command.submitted_eq henv hasks ?_
  have hstage := setJobState_stage env s c t x o
  generalize (setJobState c t x o).run env s = result at hstage
  rw [List.append_nil]
  cases hstage with
  | untouched e => rfl
  | recorded e => exact hrows
  | changed hx => exact hrows

theorem submitted_handleTimer (timer : Job) (s : Stores) :
    (handleTimer c t timer).submitted env s = [] := by
  have hasks : (handleTimer c t timer).Asks Call.KeepsLog :=
    (asks_handleTimer c t timer).mono fun _ h => h.keepsLog
  refine Command.submitted_eq henv hasks ?_
  unfold handleTimer
  rw [List.append_nil]
  cases timer.handlerConfiguration with
  | none => rfl
  | some text =>
    simp only [Command.run_bind, Command.run_liftM]
    cases TimerConfiguration.decode text with
    | error e => rfl
    | ok config => exact (setJobDefinitionState_outcome henv s c t _).log_eq hc

end

end JobSuspension
