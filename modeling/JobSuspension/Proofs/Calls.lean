import JobSuspension.Engine.Timers
import JobSuspension.Proofs.Selectors

/-!
# The calls of a command

Commands and passes do nothing to the stores but make calls, and whatever they are answered, each
makes calls of a few kinds only.  What these calls keep, they keep all along.

* `Command.Asks Q p`              every call that `p` may make is one of `Q`;
* `Call.OfChange`                 the calls of a change that is made at once;
* `Call.OfCascade`                those of them that a change of job definitions can make, which
                                  updates no single job;
* `Call.OfSettling id`            the calls that settle the timer `id`;
* `asks_setJobState`, `asks_setJobDefinitionState`, `asks_handleTimer`;
* `Environment.KeepsOn env Q R`   `R` leads from the stores before a call of `Q` to those after it;
* `KeepsOn.run`, `KeepsOn.settleAll`, `KeepsOn.runPass`   then it does so for a command, for a batch
                                  and for a pass.
-/

namespace JobSuspension

namespace Command

variable {α β : Type} {Q Q' : Call → Prop}

/-- whatever the answers, `p` makes no other calls -/
def Asks (Q : Call → Prop) : Command α → Prop
  | done _ => True
  | fail _ => True
  | next c k => Q c ∧ ∀ r, (k r).Asks Q

theorem asks_call {c : Call} (h : Q c) : (call c).Asks Q := ⟨h, fun _ => trivial⟩

theorem asks_liftM (x : Except EngineError α) : (liftM x : Command α).Asks Q := by
  cases x <;> trivial

theorem asks_of_forall (h : ∀ c, Q c) (p : Command α) : p.Asks Q := by
  induction p with
  | done a => trivial
  | fail e => trivial
  | next c k ih => exact ⟨h c, ih⟩

theorem Asks.bind {p : Command α} (hp : p.Asks Q) {f : α → Command β} (hf : ∀ a, (f a).Asks Q) :
    (p >>= f).Asks Q := by
  induction p with
  | done a => exact hf a
  | fail e => trivial
  | next c k ih => exact ⟨hp.1, fun r => ih r (hp.2 r)⟩

theorem Asks.mono {p : Command α} (hp : p.Asks Q) (h : ∀ c, Q c → Q' c) : p.Asks Q' := by
  induction p with
  | done a => trivial
  | fail e => trivial
  | next c k ih => exact ⟨h c hp.1, fun r => ih r (hp.2 r)⟩

theorem asks_forM {l : List α} {f : α → Command Unit} (hf : ∀ a ∈ l, (f a).Asks Q) :
    (l.forM f).Asks Q := by
  induction l with
  | nil => trivial
  | cons a l ih =>
    obtain ⟨hfirst, hf⟩ := List.forall_mem_cons.mp hf
    exact hfirst.bind fun _ => ih hf

end Command

/-! ## changes -/

open Command

/-- the calls of a change that is made at once -/
def Call.OfChange : Call → Prop
  | findJobDefinition _ => True
  | updateDefinitions _ _ => True
  | findJob _ => True
  | updateStartTimers _ _ => True
  | updateJobs _ _ => True
  | produceEntries _ _ => True
  | recordEntries _ => True
  | _ => False

/-- the calls that record a change -/
def Call.OfJournal : Call → Prop
  | findJobDefinition _ => True
  | findJob _ => True
  | produceEntries _ _ => True
  | recordEntries _ => True
  | _ => False

/-- the calls of a change of job definitions that is made at once -/
structure Call.OfCascade (c : Call) : Prop where
  ofChange : c.OfChange
  /-- no single job is updated -/
  key_ne : ∀ x state, c = .updateJobs x state → x.key ≠ .jobId

theorem Call.OfJournal.ofCascade {c : Call} (h : c.OfJournal) : c.OfCascade := by
  cases c <;> first | exact h.elim | exact ⟨trivial, fun _ _ h => by cases h⟩

theorem Call.OfJournal.ofChange {c : Call} (h : c.OfJournal) : c.OfChange := h.ofCascade.ofChange

namespace Journal

theorem asks_record (c : CommandContext) (a : AuditContext) :
    (record c a).Asks Call.OfJournal := by
  unfold record whenDetailed
  split
  · exact (asks_call trivial).bind fun _ => (asks_call trivial).bind fun _ => trivial
  · trivial

theorem asks_requireJobDefinition (id : String) :
    (requireJobDefinition id).Asks Call.OfJournal :=
  (asks_call trivial).bind fun d => by cases d <;> trivial

theorem asks_requireJob (id : String) : (requireJob id).Asks Call.OfJournal :=
  (asks_call trivial).bind fun j => by cases j <;> trivial

theorem asks_jobDefinition (c : CommandContext) (o : OperationType) (x : DefinitionSelection)
    (change : PropertyChange) : (jobDefinition c o x change).Asks Call.OfJournal := by
  unfold jobDefinition whenDetailed
  split
  · refine Asks.bind ?_ fun _ => asks_record c _
    unfold ownersOfDefinitions
    split
    · exact (asks_requireJobDefinition _).bind fun _ => trivial
    · trivial
  · trivial

theorem asks_job (c : CommandContext) (operationId : Option String) (o : OperationType)
    (x : JobSelection) (change : PropertyChange) :
    (job c operationId o x change).Asks Call.OfJournal := by
  unfold job whenDetailed
  split
  · refine Asks.bind ?_ fun _ => asks_record c _
    unfold ownersOfJobs
    split
    · exact (asks_requireJob _).bind fun _ => trivial
    · exact (asks_requireJobDefinition _).bind fun _ => trivial
    · trivial
  · trivial

end Journal

section
variable {Q : Call → Prop}

/-- a change of jobs updates those that its selector selects -/
theorem asks_setJobState_of (hQ : ∀ c : Call, c.OfJournal → Q c) (c : CommandContext)
    (t : Transition) {x : JobSelection} (o : Option String)
    (hupdate : ∀ sel, x.find? = some sel → Q (.updateJobs sel t.target)) :
    (setJobState c t x o).Asks Q := by
  cases hx : x.find? with
  | none =>
    have hresolve : x.normalized.resolve = .error .noJobSelector := by
      simp only [JobSelection.resolve, JobSelection.find_normalized, hx]
    simp only [setJobState, hresolve]
    trivial
  | some sel =>
    have hresolve : x.normalized.resolve = .ok sel := by
      simp only [JobSelection.resolve, JobSelection.find_normalized, hx]
    simp only [setJobState, hresolve]
    show (Journal.job c o t.jobOperation x.normalized t.change >>= fun _ =>
      call (.updateJobs sel t.target)).Asks Q
    exact ((Journal.asks_job _ _ _ _ _).mono hQ).bind fun _ => asks_call (hupdate sel hx)

theorem asks_setJobState (c : CommandContext) (t : Transition) (x : JobSelection)
    (o : Option String) : (setJobState c t x o).Asks Call.OfChange :=
  asks_setJobState_of (fun _ h => h.ofChange) c t o fun _ _ => trivial

theorem asks_applyState (c : CommandContext) (t : Transition) (x : DefinitionSelector) (b : Bool)
    (o : Option String) : (applyState c t x b o).Asks Call.OfCascade := by
  have hupdate : (Call.updateDefinitions x t.target).OfCascade :=
    ⟨trivial, fun _ _ h => by cases h⟩
  refine (asks_call hupdate).bind fun _ => Asks.bind ?_ fun _ => ?_
  · unfold setStartTimers
    split
    · exact asks_call ⟨trivial, fun _ _ h => by cases h⟩
    · trivial
  · split
    · refine asks_setJobState_of (fun _ h => h.ofCascade) c t _ fun sel hsel => ⟨trivial, ?_⟩
      rintro _ _ ⟨⟩ hkey
      -- the jobs of job definitions are never selected by their own ids
      have hget := (JobSelection.find?_eq_some hsel).1
      rw [hkey, DefinitionSelection.get_jobId_toJobSelection] at hget
      cases hget
    · trivial

/-- a change that is made at once schedules no timer -/
theorem asks_setJobDefinitionState (hQ : ∀ c : Call, c.OfCascade → Q c)
    (c : CommandContext) (t : Transition) {r : StateRequest}
    (hlater : r.executionDate ≠ none → ∀ a, Q (.scheduleTimer a)) :
    (setJobDefinitionState c t r).Asks Q := by
  refine (asks_liftM _).bind fun _ => Asks.bind ?_ fun _ => ?_
  · exact (Journal.asks_jobDefinition _ _ _ _).mono fun c h => hQ c h.ofCascade
  · cases hd : r.executionDate with
    | some date =>
      have hschedule := hlater (by rw [hd]; exact Option.some_ne_none date)
      exact (asks_call (hschedule _)).bind fun _ => trivial
    | none => exact (asks_applyState _ _ _ _ _).mono hQ

end

theorem asks_handleTimer (c : CommandContext) (t : Transition) (timer : Job) :
    (handleTimer c t timer).Asks Call.OfCascade := by
  unfold handleTimer
  split
  · trivial
  · exact (asks_liftM _).bind fun _ =>
      asks_setJobDefinitionState (fun _ => id) c t fun h => (h rfl).elim

/-- the calls that settle a timer -/
inductive Call.OfSettling (id : String) : Call → Prop where
  | handle {c : Call} (h : c.OfCascade) : OfSettling id c
  | delete : OfSettling id (.deleteJob id)
  | recordFailure (message : String) (retryAt : Instant) :
      OfSettling id (.recordJobFailure id message retryAt)

/-! ## what calls keep -/

structure Environment.KeepsOn (env : Environment) (Q : Call → Prop) (R : Stores → Stores → Prop) :
    Prop where
  refl : ∀ s, R s s
  trans : ∀ {s s' s''}, R s s' → R s' s'' → R s s''
  call : ∀ (c : Call), Q c → ∀ {s s' : Stores} {r : c.Reply}, c.perform env s = .ok (r, s') → R s s'

namespace Environment.KeepsOn

variable {env : Environment} {Q : Call → Prop} {R : Stores → Stores → Prop} (h : env.KeepsOn Q R)
include h

theorem run {α : Type} {p : Command α} (hp : p.Asks Q) (s : Stores) : R s (p.run env s).2 := by
  induction p generalizing s with
  | done a => exact h.refl s
  | fail e => exact h.refl s
  | next c k ih =>
    rw [Command.run_next]
    cases hanswer : c.answer env s with
    | error e => exact h.refl s
    | ok answer =>
      obtain ⟨r, s'⟩ := answer
      unfold Call.answer at hanswer
      split at hanswer
      · cases hanswer
      · exact h.trans (h.call c hp.1 hanswer) (ih r (hp.2 r) s')

open TimerExecutor

theorem step {α : Type} {p : Command α} (hp : p.Asks Q) (s : Stores) : R s (step env p s).2 := by
  have hrun := h.run hp s
  unfold TimerExecutor.step
  split <;> (next heq => rw [heq] at hrun; exact hrun)

/-- the end of an attempt, one call -/
theorem step_call {α : Type} {c : Call} (hc : Q c) (f : c.Reply → α) (s : Stores) :
    R s (TimerExecutor.step env (do return f (← Command.call c)) s).2 := by
  refine h.step ((asks_call hc).bind ?_) s
  exact fun _ => trivial

variable (x : TimerExecutor) (c : CommandContext) (now : Instant)

theorem settle {timer : Job} (hQ : ∀ c : Call, c.OfSettling timer.id → Q c) (s : Stores) :
    R s (x.settle env c now timer s).2 := by
  unfold TimerExecutor.settle
  split
  · exact h.refl s
  · next t ht =>
    have hrun := h.run ((asks_handleTimer c t timer).mono fun c hc => hQ c (.handle hc)) s
    split
    · next s' heq =>
      rw [heq] at hrun
      exact h.trans hrun (h.step_call (hQ _ .delete) _ s')
    · next e s' heq =>
      rw [heq] at hrun
      unfold recordFailure
      split
      · exact hrun
      · next retryAt hretry =>
        exact h.trans hrun (h.step_call (hQ _ (.recordFailure e.message retryAt)) _ s')

theorem settleAll {timers : List Job}
    (hQ : ∀ timer ∈ timers, ∀ c : Call, c.OfSettling timer.id → Q c) (s : Stores) :
    R s (x.settleAll env c now timers s).2 := by
  induction timers generalizing s with
  | nil => exact h.refl s
  | cons timer timers ih =>
    obtain ⟨hfirst, hQ⟩ := List.forall_mem_cons.mp hQ
    have hsettle := h.settle x c now hfirst s
    unfold TimerExecutor.settleAll
    split
    · next heq =>
      rw [heq] at hsettle
      exact hsettle
    · next o s' heq =>
      rw [heq] at hsettle
      have hall := h.trans hsettle (ih hQ s')
      split <;> (next heq' => rw [heq'] at hall; exact hall)

theorem runPass {limit : Nat} (hacquire : ∀ types, Q (.acquireDueTimers now types limit))
    (hQ : ∀ (id : String) (c : Call), c.OfSettling id → Q c) (s : Stores) :
    R s (x.runPass env c now limit s).2 := by
  have hacquires : (x.acquire now limit).Asks Q := by
    unfold TimerExecutor.acquire
    split
    · trivial
    · exact asks_call (hacquire _)
  have hstep := h.step hacquires s
  unfold TimerExecutor.runPass
  split
  · next heq =>
    rw [heq] at hstep
    exact hstep
  · next timers s' heq =>
    rw [heq] at hstep
    have hbatch : R s' (x.settleAll env c now timers s').2 :=
      h.settleAll x c now (fun timer _ => hQ timer.id) s'
    have hall := h.trans hstep hbatch
    split <;> (next heq' => rw [heq'] at hall; exact hall)

end Environment.KeepsOn
end JobSuspension
