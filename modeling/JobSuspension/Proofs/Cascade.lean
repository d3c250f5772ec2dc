import JobSuspension.Proofs.Outcomes

/-!
# The jobs of the selected job definitions

A change of job definitions that takes their jobs along finds the job definitions by what they say
about themselves, and the jobs by what these say about their owners.  Nothing makes a job repeat
what its job definition says.  So a job follows its job definition if it repeats the identifier that
the selector looks at, which it always does for the id of the job definition itself, and stays as it
is otherwise.

* `Job.Agrees j d key`                `j` says about its owners what `d` says under `key`;
* `DefinitionSelector.reaches_true`   the jobs that start instances are among those that agree;
* `ChangeOutcome.cascaded`            the stores after a change that takes the jobs along;
* `cascade_reaches_agreeing_jobs`     which jobs of a selected job definition follow it.
-/

namespace JobSuspension

/-! ## agreement -/

def Job.Agrees (j : Job) (d : JobDefinition) (key : DefinitionKey) : Prop :=
  j.get key.jobKey = some (d.get key)

instance (j : Job) (d : JobDefinition) (key : DefinitionKey) : Decidable (j.Agrees d key) :=
  inferInstanceAs (Decidable (j.get key.jobKey = some (d.get key)))

/-- a job names its job definition by the id of the latter -/
theorem Job.agrees_of_jobDefinitionId {j : Job} {d : JobDefinition}
    (h : j.jobDefinitionId = some d.id) : j.Agrees d .jobDefinitionId := h

namespace DefinitionSelector

/-- a start timer that is reached as such is also one of the jobs asked for -/
theorem reaches_true (x : DefinitionSelector) (j : Job) :
    x.reaches true j = x.jobSelector.selects j := by
  obtain ⟨key, v⟩ := x
  cases key with
  | jobDefinitionId => rfl
  | processDefinitionId =>
    show (j.isStartTimer && j.processDefinitionId == some v || _) = _
    cases j.isStartTimer
    · rfl
    · exact Bool.or_self _
  | processDefinitionKey =>
    show (j.isStartTimer && j.processDefinitionKey == some v || _) = _
    cases j.isStartTimer
    · rfl
    · exact Bool.or_self _

theorem jobSelector_selects {x : DefinitionSelector} {j : Job} :
    x.jobSelector.selects j = true ↔ j.get x.key.jobKey = some x.value := by
  unfold JobSelector.selects jobSelector
  exact beq_iff_eq

/-- among the jobs of a selected job definition -/
theorem jobSelector_selects_iff_agrees {x : DefinitionSelector} {d : JobDefinition}
    (hd : x.selects d = true) {j : Job} : x.jobSelector.selects j = true ↔ j.Agrees d x.key := by
  have hvalue : d.get x.key = x.value := beq_iff_eq.mp hd
  rw [jobSelector_selects, Job.Agrees, hvalue]

end DefinitionSelector

/-! ## the cascade -/

theorem ChangeOutcome.cascaded {s s' : Stores} {ids : IdSupply} {c : CommandContext}
    {t : Transition} {r : StateRequest} (h : ChangeOutcome s ids c t r (.ok (), s'))
    (hdate : r.executionDate = none) (hjobs : r.includeJobs = true) :
    ∃ x, r.selection.find? = some x ∧
      s'.definitions = (s.definitions.map fun d => if x.selects d then d.withState t.target else d) ∧
      s'.jobs = s.jobs.map fun j =>
        if x.jobSelector.selects j then j.withState t.target else j := by
  cases h with
  | scheduled hx hd =>
    rw [hdate] at hd
    cases hd
  | @changed x hx =>
    refine ⟨x, hx, ?_, ?_⟩
    · rw [Stores.applied_definitions, Stores.recorded_definitions]
    · rw [Stores.applied_jobs, Stores.recorded_jobs, hjobs]
      simp only [DefinitionSelector.reaches_true]

/-- **Which jobs follow their job definitions.**  A change that is made at once and takes the jobs
along gives its state to the jobs that carry the identifier the selector looks at, and to no others.
So every selected job definition changes, and of its jobs those that agree with it on this
identifier; all of them if it was selected by its own id. -/
theorem cascade_reaches_agreeing_jobs {env : Environment} (henv : env.Reliable) {s s' : Stores}
    {c : CommandContext} {t : Transition} {r : StateRequest} (hdate : r.executionDate = none)
    (hjobs : r.includeJobs = true)
    (hrun : (setJobDefinitionState c t r).run env s = (.ok (), s')) :
    ∃ x, r.selection.find? = some x ∧
      (∀ k, s'.jobs.get? k = (s.jobs.get? k).map fun j =>
        if j.get x.key.jobKey = some x.value then j.withState t.target else j) ∧
      ∀ k d, s.definitions.get? k = some d → x.selects d = true →
        s'.definitions.get? k = some (d.withState t.target) ∧
          ∀ k' j, s.jobs.get? k' = some j → j.jobDefinitionId = some d.id →
            s'.jobs.get? k' = some (if x.key = .jobDefinitionId ∨ j.Agrees d x.key
              then j.withState t.target else j) := by
  have hout := setJobDefinitionState_outcome henv s c t r
  rw [hrun] at hout
  obtain ⟨x, hx, hdefinitions, hleft⟩ := hout.cascaded hdate hjobs
  refine ⟨x, hx, fun k => ?_, fun k d hd hselects => ⟨?_, fun k' j hj howner => ?_⟩⟩
  · rw [hleft, Table.get?_map]
    simp only [DefinitionSelector.jobSelector_selects]
  · rw [hdefinitions, Table.get?_map, hd, Option.map_some, if_pos hselects]
  · -- a selector by job definition id finds every job of the job definition
    have hagrees : x.jobSelector.selects j = true ↔
        (x.key = .jobDefinitionId ∨ j.Agrees d x.key) := by
      rw [DefinitionSelector.jobSelector_selects_iff_agrees hselects]
      refine ⟨.inr, ?_⟩
      rintro (hkey | hagrees)
      · rw [hkey]
        exact Job.agrees_of_jobDefinitionId howner
      · exact hagrees
    rw [hleft, Table.get?_map, hj, Option.map_some]
    simp only [hagrees]

/-- two jobs of one job definition, which is selected by a key that only one of them repeats: the
other one stays active -/
theorem cascade_reaches_agreeing_jobs_only :
    let env : Environment := { ids := ⟨fun _ => "timer", fun _ => "entry", fun _ => "operation"⟩ }
    let c : CommandContext := { actor := none, level := .none }
    let d : JobDefinition := ⟨"d", "order:1", "order", none, "message", .active⟩
    let j : Job := { id := "j", handlerType := "message", jobDefinitionId := some "d" }
    let k : Job := { j with id := "k", processDefinitionKey := some "order" }
    let s : Stores := ((Stores.putDefinition {} d).putJob j).putJob k
    let r : StateRequest :=
      { selection := { processDefinitionKey := some "order" }, includeJobs := true }
    env.Reliable ∧ r.executionDate = none ∧ r.includeJobs = true ∧
      ∃ s', (setJobDefinitionState c .suspend r).run env s = (.ok (), s') ∧
        s'.definitions.get? "d" = some (d.withState .suspended) ∧
        s'.jobs.get? "j" = some j ∧ s'.jobs.get? "k" = some (k.withState .suspended) := by
  intro env c d j k s r
  have henv : env.Reliable := ⟨fun _ => rfl, rfl⟩
  obtain ⟨s', hrun⟩ : ∃ s', (setJobDefinitionState c .suspend r).run env s = (.ok (), s') :=
    ⟨_, rfl⟩
  obtain ⟨x, hx, -, hfollow⟩ := cascade_reaches_agreeing_jobs henv rfl rfl hrun
  obtain rfl : x = ⟨.processDefinitionKey, "order"⟩ := (Option.some.inj hx).symm
  obtain ⟨hdefinition, hfollows⟩ := hfollow "d" d rfl (by decide)
  have hdisagrees : ¬ (DefinitionKey.processDefinitionKey = .jobDefinitionId ∨
      j.Agrees d .processDefinitionKey) := by decide
  have hstored : s.jobs.get? "j" = some j ∧ s.jobs.get? "k" = some k := by
    simp +zetaDelta only
    decide +kernel
  have hj := hfollows "j" j hstored.1 rfl
  have hk := hfollows "k" k hstored.2 rfl
  rw [if_neg hdisagrees] at hj
  rw [if_pos (.inr rfl)] at hk
  exact ⟨henv, rfl, rfl, s', hrun, hdefinition, hj, hk⟩

end JobSuspension
