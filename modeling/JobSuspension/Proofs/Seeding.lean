import JobSuspension.Proofs.Recording
import JobSuspension.Seed

/-!
# Applying a seed

Every record is checked before the first one is saved, and saving a record refuses nothing that was
checked.  So a seed is refused as a whole or saved as a whole; each record replaces what is stored
under its id, and the last one with an id stays.

* `EngineSeed.HasBlank x`            what is wrong with a seed that is refused;
* `JobDefinition.Draft.built d`      the job definition made of a draft;
* `Table.insertAll f t l`            the table with all records of a list, each under its id;
* `Table.get?_insertAll`             the last record with an id, or the one that was there before;
* `EngineSeed.seeded x s`            the stores with the records of a seed;
* `EngineSeed.apply_eq`              what applying a seed comes to;
* `EngineSeed.SavedIn x s s'`        the same, id by id;
* `seeding_is_all_or_nothing`        when a seed is refused, and what is saved otherwise.
-/

namespace JobSuspension

/-! ## checks -/

namespace JobDefinition

def Draft.HasBlank (d : Draft) : Prop :=
  Text.isBlank d.id = true ∨ Text.isBlank d.processDefinitionId = true ∨
    Text.isBlank d.processDefinitionKey = true ∨ Text.isBlank d.jobType = true

instance (d : Draft) : Decidable d.HasBlank := inferInstanceAs (Decidable (_ ∨ _))

def Draft.built (d : Draft) : JobDefinition where
  id := d.id
  processDefinitionId := d.processDefinitionId
  processDefinitionKey := d.processDefinitionKey
  activityId := Text.trimmed? d.activityId
  jobType := d.jobType
  state := d.state

theorem ofDraft_eq (d : Draft) :
    ofDraft d = if d.HasBlank then .error .blankValue else .ok d.built := by
  by_cases hid : Text.isBlank d.id = true <;>
    by_cases hprocess : Text.isBlank d.processDefinitionId = true <;>
    by_cases hkey : Text.isBlank d.processDefinitionKey = true <;>
    by_cases htype : Text.isBlank d.jobType = true <;>
    simp [ofDraft, Text.required, Draft.HasBlank, hid, hprocess, hkey, htype] <;> rfl

end JobDefinition

def Job.HasBlank (j : Job) : Prop :=
  Text.isBlank j.id = true ∨ Text.isBlank j.handlerType = true

instance (j : Job) : Decidable j.HasBlank := inferInstanceAs (Decidable (_ ∨ _))

theorem Job.validate_of_not_hasBlank {j : Job} (h : ¬ j.HasBlank) : j.validate = .ok () := by
  obtain ⟨hid, htype⟩ := not_or.mp h
  rw [validate, if_neg hid, if_neg htype]

theorem Job.validate_of_hasBlank {j : Job} (h : j.HasBlank) :
    ∃ e, j.validate = .error e ∧ e.kind = .invalidRequest := by
  unfold validate
  split
  · exact ⟨_, rfl, rfl⟩
  · next hid =>
    rw [if_pos (h.resolve_left hid)]
    exact ⟨_, rfl, rfl⟩

namespace EngineSeed

/-- a record has an identifier that must not be blank but is -/
def HasBlank (x : EngineSeed) : Prop :=
  (∃ d ∈ x.definitions, d.HasBlank) ∨ ∃ j ∈ x.jobs, j.HasBlank

instance (x : EngineSeed) : Decidable x.HasBlank := inferInstanceAs (Decidable (_ ∨ _))

theorem mapM_ofDraft (l : List JobDefinition.Draft) :
    l.mapM JobDefinition.ofDraft =
      if ∃ d ∈ l, d.HasBlank then .error .blankValue else .ok (l.map JobDefinition.Draft.built) := by
  induction l with
  | nil => simp [pure, Except.pure]
  | cons d l ih =>
    rw [List.mapM_cons, ih, JobDefinition.ofDraft_eq]
    by_cases hd : d.HasBlank <;> by_cases hl : ∃ d ∈ l, d.HasBlank <;>
      simp [hd, hl, bind, Except.bind, pure, Except.pure]

theorem forM_validate {l : List Job} (h : ∀ j ∈ l, ¬ j.HasBlank) :
    l.forM Job.validate = .ok () := by
  induction l with
  | nil => rfl
  | cons j l ih =>
    obtain ⟨hj, hl⟩ := List.forall_mem_cons.mp h
    rw [List.forM, Job.validate_of_not_hasBlank hj]
    exact ih hl

/-- the first job with a blank is refused -/
theorem forM_validate_of_hasBlank {l : List Job} (h : ∃ j ∈ l, j.HasBlank) :
    ∃ e, l.forM Job.validate = .error e ∧ e.kind = .invalidRequest := by
  induction l with
  | nil =>
    obtain ⟨j, hj, -⟩ := h
    exact absurd hj List.not_mem_nil
  | cons j l ih =>
    rw [List.forM]
    by_cases hj : j.HasBlank
    · obtain ⟨e, he, hkind⟩ := Job.validate_of_hasBlank hj
      rw [he]
      exact ⟨e, rfl, hkind⟩
    · rw [Job.validate_of_not_hasBlank hj]
      obtain ⟨k, hk, hblank⟩ := h
      have htail : k ∈ l := (List.mem_cons.mp hk).resolve_left fun heq => hj (heq ▸ hblank)
      exact ih ⟨k, htail, hblank⟩

theorem checked_of_not_hasBlank {x : EngineSeed} (h : ¬ x.HasBlank) :
    x.checked = .ok (x.definitions.map JobDefinition.Draft.built) := by
  obtain ⟨hdefinitions, hjobs⟩ := not_or.mp h
  rw [checked, mapM_ofDraft, if_neg hdefinitions,
    forM_validate fun j hj hblank => hjobs ⟨j, hj, hblank⟩]
  rfl

theorem checked_of_hasBlank {x : EngineSeed} (h : x.HasBlank) :
    ∃ e, x.checked = .error e ∧ e.kind = .invalidRequest := by
  rw [checked, mapM_ofDraft]
  by_cases hdefinitions : ∃ d ∈ x.definitions, d.HasBlank
  · rw [if_pos hdefinitions]
    exact ⟨_, rfl, rfl⟩
  · obtain ⟨e, he, hkind⟩ := forM_validate_of_hasBlank (h.resolve_left hdefinitions)
    rw [if_neg hdefinitions, he]
    exact ⟨e, rfl, hkind⟩

end EngineSeed

/-! ## saving -/

namespace Table

variable {α : Type}

def insertAll (f : α → String) (t : Table α) (l : List α) : Table α :=
  l.foldl (fun t a => t.insert (f a) a) t

theorem insertAll_cons (f : α → String) (t : Table α) (a : α) (l : List α) :
    t.insertAll f (a :: l) = (t.insert (f a) a).insertAll f l := rfl

theorem get?_insertAll (f : α → String) (t : Table α) (l : List α) (k : String) :
    (t.insertAll f l).get? k = (l.filter (f · = k)).getLast?.or (t.get? k) := by
  induction l generalizing t with
  | nil => rfl
  | cons a l ih =>
    rw [insertAll_cons, ih, get?_insert]
    by_cases hk : f a = k
    · rw [List.filter_cons_of_pos (by simpa using hk), List.getLast?_cons, if_pos hk]
      cases (l.filter (f · = k)).getLast? <;> rfl
    · rw [List.filter_cons_of_neg (by simpa using hk), if_neg hk]

/-- a list of records leaves nothing for itself to replace -/
theorem insertAll_insertAll (f : α → String) (t : Table α) (l : List α) :
    (t.insertAll f l).insertAll f l = t.insertAll f l := by
  refine ext_get? fun k => ?_
  simp only [get?_insertAll]
  cases (l.filter (f · = k)).getLast? <;> rfl

end Table

theorem Command.run_forM {α : Type} {env : Environment} {p : α → Command Unit}
    {g : Stores → α → Stores} {l : List α}
    (h : ∀ a ∈ l, ∀ s, (p a).run env s = (.ok (), g s a)) (s : Stores) :
    (l.forM p).run env s = (.ok (), l.foldl g s) := by
  induction l generalizing s with
  | nil => rfl
  | cons a l ih =>
    obtain ⟨ha, hl⟩ := List.forall_mem_cons.mp h
    rw [List.forM, Command.run_bind, ha]
    exact ih hl _

namespace EngineSeed

variable (x : EngineSeed) (s : Stores)

def seeded : Stores :=
  { s with
    definitions := s.definitions.insertAll JobDefinition.id
      (x.definitions.map JobDefinition.Draft.built)
    jobs := s.jobs.insertAll Job.id x.jobs
    processInstances := s.processInstances.insertAll ProcessInstance.id x.processInstances }

theorem foldl_putDefinition (l : List JobDefinition) (s : Stores) :
    l.foldl Stores.putDefinition s =
      { s with definitions := s.definitions.insertAll JobDefinition.id l } := by
  induction l generalizing s with
  | nil => rfl
  | cons d l ih => exact ih (s.putDefinition d)

theorem foldl_putJob (l : List Job) (s : Stores) :
    l.foldl Stores.putJob s = { s with jobs := s.jobs.insertAll Job.id l } := by
  induction l generalizing s with
  | nil => rfl
  | cons j l ih => exact ih (s.putJob j)

theorem foldl_putProcessInstance (l : List ProcessInstance) (s : Stores) :
    l.foldl Stores.putProcessInstance s =
      { s with processInstances := s.processInstances.insertAll ProcessInstance.id l } := by
  induction l generalizing s with
  | nil => rfl
  | cons p l ih => exact ih (s.putProcessInstance p)

variable {x} {env : Environment} (henv : env.Reliable)
include henv

theorem run_saveAll (definitions : List JobDefinition) {jobs : List Job}
    (hjobs : ∀ j ∈ jobs, ¬ j.HasBlank) :
    (saveAll definitions jobs).run env s =
      (.ok (), jobs.foldl Stores.putJob (definitions.foldl Stores.putDefinition s)) := by
  have hdefinition (d : JobDefinition) (s : Stores) :
      (Command.call (.saveJobDefinition d)).run env s = (.ok (), s.putDefinition d) :=
    Command.run_call henv _
  have hjob (j : Job) (hj : j ∈ jobs) (s : Stores) :
      (Command.call (.saveJob j)).run env s = (.ok (), s.putJob j) := by
    rw [Command.run_call henv, Call.perform, Job.validate_of_not_hasBlank (hjobs j hj)]
    rfl
  rw [saveAll, Command.run_bind, Command.run_forM fun d _ => hdefinition d]
  exact Command.run_forM hjob _

theorem apply_eq (h : ¬ x.HasBlank) : x.apply env s = (.ok x.counts, x.seeded s) := by
  have hjobs : ∀ j ∈ x.jobs, ¬ j.HasBlank := fun j hj hblank => h (.inr ⟨j, hj, hblank⟩)
  rw [apply, checked_of_not_hasBlank h]
  simp only [run_saveAll s henv _ hjobs, foldl_putDefinition, foldl_putJob,
    foldl_putProcessInstance]
  rfl

omit henv in
theorem apply_of_hasBlank (env : Environment) (h : x.HasBlank) :
    ∃ e, x.apply env s = (.error e, s) ∧ e.kind = .invalidRequest := by
  obtain ⟨e, he, hkind⟩ := checked_of_hasBlank h
  rw [apply, he]
  exact ⟨e, rfl, hkind⟩

end EngineSeed


/-! ## record by record -/

namespace Table

theorem get?_insertAll_map {α β : Type} {f : β → String} {g : α → String} {build : α → β}
    (hid : ∀ a, f (build a) = g a) (t : Table β) (l : List α) (k : String) :
    (t.insertAll f (l.map build)).get? k =
      ((l.filter (g · = k)).getLast?.map build).or (t.get? k) := by
  rw [get?_insertAll, List.filter_map, List.getLast?_map]
  simp only [Function.comp_def, hid]

end Table

namespace EngineSeed

/-- `after` holds, under every id, the last record that `x` has for it, and otherwise what `before`
held -/
structure SavedIn (x : EngineSeed) (before after : Stores) : Prop where
  definitions : ∀ id, after.definitions.get? id =
    ((x.definitions.filter (·.id = id)).getLast?.map JobDefinition.Draft.built).or
      (before.definitions.get? id)
  jobs : ∀ id, after.jobs.get? id =
    (x.jobs.filter (·.id = id)).getLast?.or (before.jobs.get? id)
  processInstances : ∀ id, after.processInstances.get? id =
    (x.processInstances.filter (·.id = id)).getLast?.or (before.processInstances.get? id)
  rest : after = { before with
    definitions := after.definitions
    jobs := after.jobs
    processInstances := after.processInstances }

theorem savedIn_seeded (x : EngineSeed) (s : Stores) : x.SavedIn s (x.seeded s) where
  definitions := Table.get?_insertAll_map (fun _ => rfl) s.definitions x.definitions
  jobs := Table.get?_insertAll Job.id s.jobs x.jobs
  processInstances := Table.get?_insertAll ProcessInstance.id s.processInstances x.processInstances
  rest := rfl

theorem seeded_seeded (x : EngineSeed) (s : Stores) : x.seeded (x.seeded s) = x.seeded s := by
  simp only [seeded, Table.insertAll_insertAll]

theorem ofDraft_of_mem {x : EngineSeed} (h : ¬ x.HasBlank) {d : JobDefinition.Draft}
    (hd : d ∈ x.definitions) : JobDefinition.ofDraft d = .ok d.built := by
  rw [JobDefinition.ofDraft_eq, if_neg fun hblank => h (.inl ⟨d, hd, hblank⟩)]

end EngineSeed

/-- **A seed is saved as a whole or not at all.**  It is refused, as an invalid request and with the
stores as they were, exactly when an identifier of a job definition or of a job is blank, wherever
the record stands.  Otherwise the records are counted and saved, the last one with an id over all
others with it, and saving them again changes nothing. -/
theorem seeding_is_all_or_nothing {env : Environment} (henv : env.Reliable) (x : EngineSeed)
    (s : Stores) :
    ((∃ e, (x.apply env s).1 = .error e) ↔ x.HasBlank) ∧
    (x.HasBlank → ∃ e, x.apply env s = (.error e, s) ∧ e.kind = .invalidRequest) ∧
    (¬ x.HasBlank →
      (x.apply env s).1 =
        .ok ⟨x.definitions.length, x.jobs.length, x.processInstances.length⟩ ∧
      (∀ d ∈ x.definitions, JobDefinition.ofDraft d = .ok d.built) ∧
      x.SavedIn s (x.apply env s).2) ∧
    x.apply env (x.apply env s).2 = x.apply env s := by
  by_cases h : x.HasBlank
  · obtain ⟨e, he, hkind⟩ := EngineSeed.apply_of_hasBlank s env h
    refine ⟨⟨fun _ => h, fun _ => ⟨e, by rw [he]⟩⟩, fun _ => ⟨e, he, hkind⟩,
      fun hvalid => absurd h hvalid, ?_⟩
    simp only [he]
  · have happly := EngineSeed.apply_eq s henv h
    refine ⟨⟨fun hfails => ?_, fun hblank => absurd hblank h⟩, fun hblank => absurd hblank h,
      fun _ => ⟨?_, fun d => EngineSeed.ofDraft_of_mem h, ?_⟩, ?_⟩
    · obtain ⟨e, he⟩ := hfails
      rw [happly] at he
      cases he
    · rw [happly]
      rfl
    · rw [happly]
      exact EngineSeed.savedIn_seeded x s
    · rw [happly, EngineSeed.apply_eq _ henv h, EngineSeed.seeded_seeded]

/-- the second definition with the id `d` stays, over the first and over the stored one; one more,
with a blank job type, and nothing is saved -/
theorem seeding_is_all_or_nothing_twice :
    let env : Environment := { ids := ⟨fun _ => "timer", fun _ => "entry", fun _ => "operation"⟩ }
    let draft (type activity : String) : JobDefinition.Draft :=
      { id := "d", processDefinitionId := "order:1", processDefinitionKey := "order",
        activityId := some activity, jobType := type }
    let job : Job := { id := "j", handlerType := "message" }
    let x : EngineSeed := { definitions := [draft "message" "a", draft "async" " b "] }
    let bad : EngineSeed := { x with definitions := x.definitions ++ [draft " " "c"] }
    let s : Stores := (Stores.putDefinition {} (draft "timer" "z").built).putJob job
    env.Reliable ∧ ¬ x.HasBlank ∧ bad.HasBlank ∧
      (x.apply env s).1 = .ok ⟨2, 0, 0⟩ ∧
      (x.apply env s).2.definitions.get? "d" =
        some ⟨"d", "order:1", "order", some "b", "async", .active⟩ ∧
      (x.apply env s).2.jobs.get? "j" = some job ∧
      (bad.apply env s).2 = s := by
  intro env draft job x bad s
  have henv : env.Reliable := ⟨fun _ => rfl, rfl⟩
  have hx : ¬ x.HasBlank := by decide +kernel
  have hbad : bad.HasBlank := by decide +kernel
  obtain ⟨hcounts, -, hsaved⟩ := (seeding_is_all_or_nothing henv x s).2.2.1 hx
  obtain ⟨e, he, -⟩ := (seeding_is_all_or_nothing henv bad s).2.1 hbad
  refine ⟨henv, hx, hbad, hcounts, ?_, ?_, by rw [he]⟩
  · rw [hsaved.definitions]
    simp +zetaDelta only
    decide +kernel
  · rw [hsaved.jobs]
    simp +zetaDelta only
    decide +kernel

end JobSuspension
