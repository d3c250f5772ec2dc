import JobSuspension.Job
import JobSuspension.JobDefinition

/-!
# Selectors of a selection

The selector that comes out of a selection carries a text that is not blank, and a selection that
carries nothing but this selector resolves to it again, for job definitions and for their jobs.

* `DefinitionSelector.jobSelector s`   the same identifier, looked for on jobs;
* `DefinitionSelector.reaches s b j`   a change of the definitions under `s` reaches the job `j`: as
                                       one of their jobs if `b`, or because it starts instances;
* `Job.Unowned j`                      `j` belongs to nobody, so that no such change reaches it;
* `find?_toSelection`, `find?_toJobSelection`   resolving the selection of one selector.
-/

namespace JobSuspension

namespace DefinitionKey

def jobKey : DefinitionKey → JobKey
  | jobDefinitionId => .jobDefinitionId
  | processDefinitionId => .processDefinitionId
  | processDefinitionKey => .processDefinitionKey

end DefinitionKey

namespace DefinitionSelector

def jobSelector (s : DefinitionSelector) : JobSelector := ⟨s.key.jobKey, s.value⟩

def reaches (s : DefinitionSelector) (includeJobs : Bool) (j : Job) : Bool :=
  s.processDefinition?.any (·.startsFrom j) || includeJobs && s.jobSelector.selects j

end DefinitionSelector

structure Job.Unowned (j : Job) : Prop where
  jobDefinitionId : j.jobDefinitionId = none
  processInstanceId : j.processInstanceId = none
  processDefinitionId : j.processDefinitionId = none
  processDefinitionKey : j.processDefinitionKey = none

theorem Job.Unowned.withState {j : Job} (h : j.Unowned) (state : SuspensionState) :
    (j.withState state).Unowned :=
  ⟨h.jobDefinitionId, h.processInstanceId, h.processDefinitionId, h.processDefinitionKey⟩

theorem Job.Unowned.withFailure {j : Job} (h : j.Unowned) (message : String) (retryAt : Instant) :
    (j.withFailure message retryAt).Unowned :=
  ⟨h.jobDefinitionId, h.processInstanceId, h.processDefinitionId, h.processDefinitionKey⟩

theorem DefinitionSelector.reaches_of_unowned {j : Job} (h : j.Unowned) (s : DefinitionSelector)
    (includeJobs : Bool) : s.reaches includeJobs j = false := by
  obtain ⟨hdefinition, -, hid, hkey⟩ := h
  obtain ⟨key, v⟩ := s
  cases key <;>
    simp [reaches, processDefinition?, jobSelector, DefinitionKey.jobKey, JobSelector.selects,
      Job.get, ProcessDefinitionSelector.startsFrom, ProcessDefinitionSelector.owns, hdefinition,
      hid, hkey]

/-! ## resolving -/

namespace DefinitionSelection

@[simp] theorem normalized_normalized (s : DefinitionSelection) :
    s.normalized.normalized = s.normalized := by
  simp [normalized]

theorem find?_eq_some {s : DefinitionSelection} {x : DefinitionSelector} (h : s.find? = some x) :
    s.get x.key = some x.value ∧ Text.isBlank x.value = false := by
  obtain ⟨key, _, hk⟩ := List.exists_of_findSome?_eq_some h
  obtain ⟨v, hv, rfl⟩ := Option.map_eq_some_iff.mp hk
  exact Text.present?_eq_some.mp hv

/-- the most specific identifier that is present wins -/
theorem find?_eq (s : DefinitionSelection) :
    s.find? = match Text.present? s.jobDefinitionId, Text.present? s.processDefinitionId,
        Text.present? s.processDefinitionKey with
      | some id, _, _ => some ⟨.jobDefinitionId, id⟩
      | none, some id, _ => some ⟨.processDefinitionId, id⟩
      | none, none, some key => some ⟨.processDefinitionKey, key⟩
      | none, none, none => none := by
  simp only [find?, DefinitionKey.all, List.findSome?_cons, List.findSome?_nil, get]
  cases Text.present? s.jobDefinitionId <;> cases Text.present? s.processDefinitionId <;>
    cases Text.present? s.processDefinitionKey <;> rfl

end DefinitionSelection

namespace JobSelection

@[simp] theorem normalized_normalized (s : JobSelection) :
    s.normalized.normalized = s.normalized := by
  simp [normalized]

theorem find?_eq_some {s : JobSelection} {x : JobSelector} (h : s.find? = some x) :
    s.get x.key = some x.value ∧ Text.isBlank x.value = false := by
  obtain ⟨key, _, hk⟩ := List.exists_of_findSome?_eq_some h
  obtain ⟨v, hv, rfl⟩ := Option.map_eq_some_iff.mp hk
  exact Text.present?_eq_some.mp hv

/-- the most specific identifier that is present wins -/
theorem find?_eq (s : JobSelection) :
    s.find? = match Text.present? s.jobId, Text.present? s.jobDefinitionId,
        Text.present? s.processInstanceId, Text.present? s.processDefinitionId,
        Text.present? s.processDefinitionKey with
      | some id, _, _, _, _ => some ⟨.jobId, id⟩
      | none, some id, _, _, _ => some ⟨.jobDefinitionId, id⟩
      | none, none, some id, _, _ => some ⟨.processInstanceId, id⟩
      | none, none, none, some id, _ => some ⟨.processDefinitionId, id⟩
      | none, none, none, none, some key => some ⟨.processDefinitionKey, key⟩
      | none, none, none, none, none => none := by
  simp only [find?, JobKey.all, List.findSome?_cons, List.findSome?_nil, get]
  cases Text.present? s.jobId <;> cases Text.present? s.jobDefinitionId <;>
    cases Text.present? s.processInstanceId <;> cases Text.present? s.processDefinitionId <;>
    cases Text.present? s.processDefinitionKey <;> rfl

end JobSelection

/-- the jobs of a selection are selected by the same identifier -/
theorem DefinitionSelection.find?_toJobSelection (s : DefinitionSelection) :
    s.toJobSelection.find? = s.find?.map DefinitionSelector.jobSelector := by
  rw [JobSelection.find?_eq, find?_eq]
  simp only [toJobSelection, Text.present?_none]
  cases Text.present? s.jobDefinitionId <;> cases Text.present? s.processDefinitionId <;>
    cases Text.present? s.processDefinitionKey <;> rfl

theorem DefinitionSelection.get_jobId_toJobSelection (s : DefinitionSelection) :
    s.toJobSelection.get .jobId = none := rfl

/-! ## the selection of one selector -/

namespace DefinitionSelector

theorem eq_of_find?_toSelection {s x : DefinitionSelector} (h : s.toSelection.find? = some x) :
    x = s := by
  obtain ⟨hget, -⟩ := DefinitionSelection.find?_eq_some h
  obtain ⟨key, v⟩ := s
  obtain ⟨key', v'⟩ := x
  cases key <;> cases key' <;> cases hget <;> rfl

variable {s : DefinitionSelector} (h : Text.isBlank s.value = false)
include h

theorem find?_toSelection : s.toSelection.find? = some s := by
  rw [DefinitionSelection.find?_eq]
  obtain ⟨key, v⟩ := s
  cases key <;> simp_all [toSelection, Text.present?_some]

theorem normalized_toJobSelection :
    s.toSelection.toJobSelection.normalized = s.toSelection.toJobSelection := by
  obtain ⟨key, v⟩ := s
  cases key <;>
    simp_all [toSelection, DefinitionSelection.toJobSelection, JobSelection.normalized,
      Text.present?_some]

theorem find?_toJobSelection : s.toSelection.toJobSelection.find? = some s.jobSelector := by
  rw [DefinitionSelection.find?_toJobSelection, find?_toSelection h, Option.map_some]

end DefinitionSelector

end JobSuspension
