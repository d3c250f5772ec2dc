import JobSuspension.Error
import JobSuspension.Text.Blank

/-!
# Selections and selectors

A caller selects job definitions or jobs by up to three or five identifiers.  The most specific one
that is present wins and the others are ignored; a blank identifier counts as absent.

* `DefinitionKey`, `JobKey`             the identifiers, most specific first in `all`;
* `DefinitionSelection`, `JobSelection` what a caller supplies: an optional text per identifier;
* `DefinitionSelector`, `JobSelector`   the identifier that won, with its text as given;
* `normalized`                          a selection without its blank identifiers;
* `resolve`                             the selector of a selection, or an error if all are absent;
* `ProcessDefinitionSelector`           a selector of job definitions that names a process
                                        definition.

`find_normalized` is why resolving before and after normalising agree.
-/

namespace JobSuspension

/-! ## job definitions -/

inductive DefinitionKey where
  | jobDefinitionId
  | processDefinitionId
  | processDefinitionKey
  deriving DecidableEq, Repr

namespace DefinitionKey

def all : List DefinitionKey := [jobDefinitionId, processDefinitionId, processDefinitionKey]

end DefinitionKey

structure DefinitionSelection where
  jobDefinitionId : Option String := none
  processDefinitionId : Option String := none
  processDefinitionKey : Option String := none
  deriving DecidableEq, Repr

structure DefinitionSelector where
  key : DefinitionKey
  value : String
  deriving DecidableEq, Repr

namespace DefinitionSelection

def get (s : DefinitionSelection) : DefinitionKey → Option String
  | .jobDefinitionId => s.jobDefinitionId
  | .processDefinitionId => s.processDefinitionId
  | .processDefinitionKey => s.processDefinitionKey

def normalized (s : DefinitionSelection) : DefinitionSelection where
  jobDefinitionId := Text.present? s.jobDefinitionId
  processDefinitionId := Text.present? s.processDefinitionId
  processDefinitionKey := Text.present? s.processDefinitionKey

def find? (s : DefinitionSelection) : Option DefinitionSelector :=
  DefinitionKey.all.findSome? fun key => (Text.present? (s.get key)).map (⟨key, ·⟩)

def resolve (s : DefinitionSelection) : Except EngineError DefinitionSelector :=
  match s.find? with
  | some selector => .ok selector
  | none => .error .noDefinitionSelector

theorem get_normalized (s : DefinitionSelection) (key : DefinitionKey) :
    s.normalized.get key = Text.present? (s.get key) := by
  cases key <;> rfl

theorem find_normalized (s : DefinitionSelection) : s.normalized.find? = s.find? := by
  simp [find?, get_normalized]

end DefinitionSelection

/-- the selection that carries only this selector -/
def DefinitionSelector.toSelection (s : DefinitionSelector) : DefinitionSelection :=
  match s.key with
  | .jobDefinitionId => { jobDefinitionId := some s.value }
  | .processDefinitionId => { processDefinitionId := some s.value }
  | .processDefinitionKey => { processDefinitionKey := some s.value }

inductive ProcessDefinitionSelector where
  | id (value : String)
  | key (value : String)
  deriving DecidableEq, Repr

def DefinitionSelector.processDefinition? : DefinitionSelector → Option ProcessDefinitionSelector
  | ⟨.jobDefinitionId, _⟩ => none
  | ⟨.processDefinitionId, id⟩ => some (.id id)
  | ⟨.processDefinitionKey, key⟩ => some (.key key)

/-! ## jobs -/

inductive JobKey where
  | jobId
  | jobDefinitionId
  | processInstanceId
  | processDefinitionId
  | processDefinitionKey
  deriving DecidableEq, Repr

namespace JobKey

def all : List JobKey :=
  [jobId, jobDefinitionId, processInstanceId, processDefinitionId, processDefinitionKey]

end JobKey

structure JobSelection where
  jobId : Option String := none
  jobDefinitionId : Option String := none
  processInstanceId : Option String := none
  processDefinitionId : Option String := none
  processDefinitionKey : Option String := none
  deriving DecidableEq, Repr

structure JobSelector where
  key : JobKey
  value : String
  deriving DecidableEq, Repr

namespace JobSelection

def get (s : JobSelection) : JobKey → Option String
  | .jobId => s.jobId
  | .jobDefinitionId => s.jobDefinitionId
  | .processInstanceId => s.processInstanceId
  | .processDefinitionId => s.processDefinitionId
  | .processDefinitionKey => s.processDefinitionKey

def normalized (s : JobSelection) : JobSelection where
  jobId := Text.present? s.jobId
  jobDefinitionId := Text.present? s.jobDefinitionId
  processInstanceId := Text.present? s.processInstanceId
  processDefinitionId := Text.present? s.processDefinitionId
  processDefinitionKey := Text.present? s.processDefinitionKey

def find? (s : JobSelection) : Option JobSelector :=
  JobKey.all.findSome? fun key => (Text.present? (s.get key)).map (⟨key, ·⟩)

def resolve (s : JobSelection) : Except EngineError JobSelector :=
  match s.find? with
  | some selector => .ok selector
  | none => .error .noJobSelector

theorem get_normalized (s : JobSelection) (key : JobKey) :
    s.normalized.get key = Text.present? (s.get key) := by
  cases key <;> rfl

theorem find_normalized (s : JobSelection) : s.normalized.find? = s.find? := by
  simp [find?, get_normalized]

end JobSelection

/-- the jobs of the selected job definitions -/
def DefinitionSelection.toJobSelection (s : DefinitionSelection) : JobSelection where
  jobDefinitionId := s.jobDefinitionId
  processDefinitionId := s.processDefinitionId
  processDefinitionKey := s.processDefinitionKey

end JobSuspension
