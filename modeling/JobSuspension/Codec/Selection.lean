import JobSuspension.Codec.Atoms
import JobSuspension.Selection

/-!
# JSON forms of selections and selectors

A selector is written with a tag `by` that names its identifier, followed by the identifier itself:
`{"by": "processDefinitionId", "processDefinitionId": "order:1"}`.  It is read from an object with
both members once each, in any order and among any others, or from an array of tag and text.

* `DefinitionSelection.toJson`, `DefinitionSelection.ofJson?`
* `JobSelection.toJson`, `JobSelection.ofJson?`
* `DefinitionSelector.members`, `DefinitionSelector.toJson`, `DefinitionSelector.ofJson?`
* `DefinitionSelector.ofMembers?`   the selector among the members of an object, the tag read by a
                                    function that is given.
-/

namespace JobSuspension

open Json

/-! ## selections -/

namespace DefinitionSelection

def toJson (s : DefinitionSelection) : Value := .object [
  ("job_definition_id", .optText s.jobDefinitionId),
  ("process_definition_id", .optText s.processDefinitionId),
  ("process_definition_key", .optText s.processDefinitionKey)]

def ofJson? : Value → Option DefinitionSelection := Record.read do
  let jobDefinitionId ← Record.optional "job_definition_id" Value.text?
  let processDefinitionId ← Record.optional "process_definition_id" Value.text?
  let processDefinitionKey ← Record.optional "process_definition_key" Value.text?
  return ⟨jobDefinitionId, processDefinitionId, processDefinitionKey⟩

end DefinitionSelection

namespace JobSelection

def toJson (s : JobSelection) : Value := .object [
  ("job_id", .optText s.jobId),
  ("job_definition_id", .optText s.jobDefinitionId),
  ("process_instance_id", .optText s.processInstanceId),
  ("process_definition_id", .optText s.processDefinitionId),
  ("process_definition_key", .optText s.processDefinitionKey)]

def ofJson? : Value → Option JobSelection := Record.read do
  let jobId ← Record.optional "job_id" Value.text?
  let jobDefinitionId ← Record.optional "job_definition_id" Value.text?
  let processInstanceId ← Record.optional "process_instance_id" Value.text?
  let processDefinitionId ← Record.optional "process_definition_id" Value.text?
  let processDefinitionKey ← Record.optional "process_definition_key" Value.text?
  return ⟨jobId, jobDefinitionId, processInstanceId, processDefinitionId, processDefinitionKey⟩

end JobSelection

/-! ## selectors -/

namespace DefinitionKey

/-- the name of an identifier as a tag and as a member -/
def tag : DefinitionKey → String
  | jobDefinitionId => "jobDefinitionId"
  | processDefinitionId => "processDefinitionId"
  | processDefinitionKey => "processDefinitionKey"

def ofTag? (s : String) : Option DefinitionKey := all.find? (·.tag == s)

@[simp] theorem ofTag?_tag (k : DefinitionKey) : ofTag? k.tag = some k := by
  cases k <;> decide

/-- a tag by name -/
def ofJson? (v : Value) : Option DefinitionKey := v.text?.bind ofTag?

end DefinitionKey

namespace DefinitionSelector

/-- the deepest nesting of arrays and objects that is kept -/
def maxDepth : Nat := 127

def members (s : DefinitionSelector) : List (String × Value) :=
  [("by", .string s.key.tag), (s.key.tag, .string s.value)]

def toJson (s : DefinitionSelector) : Value := .object s.members

def ofMembers? (readTag : Value → Option DefinitionKey) (ms : List (String × Value)) :
    Option DefinitionSelector := do
  let key ← readTag (← ← Record.single? "by" ms)
  let value ← (← ← Record.single? key.tag ms).text?
  return ⟨key, value⟩

def ofJson? (v : Value) : Option DefinitionSelector :=
  if v.keepable maxDepth then
    match v with
    | .object ms => ofMembers? DefinitionKey.ofJson? ms
    | .array [tag, value] => do return ⟨← DefinitionKey.ofJson? tag, ← value.text?⟩
    | _ => none
  else none

end DefinitionSelector
end JobSuspension
