import JobSuspension.Codec.Selection
import JobSuspension.Json.Printer
import JobSuspension.Json.Reader

/-!
# Timer configurations

What a timer has to know to carry out a deferred change: the selector, and whether the jobs of the
selected definitions change too.  It is stored as the text of an object,
`{"by": …, "<identifier>": …, "includeJobs": …}`, written compactly.

* `TimerConfiguration`             selector and flag;
* `TimerConfiguration.encode c`    its text;
* `TimerConfiguration.forSelector x b`   the text for the selector `x` and the flag `b`;
* `TimerConfiguration.decode s`    the configuration of a text: an object with the three members
                                   once each, in any order and among any others; the tag may be
                                   given by its index.
-/

namespace JobSuspension

open Json

structure TimerConfiguration where
  selector : DefinitionSelector
  includeJobs : Bool
  deriving DecidableEq, Repr

namespace TimerConfiguration

def toJson (c : TimerConfiguration) : Value :=
  .object (c.selector.members ++ [("includeJobs", .bool c.includeJobs)])

def encode (c : TimerConfiguration) : String := c.toJson.text

/-- the text of a configuration that selects by one identifier -/
def encodeBy (key : DefinitionKey) (value : String) (includeJobs : Bool) : String :=
  encode ⟨⟨key, value⟩, includeJobs⟩

def forSelector : DefinitionSelector → Bool → String
  | ⟨.jobDefinitionId, id⟩ => encodeBy .jobDefinitionId id
  | ⟨.processDefinitionId, id⟩ => encodeBy .processDefinitionId id
  | ⟨.processDefinitionKey, key⟩ => encodeBy .processDefinitionKey key

theorem forSelector_eq_encode (x : DefinitionSelector) (includeJobs : Bool) :
    forSelector x includeJobs = encode ⟨x, includeJobs⟩ := by
  obtain ⟨key, v⟩ := x
  cases key <;> rfl

/-- a tag by name, or by its place in the order of priority -/
def tagOrIndex? : Value → Option DefinitionKey
  | .number n => n.natural?.bind fun i => DefinitionKey.all[i]?
  | v => DefinitionKey.ofJson? v

def ofMembers? (ms : List (String × Value)) : Option TimerConfiguration := do
  let includeJobs ← (← ← Record.single? "includeJobs" ms).bool?
  let selector ← DefinitionSelector.ofMembers? tagOrIndex? ms
  return ⟨selector, includeJobs⟩

def ofJson? (v : Value) : Option TimerConfiguration :=
  if v.keepable DefinitionSelector.maxDepth then
    match v with
    | .object ms => ofMembers? ms
    | _ => none
  else none

def decode? (text : String) : Option TimerConfiguration := (read text).bind ofJson?

def decode (text : String) : Except EngineError TimerConfiguration :=
  match decode? text with
  | some c => .ok c
  | none => .error (.badConfiguration text)

end TimerConfiguration
end JobSuspension
