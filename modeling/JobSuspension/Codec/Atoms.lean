import JobSuspension.Audit.Level
import JobSuspension.Audit.Operation
import JobSuspension.Instant.Text
import JobSuspension.Json.Record
import JobSuspension.Suspension
import JobSuspension.Transition

/-!
# JSON forms of names and instants

Enumerations are written by name and read from a name; instants are written as text; a text that
may be absent is written as null.

* `Json.Value.optText v`        an optional text;
* `X.toJson`, `X.ofJson?`       for each enumeration and for instants;
* `UserIdentity.toJson`, `UserIdentity.ofJson?`   a record with the subject alone.
-/

namespace JobSuspension

open Json

def Json.Value.optText (v : Option String) : Value := Value.ofOption .string v

namespace SuspensionState

def toJson (s : SuspensionState) : Value := .string s.name

def ofJson? (v : Value) : Option SuspensionState := v.name?.bind ofName?

end SuspensionState

namespace EntityType

def toJson (t : EntityType) : Value := .string t.name

def ofJson? (v : Value) : Option EntityType := v.name?.bind ofName?

end EntityType

namespace OperationType

def toJson (t : OperationType) : Value := .string t.name

def ofJson? (v : Value) : Option OperationType := v.name?.bind ofName?

end OperationType

namespace AuditingLevel

def toJson (l : AuditingLevel) : Value := .string l.name

def ofJson? (v : Value) : Option AuditingLevel := v.name?.bind ofName?

end AuditingLevel

namespace Transition

def toJson (t : Transition) : Value := .string t.handlerType

def ofJson? (v : Value) : Option Transition := v.name?.bind ofHandlerType?

end Transition

namespace Instant

def toJson (t : Instant) : Value := .string t.toText

def ofJson? (v : Value) : Option Instant := v.text?.bind ofText?

end Instant

namespace UserIdentity

def toJson (u : UserIdentity) : Value := .object [("subject", .string u.subject)]

def ofJson? : Value → Option UserIdentity := Record.read do
  return ⟨← Record.required "subject" Value.text?⟩

end UserIdentity
end JobSuspension
