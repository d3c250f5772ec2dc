import JobSuspension.Error
import JobSuspension.Instant.Basic
import JobSuspension.Text.Blank

/-!
# Auditing level and command context

How much history is recorded, and on whose behalf a command runs.

* `AuditingLevel`            four levels; only `full` records operation log entries;
* `AuditingLevel.ofText`     the level a setting names, blanks around it and case ignored;
* `CommandContext`           actor, level, and the instant stamped on what is recorded.
-/

namespace JobSuspension

inductive AuditingLevel where
  | none
  | activity
  | audit
  | full
  deriving DecidableEq, Repr, Inhabited

namespace AuditingLevel

def all : List AuditingLevel := [none, activity, audit, full]

def name : AuditingLevel → String
  | none => "none"
  | activity => "activity"
  | audit => "audit"
  | full => "full"

def ofName? (s : String) : Option AuditingLevel := all.find? (·.name == s)

/-- a setting without the blanks around it, in small letters (of the ASCII letters only) -/
def fold (s : String) : String :=
  String.ofList ((Text.trimList s.toList).map Char.toLower)

def ofText (s : String) : Except EngineError AuditingLevel :=
  match ofName? (fold s) with
  | some level => .ok level
  | Option.none => .error (.unknownLevel s)

def isDetailed : AuditingLevel → Bool
  | full => true
  | _ => false

@[simp] theorem ofName?_name (l : AuditingLevel) : ofName? l.name = some l := by
  cases l <;> decide

end AuditingLevel

structure UserIdentity where
  subject : String
  deriving DecidableEq, Repr

structure CommandContext where
  /-- absent for work the engine starts itself -/
  actor : Option UserIdentity
  level : AuditingLevel
  recordedAt : Instant := Instant.epoch
  deriving DecidableEq

namespace CommandContext

def userId (c : CommandContext) : Option String := c.actor.map (·.subject)

def isDetailed (c : CommandContext) : Bool := c.level.isDetailed

end CommandContext
end JobSuspension
