import JobSuspension.Error

/-!
# Suspension states

Job definitions and jobs are active or suspended; suspended work is neither produced nor executed.

* `SuspensionState`           the two states, their names and storage codes;
* `ofName?`, `ofCode?`        the state of a name or code; `ofName`, `ofCode` refuse others with an
                              error.
-/

namespace JobSuspension

inductive SuspensionState where
  | active
  | suspended
  deriving DecidableEq, Repr, Inhabited

namespace SuspensionState

def all : List SuspensionState := [active, suspended]

def name : SuspensionState → String
  | active => "active"
  | suspended => "suspended"

def code : SuspensionState → Int
  | active => 1
  | suspended => 2

def ofName? (s : String) : Option SuspensionState := all.find? (·.name == s)

def ofCode? (n : Int) : Option SuspensionState := all.find? (·.code == n)

def ofName (s : String) : Except EngineError SuspensionState :=
  match ofName? s with
  | some state => .ok state
  | none => .error (.unknownState s)

def ofCode (n : Int) : Except EngineError SuspensionState :=
  match ofCode? n with
  | some state => .ok state
  | none => .error (.unknownStateCode n)

def isSuspended : SuspensionState → Bool
  | active => false
  | suspended => true

@[simp] theorem ofName?_name (s : SuspensionState) : ofName? s.name = some s := by
  cases s <;> decide

@[simp] theorem ofCode?_code (s : SuspensionState) : ofCode? s.code = some s := by
  cases s <;> decide

end SuspensionState
end JobSuspension
