/-!
# Errors

What can go wrong in the engine, by cause.  An error has a kind, a text of its own, and a message
that leads with the kind.

* `ErrorKind`             the five kinds, with the label a message leads with;
* `EngineError`           the causes; `collaborator` is an error raised outside the engine;
* `EngineError.kind`, `EngineError.detail`, `EngineError.message`;
* `EngineError.jsonReason`   stands for what a reader of JSON finds wrong with a text.

Messages are complete but for two things, which are not modelled: the reason that the reader of JSON
gives at the end of `badConfiguration` and `badSeed`, and the reason that the operating system gives
at the end of `unreadableSeed`.  A timer whose configuration cannot be read keeps such a message, as
its exception message and in the report; the message is the engine's up to that reason.
-/

namespace JobSuspension

inductive ErrorKind where
  | invalidRequest
  | notFound
  | conflict
  | storage
  | internal
  deriving DecidableEq, Repr

def ErrorKind.label : ErrorKind → String
  | .invalidRequest => "invalid request"
  | .notFound => "not found"
  | .conflict => "conflict"
  | .storage => "storage failure"
  | .internal => "internal error"

inductive EngineError where
  | blankValue
  | unknownState (name : String)
  | unknownStateCode (code : Int)
  | unknownLevel (name : String)
  | unknownEntityType (name : String)
  | blankJobId
  | blankHandlerType (jobId : String)
  | noDefinitionSelector
  | noJobSelector
  | noJob (id : String)
  | noJobDefinition (id : String)
  | noProcessInstance (id : String)
  | noLogEntry (id : String)
  | zeroLimit
  | zeroBatch
  | noConfiguration (action timerId : String)
  | badConfiguration (text : String)
  | badSeed
  | unreadableSeed (path : String)
  | badSetting (name value reason : String)
  | zeroSetting (name : String)
  | collaborator (kind : ErrorKind) (text : String)
  deriving DecidableEq, Repr

namespace EngineError

def kind : EngineError → ErrorKind
  | noJob _ | noJobDefinition _ | noProcessInstance _ | noLogEntry _ => .notFound
  | unreadableSeed _ => .storage
  | collaborator kind _ => kind
  | _ => .invalidRequest

/-- stands where the reader of a JSON text would say what is wrong with it, which depends on the
text and is not modelled -/
def jsonReason : String := "<json error>"

def detail : EngineError → String
  | blankValue => "value must not be empty or whitespace"
  | unknownState name => "unknown suspension state '" ++ name ++ "'"
  | unknownStateCode code => "unknown suspension state code '" ++ toString code ++ "'"
  | unknownLevel name => "unknown auditing level '" ++ name ++ "'"
  | unknownEntityType name => "unknown entity type '" ++ name ++ "'"
  | blankJobId => "job id must not be empty"
  | blankHandlerType id => "job '" ++ id ++ "' handler_type must not be empty"
  | noDefinitionSelector =>
    "job definition id, process definition id or process definition key is required"
  | noJobSelector =>
    "job id, job definition id, process instance id, process definition id "
      ++ "or process definition key is required"
  | noJob id => "job '" ++ id ++ "' does not exist"
  | noJobDefinition id => "job definition '" ++ id ++ "' does not exist"
  | noProcessInstance id => "process instance '" ++ id ++ "' does not exist"
  | noLogEntry id => "operation log entry '" ++ id ++ "' does not exist"
  | zeroLimit => "limit must be greater than zero"
  | zeroBatch => "timer batch size must be greater than zero"
  | noConfiguration action id => action ++ " timer '" ++ id ++ "' has no configuration"
  | badConfiguration text =>
    "invalid job definition timer configuration '" ++ text ++ "': " ++ jsonReason
  | badSeed => "invalid engine seed: " ++ jsonReason
  | unreadableSeed path => "failed to read engine seed '" ++ path ++ "'"
  | badSetting name value reason => "invalid " ++ name ++ " value '" ++ value ++ "': " ++ reason
  | zeroSetting name => name ++ " must be greater than zero"
  | collaborator _ text => text

def message (e : EngineError) : String := e.kind.label ++ ": " ++ e.detail

/-- of two steps in a row both succeed, or there is an error -/
theorem bind_eq_ok {α β : Type} {m : Except EngineError α} {f : α → Except EngineError β} {b : β} :
    m >>= f = .ok b ↔ ∃ a, m = .ok a ∧ f a = .ok b := by
  cases m with
  | error e => simp [bind, Except.bind]
  | ok a => simp [bind, Except.bind]

end EngineError
end JobSuspension
