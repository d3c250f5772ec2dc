import JobSuspension.Audit.Level
import JobSuspension.Duration
import JobSuspension.Text.Decimal

/-!
# Worker settings

What a worker is told by its environment variables.

* `Settings`                       the settings;
* `Settings.load lookup workerId`  the settings of the variables that `lookup` knows, with
                                   `workerId` as the default name of the worker;
* `Settings.retryWait s`           the wait before a retry as a duration, if it is short enough;
* `Settings.waitTooLong`           what is said of one that is not.

A number is written in decimal digits, perhaps with a plus sign in front and blanks around it.  All
numbers are read before one of them is refused for being zero.
-/

namespace JobSuspension

structure Settings where
  level : AuditingLevel
  workerId : String
  batchSize : Nat
  pollInterval : Nat
  /-- milliseconds, like `pollInterval` -/
  retryWaitMillis : Nat
  seedPath : Option String
  deriving DecidableEq, Repr

def Decimal.NumeralError.reason : Decimal.NumeralError → String
  | .empty => "cannot parse integer from empty string"
  | .badDigit => "invalid digit found in string"
  | .tooLarge => "number too large to fit in target type"

namespace Settings

def levelName : String := "STASIS_AUDITING_LEVEL"

def workerIdName : String := "STASIS_WORKER_ID"

def batchSizeName : String := "STASIS_TIMER_BATCH_SIZE"

def pollIntervalName : String := "STASIS_POLL_INTERVAL_MS"

def retryWaitName : String := "STASIS_TIMER_RETRY_WAIT_MS"

def seedPathName : String := "STASIS_SEED_PATH"

def names : List String :=
  [levelName, workerIdName, batchSizeName, pollIntervalName, retryWaitName, seedPathName]

/-- the largest number a setting can hold -/
def maxNumber : Nat := UInt64.size - 1

/-- the longest wait in milliseconds -/
def maxWait : Nat := 9223372036854775807

/-! ## single settings -/

def level? (value : Option String) : Except EngineError AuditingLevel :=
  match value with
  | some s => AuditingLevel.ofText s
  | none => .ok .full

def number (name : String) (value : Option String) (default : Nat) : Except EngineError Nat :=
  match value with
  | none => .ok default
  | some s =>
    match Decimal.unsigned? maxNumber (Text.trimList s.toList) with
    | .ok n => .ok n
    | .error e => .error (.badSetting name s e.reason)

def positive (name : String) (n : Nat) : Except EngineError Unit :=
  if n = 0 then .error (.zeroSetting name) else .ok ()

/-! ## all settings -/

def load (lookup : String → Option String) (workerId : String) : Except EngineError Settings := do
  let level ← level? (lookup levelName)
  let batchSize ← number batchSizeName (lookup batchSizeName) 10
  let pollInterval ← number pollIntervalName (lookup pollIntervalName) 1000
  let retryWait ← number retryWaitName (lookup retryWaitName) 10000
  positive batchSizeName batchSize
  positive pollIntervalName pollInterval
  positive retryWaitName retryWait
  return {
    level := level
    workerId := (Text.trimmed? (lookup workerIdName)).getD workerId
    batchSize := batchSize
    pollInterval := pollInterval
    retryWaitMillis := retryWait
    seedPath := Text.trimmed? (lookup seedPathName)
  }

/-- The reason given for a number of milliseconds that does not fit 63 bits.  It is an error of
converting a number, not of reading one, though both have the same words for a number too large. -/
def waitTooLong : String := "number too large to fit in target type"

/-- a wait of this many milliseconds -/
def waitOfMillis (n : Nat) : Except EngineError Duration :=
  if n ≤ maxWait then .ok (.ofMillis n)
  else .error (.badSetting retryWaitName (String.ofList (Decimal.digits n)) waitTooLong)

def retryWait (s : Settings) : Except EngineError Duration := waitOfMillis s.retryWaitMillis

end Settings
end JobSuspension
