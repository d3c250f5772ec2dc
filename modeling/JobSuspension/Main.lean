import JobSuspension.Engine.Timers
import JobSuspension.Seed
import JobSuspension.Worker.Settings
import Std.Time.DateTime.Timestamp

/-!
# The worker

The worker takes its settings from environment variables, starts from the records of a seed if one
is named, and then makes one timer pass after the other: at once after a full batch without
failures, otherwise after a pause.  Everything it decides is decided by the library; this module
reads variables, a file and the clock, and writes what went wrong.
-/

namespace JobSuspension
namespace Worker

/-- a name that no other run has -/
def freshName : IO String := do
  let bytes ← IO.getRandomBytes 16
  return String.ofList (bytes.toList.flatMap fun b =>
    [Json.hexDigit (b.toNat / 16), Json.hexDigit (b.toNat % 16)])

def idsOf (run : String) : IdSupply :=
  let numbered (kind : String) (n : Nat) :=
    kind ++ "-" ++ run ++ "-" ++ String.ofList (Decimal.digits n)
  ⟨numbered "timer", numbered "entry", numbered "operation"⟩

def readClock : IO Instant := do
  let t ← Std.Time.Timestamp.now
  return (Instant.mk? t.val.second.val t.val.nano.val).getD Instant.epoch

def readVariables : IO (List (String × String)) :=
  Settings.names.filterMapM fun name => return (← IO.getEnv name).map (name, ·)

def readSeed : Option String → IO (Except EngineError EngineSeed)
  | none => return .ok {}
  | some path => do
    let content ← try some <$> IO.FS.readBinFile path catch _ => pure none
    return EngineSeed.ofBytes path content

def pause (millis : Nat) : IO Unit := IO.sleep (UInt32.ofNat (min millis (UInt32.size - 1)))

partial def poll (settings : Settings) (x : TimerExecutor) (env : Environment) (s : Stores) :
    IO UInt32 := do
  let now ← readClock
  let context : CommandContext := { actor := none, level := settings.level, recordedAt := now }
  match x.runPass env context now settings.batchSize s with
  | (.ok report, s') =>
    for f in report.failures do
      IO.eprintln (settings.workerId ++ ": timer " ++ f.timerId ++ ": " ++ f.errorMessage)
    unless report.callsForNext settings.batchSize do pause settings.pollInterval
    poll settings x env s'
  | (.error (.refused e), s') =>
    IO.eprintln (settings.workerId ++ ": " ++ e.message)
    pause settings.pollInterval
    poll settings x env s'
  | (.error .retryOutOfRange, _) =>
    IO.eprintln (settings.workerId ++ ": a retry would be due beyond the range of instants")
    return 1

def run : IO UInt32 := do
  let name ← freshName
  let env : Environment := { ids := idsOf name }
  let found ← readVariables
  let refuse (e : EngineError) : IO UInt32 := do
    IO.eprintln e.message
    return 1
  match Settings.load (found.lookup ·) ("worker-" ++ name) with
  | .error e => refuse e
  | .ok settings =>
    match ← readSeed settings.seedPath with
    | .error e => refuse e
    | .ok seed =>
      match seed.apply env {} with
      | (.error e, _) => refuse e
      | (.ok _, s) =>
        match settings.retryWait with
        | .error e => refuse e
        | .ok wait => poll settings { handlers := Transition.all, retryWait := wait } env s

end Worker
end JobSuspension

def main : IO UInt32 := JobSuspension.Worker.run
