import JobSuspension.Codec.Job
import JobSuspension.Codec.ProcessInstance
import JobSuspension.Engine.Command
import JobSuspension.Json.Reader

/-!
# Seeds

A seed is a JSON document with the records an engine starts with.

* `EngineSeed`                  job definitions, jobs and process instances; each list may be left
                                out;
* `EngineSeed.ofText`           the seed of a text;
* `EngineSeed.ofBytes path b`   the seed of a file at `path` with the content `b`, if there is one;
* `EngineSeed.apply`            saves the records, after all of them have been checked.
-/

namespace JobSuspension

open Json

structure EngineSeed where
  definitions : List JobDefinition.Draft := []
  jobs : List Job := []
  processInstances : List ProcessInstance := []
  deriving DecidableEq

structure SeedCounts where
  definitions : Nat
  jobs : Nat
  processInstances : Nat
  deriving DecidableEq, Repr

namespace EngineSeed

/-! ## reading -/

def ofJson? : Value → Option EngineSeed := Record.read do
  let definitions ←
    Record.defaulted "job_definitions" (Value.list? JobDefinition.Draft.ofJson?) []
  let jobs ← Record.defaulted "jobs" (Value.list? Job.ofJson?) []
  let processInstances ←
    Record.defaulted "process_instances" (Value.list? ProcessInstance.ofJson?) []
  return ⟨definitions, jobs, processInstances⟩

def ofText (text : String) : Except EngineError EngineSeed :=
  match (read text).bind ofJson? with
  | some seed => .ok seed
  | none => .error .badSeed

def ofBytes (path : String) (content : Option ByteArray) : Except EngineError EngineSeed :=
  match content.bind String.fromUTF8? with
  | some text => ofText text
  | none => .error (.unreadableSeed path)

def toJson (s : EngineSeed) : Value := .object [
  ("job_definitions", .array (s.definitions.map JobDefinition.Draft.toJson)),
  ("jobs", .array (s.jobs.map Job.toJson)),
  ("process_instances", .array (s.processInstances.map ProcessInstance.toJson))]

/-! ## applying -/

def counts (s : EngineSeed) : SeedCounts :=
  ⟨s.definitions.length, s.jobs.length, s.processInstances.length⟩

/-- the job definitions of a seed whose records are all in order -/
def checked (s : EngineSeed) : Except EngineError (List JobDefinition) := do
  let definitions ← s.definitions.mapM JobDefinition.ofDraft
  s.jobs.forM Job.validate
  return definitions

def saveAll (definitions : List JobDefinition) (jobs : List Job) : Command Unit := do
  definitions.forM fun d => Command.call (.saveJobDefinition d)
  jobs.forM fun j => Command.call (.saveJob j)

def apply (seed : EngineSeed) (env : Environment) (s : Stores) :
    Except EngineError SeedCounts × Stores :=
  match seed.checked with
  | .error e => (.error e, s)
  | .ok definitions =>
    match (saveAll definitions seed.jobs).run env s with
    | (.error e, s') => (.error e, s')
    | (.ok (), s') =>
      (.ok seed.counts, seed.processInstances.foldl Stores.putProcessInstance s')

end EngineSeed
end JobSuspension
