import JobSuspension.Engine.StateChange

/-!
# Timer passes

A pass acquires the first due timers and handles them one after the other.  A timer whose handler
succeeds is deleted; one whose handler fails is due again later with one retry less.

* `handleTimer c t timer`        carries out the deferred change of a timer;
* `TimerExecutor`                the transitions with a handler, and the wait before a retry;
* `TimerExecutor.settle`         handles one acquired timer;
* `TimerExecutor.settleAll`      handles several, until the stores refuse to settle one;
* `TimerExecutor.runPass`        one pass, with its report.

An error of a handler never ends a pass; an error of the stores does, and so does a retry that would
be due beyond the range of instants.  What was done before stays done.
-/

namespace JobSuspension

def handleTimer (c : CommandContext) (t : Transition) (timer : Job) : Command Unit :=
  match timer.handlerConfiguration with
  | none => .fail (.noConfiguration t.label timer.id)
  | some text => do
    let config ← TimerConfiguration.decode text
    setJobDefinitionState c t
      { selection := config.selector.toSelection, includeJobs := config.includeJobs }

structure TimerExecutor where
  handlers : List Transition
  retryWait : Duration := .ofMillis 10000

structure TimerFailure where
  timerId : String
  handlerType : String
  retriesLeft : UInt32
  /-- the message of the error, with `EngineError.jsonReason` for the reason a reader of JSON gives -/
  errorMessage : String
  retryAt : Instant
  deriving DecidableEq

/-- what became of one acquired timer -/
inductive Settlement where
  /-- no handler is registered for its type -/
  | skipped
  | executed
  | failed (failure : TimerFailure)
  deriving DecidableEq

namespace Settlement

def isExecuted : Settlement → Bool
  | executed => true
  | _ => false

def failure? : Settlement → Option TimerFailure
  | failed f => some f
  | _ => none

end Settlement

structure PassReport where
  acquired : Nat
  executed : Nat
  failures : List TimerFailure
  deriving DecidableEq

def PassReport.ofSettlements (outcomes : List Settlement) : PassReport where
  acquired := outcomes.length
  executed := outcomes.countP Settlement.isExecuted
  failures := outcomes.filterMap Settlement.failure?

/-- only a full batch without failures calls for another pass at once -/
def PassReport.callsForNext (r : PassReport) (batch : Nat) : Bool :=
  r.acquired == batch && r.failures.isEmpty

/-- why a pass ended early -/
inductive PassError where
  | refused (e : EngineError)
  | retryOutOfRange
  deriving DecidableEq

namespace TimerExecutor

/-- the transitions with a handler, each once, in the order of their handler types -/
def registered (x : TimerExecutor) : List Transition :=
  [Transition.activate, Transition.suspend].filter (x.handlers.contains ·)

def handlerTypes (x : TimerExecutor) : List String := x.registered.map Transition.handlerType

def handler? (x : TimerExecutor) (handlerType : String) : Option Transition :=
  x.registered.find? (·.handlerType == handlerType)

/-- a command as a step of a pass -/
def step (env : Environment) (p : Command α) (s : Stores) : Except PassError α × Stores :=
  match p.run env s with
  | (.ok a, s') => (.ok a, s')
  | (.error e, s') => (.error (.refused e), s')

def deleteExecuted (env : Environment) (timer : Job) (s : Stores) :
    Except PassError Settlement × Stores :=
  step env (do Command.call (.deleteJob timer.id); return .executed) s

def recordFailure (x : TimerExecutor) (env : Environment) (now : Instant) (timer : Job)
    (cause : EngineError) (s : Stores) : Except PassError Settlement × Stores :=
  match now.add? x.retryWait with
  | none => (.error .retryOutOfRange, s)
  | some retryAt =>
    step env (do
      let j ← Command.call (.recordJobFailure timer.id cause.message retryAt)
      return .failed ⟨j.id, j.handlerType, j.retries, cause.message, retryAt⟩) s

def settle (x : TimerExecutor) (env : Environment) (c : CommandContext) (now : Instant)
    (timer : Job) (s : Stores) : Except PassError Settlement × Stores :=
  match x.handler? timer.handlerType with
  | none => (.ok .skipped, s)
  | some t =>
    match (handleTimer c t timer).run env s with
    | (.ok (), s') => deleteExecuted env timer s'
    | (.error cause, s') => x.recordFailure env now timer cause s'

def settleAll (x : TimerExecutor) (env : Environment) (c : CommandContext) (now : Instant) :
    List Job → Stores → Except PassError (List Settlement) × Stores
  | [], s => (.ok [], s)
  | timer :: timers, s =>
    match x.settle env c now timer s with
    | (.error e, s') => (.error e, s')
    | (.ok outcome, s') =>
      match x.settleAll env c now timers s' with
      | (.error e, s'') => (.error e, s'')
      | (.ok outcomes, s'') => (.ok (outcome :: outcomes), s'')

/-- the timers a pass will handle -/
def acquire (x : TimerExecutor) (now : Instant) (limit : Nat) : Command (List Job) :=
  if limit = 0 then .fail .zeroBatch
  else Command.call (.acquireDueTimers now x.handlerTypes limit)

def runPass (x : TimerExecutor) (env : Environment) (c : CommandContext) (now : Instant)
    (limit : Nat) (s : Stores) : Except PassError PassReport × Stores :=
  match step env (x.acquire now limit) s with
  | (.error e, s') => (.error e, s')
  | (.ok timers, s') =>
    match x.settleAll env c now timers s' with
    | (.error e, s'') => (.error e, s'')
    | (.ok outcomes, s'') => (.ok (.ofSettlements outcomes), s'')

end TimerExecutor
end JobSuspension
