import TimedInvocation.Clock

/-!
# Enforcement of deadlines

A body without a timeout runs on the caller's thread without a bound. With one it runs either on the
caller's thread, where an overrun is found out once the body returns, or on a worker, which is given
up at the deadline or at a stop request: its caller goes on, and so does the worker, but nobody waits
for its result any more.
-/

namespace TimedInvocation

/-- How a wait for a result ends. -/
inductive WaitEnd (α : Type) where
  | finished (result : α)
  | stopped
  | timedOut

/-- One poll of a wait: an available result goes first, then a stop request, then the deadline. -/
def pollWait {α : Type} (result : Option α) (stop deadline : Bool) : Option (WaitEnd α) :=
  match result with
  | some result => some (.finished result)
  | none => if stop then some .stopped else if deadline then some .timedOut else none

def ShutdownSignal.name : ShutdownSignal → String
  | interrupt => "Interrupt"
  | hangup => "Hangup"
  | terminate => "Term"

def kindField (kind : Kind) : Field :=
  ⟨"kind", .shown kind.name⟩

def elapsedField (nanos : Nat) : Field :=
  ⟨"elapsed", .measured (.ofNanos nanos)⟩

def workerField (worker : Nat) : Field :=
  ⟨"worker_id", .shown (toString worker)⟩

/-- The result of a body as the result of an invocation. -/
def actionResult {ρ : Type} : Except Failure ρ → Except InvocationError ρ
  | .ok result => .ok result
  | .error e => .error (.action e.chain)

/-- The error that a body returned, if it did. -/
def actionError {ρ : Type} : Except Failure ρ → Option ErrorChain
  | .ok _ => none
  | .error e => some e.chain

namespace World

variable {H : Host}

def enforcer (w : World H) (e : EnforcerId) : Enforcer :=
  (w.enforcers[e]?).getD ⟨w.tokens.length, false, 0⟩

/-- Whether the stop that an enforcer listens to has been requested. -/
def stopRequested (w : World H) (e : EnforcerId) : Bool :=
  w.isCancelled (w.enforcer e).stop

def newEnforcer (w : World H) (stop : TokenId) (signals : Bool) : EnforcerId × World H :=
  (w.enforcers.length, { w with enforcers := w.enforcers ++ [⟨stop, signals, 0⟩] })

/-- The number of the next worker of an enforcer, which counts it. -/
def nextWorker (w : World H) (e : EnforcerId) : Nat × World H :=
  ((w.enforcer e).workers, { w with
    enforcers := w.enforcers.modify e fun enforcer =>
      { enforcer with workers := enforcer.workers + 1 } })

/-- The start of a worker thread: the error if it cannot be started. -/
def spawn (w : World H) : Option String × World H :=
  let (error, state) := H.spawn w.state
  (error, { w with state := state })

/-- The result of a worker, once its body has ended. -/
def workerResult (w : World H) (id : WorkerId) : Option (Outcome (Except Failure H.Result)) :=
  (w.workers[id]?).bind Worker.result

/-- A new worker for the body of a token, which starts as soon as the worker gets a turn. -/
def startWorker (w : World H) (number : Nat) (token : TokenId)
    (body : TokenId → Program H .result) : WorkerId × World H :=
  (w.workers.length, { w with
    workers := w.workers ++ [⟨number, body token, none⟩]
    trace := .body token :: w.trace })

def deliver (w : World H) (id : WorkerId) (result : Outcome (Except Failure H.Result)) : World H :=
  { w with workers := w.workers.modify id fun worker => { worker with result := some result } }

def pollWorker (w : World H) (e : EnforcerId) (id : WorkerId) (deadline : Nat) :
    Option (WaitEnd (Outcome (Except Failure H.Result))) :=
  pollWait (w.workerResult id) (w.stopRequested e) (deadline ≤ w.clock)

end World

namespace Routine

variable {H : Host}

def newEnforcer (stop : TokenId) (signals : Bool) : Routine H EnforcerId :=
  update fun w => w.newEnforcer stop signals

/-- Requests the stop of every enforcer that listens to signals. -/
def forwardSignal (signal : ShutdownSignal) : List Enforcer → Routine H Unit
  | [] => pure ()
  | enforcer :: rest => do
    if enforcer.signals then
      log ⟨.info, .signals, "received shutdown signal, stopping invocations",
        [⟨"event", .shown signal.name⟩]⟩
      cancel enforcer.stop
    forwardSignal signal rest

def signal (signal : ShutdownSignal) : Routine H Unit := do
  forwardSignal signal (← view World.enforcers)

def nextWorker (e : EnforcerId) : Routine H Nat :=
  update fun w => w.nextWorker e

/-- Starts a worker thread, which may fail. -/
def spawnWorker : Routine H (Option String) :=
  update fun w => w.spawn

/-- Runs a body with its token on the caller's thread. -/
def runHere (token : TokenId) (body : TokenId → Program H .result) :
    Routine H (Except Failure H.Result) := do
  record (.body token)
  run (body token)

/-- Runs a body on the caller's thread under a deadline. The token is cancelled at the deadline; the
body has overrun it if the token is cancelled when the body returns, or if it took longer. -/
def runOnCaller (kind : Kind) (duration : Duration)
    (body : TokenId → Program H .result) : Routine H (Except InvocationError H.Result) := do
  let token ← newToken
  let start ← view World.clock
  let limit := duration.toSpan.toNanos
  setAlarm token (start + limit)
  let outcome ← attempt (runHere token body)
  clearAlarm token
  let result ← ofOutcome outcome
  let elapsed := (← view World.clock) - start
  if (← isCancelled token) || decide (limit < elapsed) then
    log ⟨.debug, .enforcer, "same-thread invocation overran its deadline",
      [kindField kind, elapsedField elapsed]⟩
    return .error (.timeout ⟨kind, duration, elapsed, .sameThread, actionError result⟩)
  else return actionResult result

def startWorker (number : Nat) (token : TokenId) (body : TokenId → Program H .result) :
    Routine H WorkerId :=
  update fun w => w.startWorker number token body

/-- Blocks until a worker has a result, a stop is requested or the deadline passes. -/
def awaitWorker (e : EnforcerId) (id : WorkerId) (deadline : Nat) :
    Routine H (WaitEnd (Outcome (Except Failure H.Result))) :=
  viewAfter ⟨fun w => (w.pollWorker e id deadline).isSome, some deadline⟩ fun w =>
    (w.pollWorker e id deadline).getD .timedOut

/-- Waits for the worker of a body that was started at a time, and gives it up at a stop request or at
its deadline. -/
def followWorker (e : EnforcerId) (kind : Kind) (duration : Duration) (number start : Nat)
    (token : TokenId) (id : WorkerId) : Routine H (Except InvocationError H.Result) := do
  let ending ← awaitWorker e id (start + duration.toSpan.toNanos)
  let elapsed := (← view World.clock) - start
  match ending with
  | .finished outcome => return actionResult (← ofOutcome outcome)
  | .stopped =>
    log ⟨.debug, .enforcer, "stop requested, abandoning timeout worker",
      [kindField kind, workerField number]⟩
    cancel token
    return .error (.cancelled kind)
  | .timedOut =>
    log ⟨.debug, .enforcer, "deadline elapsed, abandoning timeout worker",
      [kindField kind, workerField number, elapsedField elapsed]⟩
    cancel token
    return .error (.timeout ⟨kind, duration, elapsed, .separateThread, none⟩)

/-- Runs a body on a worker under a deadline and a stop request. -/
def runOnWorker (e : EnforcerId) (kind : Kind) (duration : Duration)
    (body : TokenId → Program H .result) : Routine H (Except InvocationError H.Result) := do
  let token ← newToken
  let number ← nextWorker e
  let start ← view World.clock
  match ← spawnWorker with
  | some error => return .error (.workerSpawn (.single error))
  | none =>
    let id ← startWorker number token body
    followWorker e kind duration number start token id

/-- Runs a body under a timeout, or without one. -/
def runWithTimeout (e : EnforcerId) (kind : Kind)
    (timeout : Option EffectiveTimeout) (body : TokenId → Program H .result) :
    Routine H (Except InvocationError H.Result) := do
  match timeout with
  | none =>
    log ⟨.debug, .enforcer, "running without a timeout", [kindField kind]⟩
    let token ← newToken
    return actionResult (← runHere token body)
  | some timeout =>
    log ⟨.debug, .enforcer, "running with a timeout",
      [kindField kind, ⟨"duration", .shown timeout.duration.describe⟩,
        ⟨"thread_mode", .shown timeout.threadMode.word⟩]⟩
    match timeout.threadMode with
    | .separateThread => runOnWorker e kind timeout.duration body
    | .sameThread | .inferred => runOnCaller kind timeout.duration body

end Routine

end TimedInvocation
