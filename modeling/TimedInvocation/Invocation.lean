import TimedInvocation.Enforcement
import TimedInvocation.Resolution

/-!
# Invocations

A test is surrounded by the callbacks visible from its scope: those before it run outermost first
until one fails, those after it run in the opposite order whatever happened, and none of them is
skipped because of another one. The first error is the one that is reported; errors of callbacks that
would hide it are only logged.
-/

namespace TimedInvocation

def callbackError (moment : CallbackMoment) (extension : String) (e : Failure) : InvocationError :=
  .callback moment.name extension e.chain

namespace Routine

variable {H : Host} {ρ : Type}

/-- Runs the callbacks before a test in order, up to the first that fails. -/
def runBefore (scope : ScopeId) :
    List (Extension (Program H) × (ScopeId → Program H .done)) → Routine H (Except InvocationError Unit)
  | [] => pure (.ok ())
  | (extension, callback) :: rest => do
    record (.beforeEach extension.id)
    match ← run (callback scope) with
    | .error e => return .error (callbackError .beforeEach extension.name e)
    | .ok () => runBefore scope rest

/-- Runs the callbacks after a test in order and gives the first error. Further ones are logged. -/
def runAfter (scope : ScopeId) (first : Option InvocationError) :
    List (Extension (Program H) × (ScopeId → Program H .done)) → Routine H (Option InvocationError)
  | [] => pure first
  | (extension, callback) :: rest => do
    record (.afterEach extension.id)
    match ← run (callback scope) with
    | .ok () => runAfter scope first rest
    | .error e =>
      let error := callbackError .afterEach extension.name e
      match first with
      | none => runAfter scope (some error) rest
      | some _ =>
        let uniqueId ← view fun w => w.uniqueIdOf scope
        log ⟨.warn, .invoker, "additional after-each failure",
          [⟨"scope", .text uniqueId⟩, ⟨"extension", .shown extension.describe⟩,
            ⟨"error", .shown error.message⟩]⟩
        runAfter scope first rest

/-- The result after the callbacks: an error of theirs counts only if there was none before. -/
def afterResult (scope : ScopeId) (result : Except InvocationError ρ) :
    Option InvocationError → Routine H (Except InvocationError ρ)
  | none => pure result
  | some error =>
    match result with
    | .ok _ => pure (.error error)
    | .error earlier => do
      let uniqueId ← view fun w => w.uniqueIdOf scope
      log ⟨.warn, .invoker, "after-each callback failed after the invocation had already failed",
        [⟨"scope", .text uniqueId⟩, ⟨"error", .shown error.message⟩]⟩
      return .error earlier

/-- The timeout of an invocation under a configuration, which may disable timeouts. -/
def timeoutOf (c : ConfigurationId) (kind : Kind) (declared : Option DeclaredTimeout) :
    Routine H (Option EffectiveTimeout) := do
  if ← isDisabled c then return none else effectiveTimeout c kind declared

/-- Resolves the arguments and the timeout of an invocation and runs its body. -/
def runBody (e : EnforcerId) (q : InvocationRequest)
    (body : Arguments → TokenId → Program H .result) : Routine H (Except InvocationError H.Result) := do
  match ← resolveArguments q.scope q.executable q.target q.outer with
  | .error error => return .error (.resolution error)
  | .ok arguments =>
    match ← configurationOf q.scope with
    | .error error => return .error (.store error)
    | .ok c =>
      let timeout ← timeoutOf c q.kind q.declared
      runWithTimeout e q.kind timeout (body arguments)

/-- Runs the callbacks before a test, and its body unless one of them failed. -/
def runPrepared (e : EnforcerId) (q : InvocationRequest)
    (body : Arguments → TokenId → Program H .result) : Routine H (Except InvocationError H.Result) := do
  let before ← view fun w => w.beforeCallbacks (w.registryOf q.scope)
  match ← runBefore q.scope before with
  | .error error => return .error error
  | .ok () => runBody e q body

/-- Runs the callbacks after a test that ended with a result. -/
def finishTest (scope : ScopeId) (result : Except InvocationError ρ) :
    Routine H (Except InvocationError ρ) := do
  let after ← view fun w => w.afterCallbacks (w.registryOf scope)
  let error ← runAfter scope none after.reverse
  afterResult scope result error

def runTest (e : EnforcerId) (q : InvocationRequest)
    (body : Arguments → TokenId → Program H .result) : Routine H (Except InvocationError H.Result) := do
  finishTest q.scope (← runPrepared e q body)

/-- The result of an invocation. Nothing runs once a stop has been requested. -/
def invocationResult (e : EnforcerId) (q : InvocationRequest)
    (body : Arguments → TokenId → Program H .result) : Routine H (Except InvocationError H.Result) := do
  if ← view fun w => w.stopRequested e then return .error (.cancelled q.kind)
  else
    match q.kind.category with
    | .testable => runTest e q body
    | .lifecycle => runBody e q body

def finishedEvent (scope : String) (report : Report ρ) : Event :=
  ⟨.debug, .invoker, "invocation finished",
    [kindField report.kind, ⟨"scope", .text scope⟩, ⟨"executable", .shown report.executable⟩,
      ⟨"outcome", .shown report.outcome.describe⟩, ⟨"duration", .measured report.duration⟩]⟩

def invoke (e : EnforcerId) (q : InvocationRequest)
    (body : Arguments → TokenId → Program H .result) : Routine H (Report H.Result) := do
  let start ← view World.clock
  let result ← invocationResult e q body
  let elapsed := (← view World.clock) - start
  let report : Report H.Result :=
    ⟨q.kind, q.executable.signature, .ofNanos elapsed, .ofResult result⟩
  log (finishedEvent (← view fun w => w.uniqueIdOf q.scope) report)
  return report

end Routine

end TimedInvocation
