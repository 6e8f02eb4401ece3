import TimedInvocation.Duration.Basic
import TimedInvocation.Error.Resolution
import TimedInvocation.Error.Store
import TimedInvocation.Kind
import TimedInvocation.Mode

/-!
# Errors of invocations

An invocation fails because its arguments could not be resolved, because it overran its deadline,
because a stop was requested, because the store of its scope was not accessible, because no worker
could be started, because a callback failed, or because its body did.
-/

namespace TimedInvocation

/-- An invocation that overran its deadline. The error of the body is kept if there was one. -/
structure TimeoutError where
  kind : Kind
  duration : Duration
  elapsed : Nat
  threadMode : ThreadMode
  actionError : Option ErrorChain
  deriving DecidableEq

def TimeoutError.message (e : TimeoutError) : String :=
  e.kind.name ++ " invocation timed out after " ++ e.duration.describe

/-- The two moments at which callbacks run. -/
inductive CallbackMoment where
  | beforeEach
  | afterEach
  deriving DecidableEq

def CallbackMoment.name : CallbackMoment → String
  | beforeEach => "before-each"
  | afterEach => "after-each"

/-- Why an invocation failed. -/
inductive InvocationError where
  | resolution (error : ResolutionError)
  | timeout (error : TimeoutError)
  | cancelled (kind : Kind)
  | store (error : StoreError)
  | workerSpawn (error : ErrorChain)
  | callback (name extension : String) (error : ErrorChain)
  | action (error : ErrorChain)
  deriving DecidableEq

namespace InvocationError

def code : InvocationError → String
  | resolution _ => "resolution"
  | timeout _ => "timeout"
  | cancelled _ => "cancelled"
  | store _ => "store"
  | workerSpawn _ => "worker-spawn"
  | callback _ _ _ => "callback"
  | action _ => "action"

def message : InvocationError → String
  | resolution error => error.message
  | timeout error => error.message
  | cancelled kind => kind.name ++ " invocation was cancelled by a stop request"
  | store _ => "error accessing scope store"
  | workerSpawn _ => "failed to spawn timeout worker thread"
  | callback name extension _ => name ++ " callback `" ++ extension ++ "` failed"
  | action _ => "invocation failed"

def chain (e : InvocationError) : ErrorChain :=
  match e with
  | resolution error => error.chain
  | timeout error => ⟨error.message, (error.actionError.map ErrorChain.messages).getD []⟩
  | cancelled _ => .single e.message
  | store error => .under e.message error.chain
  | workerSpawn error => .under e.message error
  | callback _ _ error => .under e.message error
  | action error => .under e.message error

end InvocationError

/-- Why an enforcer could not be built. -/
inductive EnforcerError where
  | runtime (error : ErrorChain)
  | signals (error : ErrorChain)
  deriving DecidableEq

namespace EnforcerError

def chain : EnforcerError → ErrorChain
  | runtime error => .under "error creating Tokio runtime" error
  | signals error => .under "error setting up signals" (.under "error setting up signal handler" error)

end EnforcerError

end TimedInvocation
