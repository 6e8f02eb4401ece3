import TimedInvocation.Duration.Words
import TimedInvocation.Error.Invocation

/-!
# Reports of invocations

How an invocation ended, classified, with the time it took.
-/

namespace TimedInvocation

/-- How an invocation ended. -/
inductive InvocationOutcome (ρ : Type) where
  | success (result : ρ)
  | resolutionFailed (error : ResolutionError)
  | timedOut (error : TimeoutError)
  | cancelled (kind : Kind)
  | failed (error : InvocationError)
  deriving DecidableEq

namespace InvocationOutcome

variable {ρ : Type}

def ofResult : Except InvocationError ρ → InvocationOutcome ρ
  | .ok result => success result
  | .error (.resolution error) => resolutionFailed error
  | .error (.timeout error) => timedOut error
  | .error (.cancelled kind) => cancelled kind
  | .error error => failed error

def toResult : InvocationOutcome ρ → Except InvocationError ρ
  | success result => .ok result
  | resolutionFailed error => .error (.resolution error)
  | timedOut error => .error (.timeout error)
  | cancelled kind => .error (.cancelled kind)
  | failed error => .error error

def isSuccess : InvocationOutcome ρ → Bool
  | success _ => true
  | _ => false

def describe : InvocationOutcome ρ → String
  | success _ => "succeeded"
  | resolutionFailed error => "resolution failed (" ++ error.cause.code ++ ")"
  | timedOut _ => "timed out"
  | cancelled _ => "cancelled"
  | failed _ => "failed"

theorem toResult_ofResult (result : Except InvocationError ρ) :
    (ofResult result).toResult = result := by
  rcases result with error | _
  · cases error <;> rfl
  · rfl

end InvocationOutcome

/-- A finished invocation: its kind, the signature of its executable, how long it took and how it
ended. -/
structure Report (ρ : Type) where
  kind : Kind
  executable : String
  duration : Span
  outcome : InvocationOutcome ρ

def Report.describe {ρ : Type} (r : Report ρ) : String :=
  r.kind.name ++ " [" ++ r.executable ++ "] " ++ r.outcome.describe ++ " in " ++
    r.duration.toMillis.words

end TimedInvocation
