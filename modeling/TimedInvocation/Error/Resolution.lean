import TimedInvocation.Executable
import TimedInvocation.Failure
import TimedInvocation.Text.Blank

/-!
# Errors of argument resolution

No argument was found for a parameter: nothing resolves it, several things do, what was resolved does
not fit, or the resolver itself failed.
-/

namespace TimedInvocation

/-- The parameter that could not be resolved. -/
structure ParameterSummary where
  executable : Executable
  parameter : Parameter
  index : Nat
  deriving DecidableEq

/-- The parameter, its place and its executable. -/
def ParameterSummary.describe (p : ParameterSummary) : String :=
  "parameter [" ++ p.parameter.describe ++ "] at index " ++ toString p.index ++ " in " ++
    p.executable.describe

/-- Why a parameter could not be resolved. Resolvers are named by their descriptions. -/
inductive ResolutionCause where
  | noResolver
  | ambiguousResolvers (resolvers : List String)
  | primitiveNull (resolver : String)
  | typeMismatch (resolver : String) (actual : Ty)
  | resolverFailed (error : ErrorChain)
  deriving DecidableEq

/-- A parameter that could not be resolved, and why. -/
structure ResolutionError where
  target : ParameterSummary
  cause : ResolutionCause
  deriving DecidableEq

namespace ResolutionCause

def code : ResolutionCause → String
  | noResolver => "no-resolver"
  | ambiguousResolvers _ => "ambiguous-resolver"
  | primitiveNull _ => "primitive-null"
  | typeMismatch _ _ => "type-mismatch"
  | resolverFailed _ => "resolution-failure"

end ResolutionCause

namespace ResolutionError

/-- The text of the error. The message of a failed resolver is added unless it is blank. -/
def message (e : ResolutionError) : String :=
  let target := e.target.describe
  match e.cause with
  | .noResolver => "no parameter resolver registered for " ++ target
  | .ambiguousResolvers resolvers =>
      "discovered multiple competing parameter resolvers for " ++ target ++ ": " ++
        ", ".intercalate resolvers
  | .primitiveNull resolver =>
      "parameter resolver `" ++ resolver ++ "` resolved no value for " ++ target ++
        ", but a primitive of type `" ++ e.target.parameter.type.name ++ "` is required"
  | .typeMismatch resolver actual =>
      "parameter resolver `" ++ resolver ++ "` resolved a value of type `" ++ actual.name ++
        "` for " ++ target ++ ", but a value assignment compatible with `" ++
        e.target.parameter.type.name ++ "` is required"
  | .resolverFailed error =>
      "failed to resolve " ++ target ++
        (if Text.isBlankText error.message then "" else ": " ++ error.message)

/-- The error and its causes. Only the error of a failed resolver is a cause. -/
def chain (e : ResolutionError) : ErrorChain :=
  match e.cause with
  | .resolverFailed error => .under e.message error
  | _ => .single e.message

end ResolutionError

/-- An error returned by user code: one of its own, or an error of argument resolution handed on. -/
inductive Failure where
  | plain (error : ErrorChain)
  | resolution (error : ResolutionError)
  deriving DecidableEq

def Failure.chain : Failure → ErrorChain
  | plain error => error
  | resolution error => error.chain

end TimedInvocation
