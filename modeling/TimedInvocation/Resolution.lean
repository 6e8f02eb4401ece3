import TimedInvocation.Scope

/-!
# Resolution of arguments

Every parameter is offered to all visible resolvers, outermost first. Exactly one of them must claim
it; what that one resolves must fit the declared type. The first parameter may be filled with an
outer instance instead. The first failure ends the resolution.
-/

namespace TimedInvocation

/-- A resolver together with the extension that it belongs to. -/
abbrev Candidate (H : Host) : Type :=
  Extension (Program H) × Resolver (Program H)

/-- The error for a failure of user code: an error of resolution is handed on as it is. -/
def ParameterContext.wrap (c : ParameterContext) : Failure → ResolutionError
  | .resolution error => error
  | .plain error => ⟨c.summary, .resolverFailed error⟩

/-- The error for a value that does not fit the declared type. -/
def ParameterContext.misfit (c : ParameterContext) (resolver : String) :
    Option Value → ResolutionError
  | none => ⟨c.summary, .primitiveNull resolver⟩
  | some v => ⟨c.summary, .typeMismatch resolver v.ty⟩

def ParameterContext.resolvedEvent (c : ParameterContext) (resolver : String) (value : Option Value) :
    Event :=
  ⟨.trace, .resolution, "resolved parameter",
    [⟨"resolver", .shown resolver⟩,
      ⟨"value_type", .text ((value.map fun v => v.ty.name).getD "(absent)")⟩,
      ⟨"parameter", .shown c.parameter.describe⟩,
      ⟨"executable", .shown c.executable.describe⟩]⟩

namespace Routine

variable {H : Host}

/-- The resolvers that claim a parameter, asked in order until one fails. -/
def claims (scope : ScopeId) (c : ParameterContext) :
    List (Candidate H) → Routine H (Except Failure (List (Candidate H)))
  | [] => pure (.ok [])
  | (extension, resolver) :: rest => do
    record (.supports extension.id c.index)
    match ← run (resolver.supports c scope) with
    | .error e => return .error e
    | .ok claimed =>
      match ← claims scope c rest with
      | .error e => return .error e
      | .ok others => return .ok (if claimed then (extension, resolver) :: others else others)

/-- What the only resolver of a parameter resolves, if it fits the declared type. -/
def resolveBy (scope : ScopeId) (c : ParameterContext) (candidate : Candidate H) :
    Routine H (Except ResolutionError (Option Value)) := do
  let (extension, resolver) := candidate
  record (.resolve extension.id c.index)
  match ← run (resolver.resolve c scope) with
  | .error e => return .error (c.wrap e)
  | .ok value =>
    if c.parameter.type.accepts value then
      log (c.resolvedEvent extension.describe value)
      return .ok value
    else return .error (c.misfit extension.describe value)

def resolveParameter (scope : ScopeId) (c : ParameterContext) :
    Routine H (Except ResolutionError (Option Value)) := do
  let resolvers ← view fun w => w.resolvers (w.registryOf scope)
  match ← claims scope c resolvers with
  | .error e => return .error (c.wrap e)
  | .ok [] => return .error ⟨c.summary, .noResolver⟩
  | .ok [candidate] => resolveBy scope c candidate
  | .ok candidates =>
      return .error ⟨c.summary,
        .ambiguousResolvers (candidates.map fun candidate => candidate.1.describe)⟩

def resolveFrom (scope : ScopeId) (x : Executable) (target : Option Value) :
    Nat → List Parameter → Routine H (Except ResolutionError Arguments)
  | _, [] => pure (.ok [])
  | index, parameter :: rest => do
    match ← resolveParameter scope ⟨x, parameter, index, target⟩ with
    | .error e => return .error e
    | .ok value =>
      match ← resolveFrom scope x target (index + 1) rest with
      | .error e => return .error e
      | .ok values => return .ok (value :: values)

/-- Resolves the arguments of an executable. An outer instance takes the place of the first one; it
is dropped if there are no parameters. -/
def resolveArguments (scope : ScopeId) (x : Executable)
    (target outer : Option Value) : Routine H (Except ResolutionError Arguments) :=
  match outer, x.parameters with
  | some instance_, _ :: rest => do
    match ← resolveFrom scope x target 1 rest with
    | .error e => return .error e
    | .ok values => return .ok (some instance_ :: values)
  | _, parameters => resolveFrom scope x target 0 parameters

end Routine

end TimedInvocation
