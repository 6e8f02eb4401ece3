import TimedInvocation.Capabilities
import TimedInvocation.Error.Resolution

/-!
# Extensions

An extension is a named bundle of code: a parameter resolver, a callback before each test and one
after each test, of which any may be missing. Its capabilities are worked out once, when it is built,
from the code that it holds. Pieces of code are told apart by what they reply.
-/

namespace TimedInvocation

/-- The index of an extension among those that were created. -/
abbrev ExtensionId := Nat

/-- The index of a scope among those that were created. -/
abbrev ScopeId := Nat

/-- What a piece of user code replies. -/
inductive Reply where
  /-- Nothing, or an error: callbacks and cleanup actions. -/
  | done
  /-- Yes or no, or an error: whether a resolver supports a parameter. -/
  | verdict
  /-- A datum of some type: the factory of a stored value. -/
  | datum (t : Ty)
  /-- A value or none, or an error: what a resolver resolves. -/
  | value
  /-- A result, or an error: the body of an invocation. -/
  | result
  deriving DecidableEq

/-- What a resolver is told about the parameter in question. -/
structure ParameterContext where
  executable : Executable
  parameter : Parameter
  index : Nat
  target : Option Value

/-- The summary of the parameter in question, for errors. -/
def ParameterContext.summary (c : ParameterContext) : ParameterSummary :=
  ⟨c.executable, c.parameter, c.index⟩

/-- Code that resolves parameters. -/
structure Resolver (Code : Reply → Type) where
  supports : ParameterContext → ScopeId → Code .verdict
  resolve : ParameterContext → ScopeId → Code .value

/-- What an extension is built from. -/
structure ExtensionPlan (Code : Reply → Type) where
  name : String
  resolver : Option (Resolver Code)
  beforeEach : Option (ScopeId → Code .done)
  afterEach : Option (ScopeId → Code .done)

namespace ExtensionPlan

variable {Code : Reply → Type}

def named (name : String) : ExtensionPlan Code :=
  ⟨name, none, none, none⟩

/-- The plan with a parameter resolver in place of the one it had. -/
def withResolver (plan : ExtensionPlan Code) (resolver : Resolver Code) : ExtensionPlan Code :=
  { plan with resolver := some resolver }

/-- The plan with a callback before each test in place of the one it had. -/
def withBeforeEach (plan : ExtensionPlan Code) (callback : ScopeId → Code .done) :
    ExtensionPlan Code :=
  { plan with beforeEach := some callback }

/-- The plan with a callback after each test in place of the one it had. -/
def withAfterEach (plan : ExtensionPlan Code) (callback : ScopeId → Code .done) :
    ExtensionPlan Code :=
  { plan with afterEach := some callback }

end ExtensionPlan

/-- A built extension. -/
structure Extension (Code : Reply → Type) where
  id : ExtensionId
  name : String
  capabilities : Capabilities
  resolver : Option (Resolver Code)
  beforeEach : Option (ScopeId → Code .done)
  afterEach : Option (ScopeId → Code .done)

namespace Extension

variable {Code : Reply → Type}

/-- Builds an extension, with the capabilities for which there is code. -/
def build (id : ExtensionId) (plan : ExtensionPlan Code) : Extension Code :=
  ⟨id, plan.name, ⟨plan.resolver.isSome, plan.beforeEach.isSome, plan.afterEach.isSome⟩,
    plan.resolver, plan.beforeEach, plan.afterEach⟩

def describe (e : Extension Code) : String :=
  e.name ++ "#" ++ toString e.id

end Extension

end TimedInvocation
