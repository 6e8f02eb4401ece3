/-!
# Kinds of invocations and their properties

An invocation has one of seven kinds, in the order in which a run goes through them. Tests and the
two things that produce tests are testable, the rest is life cycle. The timeout of a kind is looked
up in three properties: the one of the kind, the one of its category and the global one.
-/

namespace TimedInvocation

/-- The kinds of invocations, in execution order. -/
inductive Kind where
  | beforeAll
  | beforeEach
  | test
  | testTemplate
  | testFactory
  | afterEach
  | afterAll
  deriving DecidableEq

/-- The two categories of kinds. -/
inductive Category where
  | lifecycle
  | testable
  deriving DecidableEq

/-- A property of the configuration that concerns timeouts. -/
inductive Property where
  | mode
  | threadMode
  | default
  | ofCategory (category : Category)
  | ofKind (kind : Kind)
  deriving DecidableEq

namespace Category

def name : Category → String
  | lifecycle => "Lifecycle"
  | testable => "Testable"

def segment : Category → String
  | lifecycle => "lifecycle"
  | testable => "testable"

end Category

namespace Kind

/-- All kinds, in execution order. -/
def all : List Kind :=
  [beforeAll, beforeEach, test, testTemplate, testFactory, afterEach, afterAll]

def name : Kind → String
  | beforeAll => "before-all"
  | beforeEach => "before-each"
  | test => "test"
  | testTemplate => "test-template"
  | testFactory => "test-factory"
  | afterEach => "after-each"
  | afterAll => "after-all"

/-- The name of the kind inside a property: its name without hyphens. -/
def segment (kind : Kind) : String :=
  String.ofList (kind.name.toList.filter (· ≠ '-'))

def category : Kind → Category
  | test | testTemplate | testFactory => .testable
  | beforeAll | beforeEach | afterEach | afterAll => .lifecycle

/-- The kinds that come after this one in execution order. -/
def later (kind : Kind) : List Kind :=
  (all.dropWhile (· ≠ kind)).drop 1

/-- The properties that give the timeout of a kind, the most specific first. -/
def properties (kind : Kind) : List Property :=
  [.ofKind kind, .ofCategory kind.category, .default]

end Kind

namespace Property

def name : Property → String
  | mode => "proctor.execution.timeout.mode"
  | threadMode => "proctor.execution.timeout.thread.mode.default"
  | default => "proctor.execution.timeout.default"
  | ofCategory category => "proctor.execution.timeout." ++ category.segment ++ ".method.default"
  | ofKind kind => "proctor.execution.timeout." ++ kind.segment ++ ".method.default"

end Property

end TimedInvocation
