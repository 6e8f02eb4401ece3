import TimedInvocation.Duration.Words
import TimedInvocation.Text.Quoted

/-!
# Log events

An event has a level, the part of the library that it comes from, a message and named fields. It is
written as one entry: the level, the message and the fields in order. Texts are quoted; values that
are shown are written as they are.
-/

namespace TimedInvocation

/-- The levels of events, the most severe first. -/
inductive Level where
  | error
  | warn
  | info
  | debug
  | trace
  deriving DecidableEq

namespace Level

/-- The rank of a level: the higher, the less severe. -/
def rank : Level → Nat
  | error => 1
  | warn => 2
  | info => 3
  | debug => 4
  | trace => 5

def label : Level → String
  | error => "error"
  | warn => "warning"
  | info => "info"
  | debug => "debug"
  | trace => "trace"

end Level

/-- The parts of the library that log. -/
inductive Origin where
  | timeoutConfiguration
  | store
  | scope
  | resolution
  | invoker
  | enforcer
  | signals
  deriving DecidableEq

/-- The dotted path by which filters select a part. -/
def Origin.target : Origin → String
  | timeoutConfiguration => "proctor_runner::config::timeout"
  | store => "proctor_runner::store::imp"
  | scope => "proctor_runner::scope"
  | resolution => "proctor_runner::resolution"
  | invoker => "proctor_runner::runner::invoker"
  | enforcer => "proctor_runner::runner::enforcer"
  | signals => "proctor_runner::signal"

/-- What a field holds: a text to be quoted, something that is shown as it is, or a measured time. -/
inductive FieldValue where
  | text (s : String)
  | shown (s : String)
  | measured (span : Span)
  deriving DecidableEq

def FieldValue.write : FieldValue → String
  | text s => Text.quote s
  | shown s => s
  | measured span => span.quantity

/-- A named field. -/
structure Field where
  name : String
  value : FieldValue
  deriving DecidableEq

/-- Something that was logged. -/
structure Event where
  level : Level
  origin : Origin
  message : String
  fields : List Field
  deriving DecidableEq

namespace Event

/-- The names that a filter may ask for: the message and the fields. -/
def fieldNames (e : Event) : List String :=
  "message" :: e.fields.map Field.name

def body (e : Event) : String :=
  e.level.label ++ ": " ++ e.message ++
    String.join (e.fields.map fun f => " " ++ f.name ++ "=" ++ f.value.write)

def entry (e : Event) : String :=
  e.body ++ "\n"

/-- The event without a measured time in its last place. -/
def withoutMeasuredEnd (e : Event) : Event :=
  match e.fields.reverse with
  | ⟨_, .measured _⟩ :: rest => { e with fields := rest.reverse }
  | _ => e

end Event

end TimedInvocation
