import TimedInvocation.Program

/-!
# The world

The world is everything that programs share: the embedder's state, the heap of stores, extensions,
registries, scopes, configurations, tokens with the alarms set for them, enforcers and their workers,
a clock that moves only while everything blocks, the log and a trace of the user code that was
entered. What becomes of slots and stores is traced in the heap.
-/

namespace TimedInvocation

/-- The extensions registered at one level, and the levels around it, the nearest first. -/
structure Registry where
  ancestors : List RegistryId
  extensions : List ExtensionId
  deriving DecidableEq

/-- A node of the execution hierarchy. -/
structure Scope (S : Type) where
  uniqueId : String
  displayName : String
  ancestors : List ScopeId
  registry : RegistryId
  store : StoreId
  source : S

/-- A source of deadlines: the token of its stop request, whether signals request a stop, and how
many workers it has started. -/
structure Enforcer where
  stop : TokenId
  signals : Bool
  workers : Nat
  deriving DecidableEq

/-- The index of a worker among those that were started. -/
abbrev WorkerId := Nat

/-- A body on a thread of its own: the number of the worker within its enforcer, the body, and how it
ended once it has. -/
structure Worker (H : Host) where
  number : Nat
  body : Program H .result
  result : Option (Outcome (Except Failure H.Result))

/-- A token that is cancelled when the clock reaches a time. -/
structure Alarm where
  time : Nat
  token : TokenId
  deriving DecidableEq

/-- What the trace records: user code that is entered. -/
inductive Occurrence where
  | supports (extension : ExtensionId) (index : Nat)
  | resolve (extension : ExtensionId) (index : Nat)
  | beforeEach (extension : ExtensionId)
  | afterEach (extension : ExtensionId)
  | body (token : TokenId)
  deriving DecidableEq

/-- Everything that programs share. The log and the trace have the newest entry first. -/
structure World (H : Host) where
  state : H.State
  clock : Nat
  values : Nat
  heap : Heap (Program H .done)
  extensions : List (Extension (Program H))
  registries : List Registry
  scopes : List (Scope H.Source)
  configurations : List (TimeoutConfiguration H.Source)
  tokens : List Bool
  enforcers : List Enforcer
  alarms : List Alarm
  workers : List (Worker H)
  log : List Event
  trace : List Occurrence

namespace World

variable {H : Host}

def initial (state : H.State) : World H :=
  ⟨state, 0, 0, .empty, [], [], [], [], [], [], [], [], [], []⟩

def isCancelled (w : World H) (t : TokenId) : Bool :=
  (w.tokens[t]?).getD false

/-- The world with a token cancelled. Cancelling twice changes nothing. -/
def cancel (w : World H) (t : TokenId) : World H :=
  { w with tokens := w.tokens.set t true }

def logged (w : World H) (e : Event) : World H :=
  { w with log := e :: w.log }

def recorded (w : World H) (o : Occurrence) : World H :=
  { w with trace := o :: w.trace }

def allocate (w : World H) (datum : Datum) : Value × World H :=
  (⟨w.values, datum⟩, { w with values := w.values + 1 })

end World

end TimedInvocation
