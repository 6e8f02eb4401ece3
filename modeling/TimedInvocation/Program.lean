import TimedInvocation.Extension
import TimedInvocation.Host
import TimedInvocation.Report
import TimedInvocation.Store.Heap
import TimedInvocation.Timeout.Configuration

/-!
# Programs

User code as data. A program ends with a reply or a panic, looks at the embedder's state and changes
it, or asks for one of the operations of the library and goes on with the answer. Operations that
take further code (a factory, a cleanup action, an extension, a body) are steps of their own; all
others are requests.
-/

namespace TimedInvocation

/-- The index of a cancellation token among those that were created. -/
abbrev TokenId := Nat

/-- The index of a registry among those that were created. -/
abbrev RegistryId := Nat

/-- The index of an enforcer among those that were created. -/
abbrev EnforcerId := Nat

/-- The signals that ask the process to stop. -/
inductive ShutdownSignal where
  | interrupt
  | hangup
  | terminate
  deriving DecidableEq

/-- Where a new scope is put: a root with its unique id and its source of parameters, or a child of a
scope with its segment. -/
inductive ScopePlace (S : Type) where
  | root (uniqueId : String) (source : S)
  | child (parent : ScopeId) (segment : String)

/-- What can be seen of a scope. -/
structure ScopeView where
  uniqueId : String
  displayName : String
  parent : Option ScopeId
  root : ScopeId
  registry : RegistryId
  store : StoreId

/-- What can be seen of an extension. -/
structure ExtensionView where
  name : String
  description : String
  capabilities : Capabilities
  resolver : Bool
  beforeEach : Bool
  afterEach : Bool

/-- What can be seen of a registry. -/
structure RegistryView where
  parent : Option RegistryId
  extensions : List ExtensionId

/-- What an invocation is asked to run, and how. -/
structure InvocationRequest where
  scope : ScopeId
  kind : Kind
  executable : Executable
  target : Option Value
  outer : Option Value
  declared : Option DeclaredTimeout

/-- The operations that take no further code. -/
inductive Request (H : Host) : Type where
  | allocate (datum : Datum)
  /-- Makes a store, possibly below another one. -/
  | newStore (parent : Option StoreId)
  | get (store : StoreId) (key : Key) (type : Ty)
  | put (store : StoreId) (key : Key) (datum : Datum)
  | remove (store : StoreId) (key : Key) (type : Ty)
  | close (store : StoreId)
  | isClosed (store : StoreId)
  | newToken
  | cancel (token : TokenId)
  | isCancelled (token : TokenId)
  /-- Blocks until a token is cancelled, for a number of nanoseconds at most. -/
  | wait (token : TokenId) (nanos : Nat)
  | sleep (nanos : Nat)
  /-- Blocks until the embedder's state meets a condition, for a number of nanoseconds at most. -/
  | await (condition : H.State → Bool) (nanos : Nat)
  /-- The worker that runs the program; none on the thread that everything starts on. -/
  | currentWorker
  | extension (id : ExtensionId)
  /-- Makes a registry, possibly below another one. -/
  | newRegistry (parent : Option RegistryId) (extensions : List ExtensionId)
  | registry (id : RegistryId)
  /-- The extensions visible from a registry that have the given capabilities, outermost first. -/
  | stream (registry : RegistryId) (capabilities : Capabilities)
  | newScope (place : ScopePlace H.Source) (displayName : Option String)
      (extensions : List ExtensionId)
  | scope (id : ScopeId)
  | closeScope (scope : ScopeId)
  | parameter (scope : ScopeId) (name : String)
  | newConfiguration (source : H.Source) (probe : H.State → Bool × H.State)
  /-- The timeout configuration of the tree that a scope belongs to. -/
  | configuration (scope : ScopeId)
  | isDisabled (configuration : ConfigurationId)
  | timeoutFor (configuration : ConfigurationId) (kind : Kind)
  | defaultThreadMode (configuration : ConfigurationId)
  /-- The timeout that an invocation of a kind runs under. -/
  | effectiveTimeout (configuration : ConfigurationId) (kind : Kind)
      (declared : Option DeclaredTimeout)
  | resolve (scope : ScopeId) (executable : Executable) (target outer : Option Value)
  /-- Makes an enforcer, with the token of its stop request and whether it listens to signals. -/
  | newEnforcer (stop : TokenId) (signals : Bool)
  | signal (signal : ShutdownSignal)

/-- What the answer to a request is. -/
@[reducible] def Request.Answer {H : Host} : Request H → Type
  | allocate _ => Value
  | newStore _ => StoreId
  | get _ _ _ | put _ _ _ | remove _ _ _ => Except StoreError (Option Value)
  | close _ | closeScope _ => Except StoreCloseError Unit
  | isClosed _ | isCancelled _ | wait _ _ | await _ _ | isDisabled _ => Bool
  | newToken => TokenId
  | cancel _ | sleep _ | signal _ => Unit
  | currentWorker => Option Nat
  | extension _ => ExtensionView
  | newRegistry _ _ => RegistryId
  | registry _ => RegistryView
  | stream _ _ => List ExtensionId
  | newScope _ _ _ => ScopeId
  | scope _ => ScopeView
  | parameter _ _ => Option String
  | newConfiguration _ _ => ConfigurationId
  | configuration _ => Except StoreError ConfigurationId
  | timeoutFor _ _ => Option Duration
  | defaultThreadMode _ => Option ThreadMode
  | effectiveTimeout _ _ _ => Option EffectiveTimeout
  | resolve _ _ _ _ => Except ResolutionError Arguments
  | newEnforcer _ _ => EnforcerId

/-- What a program that returns hands back. -/
@[reducible] def Reply.Carrier (H : Host) : Reply → Type
  | done => Except Failure Unit
  | verdict => Except Failure Bool
  | datum t => DatumOf t
  | value => Except Failure (Option Value)
  | result => Except Failure H.Result

/-- A piece of user code, by what it replies. -/
inductive Program (H : Host) : Reply → Type where
  | finish {r : Reply} (reply : r.Carrier H) : Program H r
  | panic {r : Reply} (payload : Panic) : Program H r
  | attempt {r s : Reply} (body : Program H s) (next : Outcome (s.Carrier H) → Program H r) :
      Program H r
  | look {r : Reply} (next : H.State → Program H r) : Program H r
  | change {r : Reply} (state : H.State) (next : Program H r) : Program H r
  | call {r : Reply} (request : Request H) (next : request.Answer → Program H r) : Program H r
  /-- Puts a datum with a cleanup action for its value. -/
  | putWithCleanup {r : Reply} (store : StoreId) (key : Key) (datum : Datum)
      (cleanup : Value → Program H .done)
      (next : Except StoreError (Option Value) → Program H r) : Program H r
  /-- Looks a key up and computes its value if there is none. -/
  | compute {r : Reply} (store : StoreId) (key : Key) (type : Ty)
      (factory : Program H (.datum type)) (next : Except StoreError Value → Program H r) :
      Program H r
  /-- Looks a key up and computes its value, which is to be closed, if there is none. -/
  | computeCloseable {r : Reply} (store : StoreId) (key : Key) (type : Ty)
      (factory : Program H (.datum type)) (close : Value → Program H .done)
      (next : Except StoreError Value → Program H r) : Program H r
  | newExtension {r : Reply} (plan : ExtensionPlan (Program H))
      (next : ExtensionId → Program H r) : Program H r
  /-- Invokes a body with resolved arguments, with the callbacks around it and under its timeout. -/
  | invoke {r : Reply} (enforcer : EnforcerId) (request : InvocationRequest)
      (body : Arguments → TokenId → Program H .result) (next : Report H.Result → Program H r) :
      Program H r
  | run {r : Reply} (enforcer : EnforcerId) (kind : Kind) (timeout : Option EffectiveTimeout)
      (body : TokenId → Program H .result)
      (next : Except InvocationError H.Result → Program H r) : Program H r

end TimedInvocation
