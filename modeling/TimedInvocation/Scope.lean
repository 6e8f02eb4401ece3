import TimedInvocation.Registry
import TimedInvocation.Store.Operations

/-!
# Scopes

A scope is a node of the execution hierarchy, with a registry and a store below those of its parent.
Its unique id is that of the parent and its own segment. The timeout configuration of a whole tree is
kept in the store of the root, where it is computed when it is first asked for.
-/

namespace TimedInvocation

namespace World

variable {H : Host}

/-- The scope of an index, if it has been created. -/
def scope? (w : World H) (s : ScopeId) : Option (Scope H.Source) :=
  w.scopes[s]?

def rootOf (w : World H) (s : ScopeId) : ScopeId :=
  match w.scope? s with
  | none => s
  | some scope => scope.ancestors.getLastD s

def storeOf (w : World H) (s : ScopeId) : StoreId :=
  match w.scope? s with
  | none => w.heap.stores.length
  | some scope => scope.store

def registryOf (w : World H) (s : ScopeId) : RegistryId :=
  match w.scope? s with
  | none => w.registries.length
  | some scope => scope.registry

def uniqueIdOf (w : World H) (s : ScopeId) : String :=
  match w.scope? s with
  | none => ""
  | some scope => scope.uniqueId

/-- A new scope, with a registry and a store of its own. There is none below a scope that was never
created. A child is shown by its segment, a root by its unique id, unless a name to show is given. -/
def newScope (w : World H) (place : ScopePlace H.Source) (displayName : Option String)
    (extensions : List ExtensionId) : Option ScopeId × World H :=
  match place with
  | .root uniqueId source =>
    let (registry, w) := w.newRegistry none extensions
    let (store, w) := w.newStore none
    (some w.scopes.length, { w with scopes := w.scopes ++
      [⟨uniqueId, displayName.getD uniqueId, [], registry, store, source⟩] })
  | .child parent segment =>
    match w.scope? parent with
    | none => (none, w)
    | some above =>
      let (registry, w) := w.newRegistry (some above.registry) extensions
      let (store, w) := w.newStore (some above.store)
      (some w.scopes.length, { w with scopes := w.scopes ++
        [⟨above.uniqueId ++ "/" ++ segment, displayName.getD segment,
          parent :: above.ancestors, registry, store, above.source⟩] })

def viewScope (w : World H) (s : ScopeId) : ScopeView where
  uniqueId := w.uniqueIdOf s
  displayName := match w.scope? s with
    | none => ""
    | some scope => scope.displayName
  parent := match w.scope? s with
    | none => none
    | some scope => scope.ancestors.head?
  root := w.rootOf s
  registry := w.registryOf s
  store := w.storeOf s

/-- The answer of the source of a scope for the name of a parameter. -/
def parameter (w : World H) (s : ScopeId) (name : String) : Option String × World H :=
  match w.scope? s with
  | none => (none, w)
  | some scope =>
    let (value, state) := H.read scope.source name w.state
    (value, { w with state := state })

/-- A new timeout configuration, for which the mode is read. -/
def newConfiguration (w : World H) (source : H.Source) (probe : H.State → Bool × H.State) :
    ConfigurationId × World H :=
  let made := TimeoutConfiguration.new H.read probe source w.state w.log
  (w.configurations.length, { w with
    configurations := w.configurations ++ [made.config]
    state := made.state
    log := made.log })

/-- A configuration in use, with the embedder's state and the log of the world. -/
def consult {α : Type} (w : World H) (c : ConfigurationId) (default : α)
    (f : Consultation H.Source H.State → α × Consultation H.Source H.State) : α × World H :=
  match w.configurations[c]? with
  | none => (default, w)
  | some config =>
    let (a, used) := f ⟨config, w.state, w.log⟩
    (a, { w with
      configurations := w.configurations.set c used.config
      state := used.state
      log := used.log })

end World

/-- The place of the timeout configuration in the store of a root scope. -/
def configurationKey : Key :=
  ⟨⟨["proctor", "timeout"]⟩, "configuration"⟩

namespace Routine

variable {H : Host}

/-- Makes a scope. It is a mistake of the caller's to ask for one below a scope that was never
created. -/
def newScope (place : ScopePlace H.Source) (displayName : Option String)
    (extensions : List ExtensionId) : Routine H ScopeId := do
  match ← update fun w => w.newScope place displayName extensions with
  | none => panic .other
  | some scope => return scope

/-- Closes a scope, which is to close its store. -/
def closeScope (s : ScopeId) : Routine H (Except StoreCloseError Unit) := do
  let scope ← view fun w => w.viewScope s
  log ⟨.debug, .scope, "closing execution scope", [⟨"scope", .shown scope.uniqueId⟩]⟩
  close scope.store

def parameter (s : ScopeId) (name : String) : Routine H (Option String) :=
  update fun w => w.parameter s name

/-- Makes a timeout configuration, which reads the mode. -/
def newConfiguration (source : H.Source) (probe : H.State → Bool × H.State) :
    Routine H ConfigurationId :=
  update fun w => w.newConfiguration source probe

/-- Makes the datum of a new timeout configuration. -/
def makeConfiguration (source : H.Source) : Routine H (DatumOf .configuration) := do
  let c ← newConfiguration source H.debugger
  return ⟨.configuration c, rfl⟩

/-- The timeout configuration of the tree that a scope belongs to. -/
def configurationOf (s : ScopeId) : Routine H (Except StoreError ConfigurationId) := do
  let root ← view fun w => w.rootOf s
  match ← view fun w => w.scope? root with
  | none => return .error (.closed configurationKey)
  | some scope =>
    match ← compute scope.store configurationKey .configuration
        (makeConfiguration scope.source) none with
    | .error e => return .error e
    | .ok v =>
      match v.datum with
      | .configuration c => return .ok c
      | _ => return .error (.typeMismatch configurationKey .configuration v.ty)

def isDisabled (c : ConfigurationId) : Routine H Bool :=
  view fun w => ((w.configurations[c]?).map TimeoutConfiguration.disabled).getD false

def timeoutFor (c : ConfigurationId) (kind : Kind) : Routine H (Option Duration) :=
  update fun w => w.consult c none (Consultation.timeoutFor H.read kind)

def defaultThreadMode (c : ConfigurationId) : Routine H (Option ThreadMode) :=
  update fun w => w.consult c none (Consultation.defaultThreadMode H.read)

/-- The timeout that an invocation of a kind runs under, if timeouts are not disabled. -/
def effectiveTimeout (c : ConfigurationId) (kind : Kind) (declared : Option DeclaredTimeout) :
    Routine H (Option EffectiveTimeout) :=
  update fun w => w.consult c none (Consultation.resolve H.read kind declared)

end Routine

end TimedInvocation
