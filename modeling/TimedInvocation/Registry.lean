import TimedInvocation.Routine

/-!
# Registries

A registry sees the extensions of all the levels around it and its own: the outermost level first,
each level in the order of registration, with repetitions kept. The extensions with given
capabilities are what is left of that list; the code that they hold is found by the same list.
-/

namespace TimedInvocation

namespace World

variable {H : Host}

def newExtension (w : World H) (plan : ExtensionPlan (Program H)) : ExtensionId × World H :=
  (w.extensions.length,
    { w with extensions := w.extensions ++ [.build w.extensions.length plan] })

/-- A new registry, possibly below another one, with some of the extensions that have been made. -/
def newRegistry (w : World H) (parent : Option RegistryId) (extensions : List ExtensionId) :
    RegistryId × World H :=
  let ancestors := match parent with
    | none => []
    | some p => match w.registries[p]? with
      | none => []
      | some above => p :: above.ancestors
  let known := extensions.filter fun e => e < w.extensions.length
  (w.registries.length, { w with registries := w.registries ++ [⟨ancestors, known⟩] })

/-- The state of a registry. One that was never created is empty. -/
def registry (w : World H) (r : RegistryId) : Registry :=
  (w.registries[r]?).getD ⟨[], []⟩

/-- All extensions that are visible from a registry, outermost first. -/
def visible (w : World H) (r : RegistryId) : List (Extension (Program H)) :=
  let levels := (r :: (w.registry r).ancestors).reverse
  (levels.flatMap fun level => (w.registry level).extensions).filterMap fun e => w.extensions[e]?

/-- The visible extensions that have all the given capabilities. -/
def stream (w : World H) (r : RegistryId) (c : Capabilities) : List (Extension (Program H)) :=
  (w.visible r).filter fun e => e.capabilities.contains c

def resolvers (w : World H) (r : RegistryId) :
    List (Extension (Program H) × Resolver (Program H)) :=
  (w.stream r .resolver).filterMap fun e => e.resolver.map fun code => (e, code)

def beforeCallbacks (w : World H) (r : RegistryId) :
    List (Extension (Program H) × (ScopeId → Program H .done)) :=
  (w.stream r .before).filterMap fun e => e.beforeEach.map fun code => (e, code)

def afterCallbacks (w : World H) (r : RegistryId) :
    List (Extension (Program H) × (ScopeId → Program H .done)) :=
  (w.stream r .after).filterMap fun e => e.afterEach.map fun code => (e, code)

end World

namespace Routine

variable {H : Host}

def newExtension (plan : ExtensionPlan (Program H)) : Routine H ExtensionId :=
  update fun w => w.newExtension plan

/-- Makes a registry, possibly below another one. -/
def newRegistry (parent : Option RegistryId) (extensions : List ExtensionId) : Routine H RegistryId :=
  update fun w => w.newRegistry parent extensions

end Routine

namespace World

variable {H : Host}

def viewRegistry (w : World H) (r : RegistryId) : RegistryView :=
  ⟨(w.registry r).ancestors.head?, (w.registry r).extensions⟩

def viewExtension (w : World H) (e : ExtensionId) : ExtensionView :=
  match w.extensions[e]? with
  | none => ⟨"", "", ⟨false, false, false⟩, false, false, false⟩
  | some x => ⟨x.name, x.describe, x.capabilities, x.resolver.isSome, x.beforeEach.isSome,
      x.afterEach.isSome⟩

end World

end TimedInvocation
