import TimedInvocation.Proofs.Visibility

/-!
# Visibility along the way from the root

What a registry sees is decided on the way from its outermost ancestor down to itself: the extensions
registered at each level, in order and with repetitions, and nothing that is registered elsewhere. The
way is that of the parent links. The flags of extensions are right, so asking for those with a capability
is the same as asking for their code.
-/

namespace TimedInvocation

open Relation World

variable {H : Host}

section Build

variable {Code : Reply → Type}

/-- One call of the builder of an extension. -/
inductive ExtensionPlan.Call (Code : Reply → Type) where
  | resolver (resolver : Resolver Code)
  | beforeEach (callback : ScopeId → Code .done)
  | afterEach (callback : ScopeId → Code .done)

namespace ExtensionPlan

/-- The plan after a call. -/
def call (plan : ExtensionPlan Code) : Call Code → ExtensionPlan Code
  | .resolver resolver => plan.withResolver resolver
  | .beforeEach callback => plan.withBeforeEach callback
  | .afterEach callback => plan.withAfterEach callback

/-- The capability that a call adds. -/
def Call.capability : Call Code → Capabilities
  | resolver _ => .resolver
  | beforeEach _ => .before
  | afterEach _ => .after

end ExtensionPlan

namespace Extension

/-- There is code for every capability of a set. -/
def Implements (e : Extension Code) (c : Capabilities) : Prop :=
  (c.parameterResolver = true → e.resolver.isSome = true) ∧
    (c.beforeEach = true → e.beforeEach.isSome = true) ∧
    (c.afterEach = true → e.afterEach.isSome = true)

/-- The flags say for which capabilities there is code. -/
def Flagged (e : Extension Code) : Prop :=
  e.capabilities = ⟨e.resolver.isSome, e.beforeEach.isSome, e.afterEach.isSome⟩

theorem Flagged.contains_iff {e : Extension Code} (hflagged : e.Flagged) (c : Capabilities) :
    e.capabilities.contains c = true ↔ e.Implements c := by
  rw [hflagged]
  obtain ⟨parameterResolver, beforeEach, afterEach⟩ := c
  cases parameterResolver <;> cases beforeEach <;> cases afterEach <;>
    simp [Capabilities.contains, Implements, and_assoc]

theorem flagged_build (id : ExtensionId) (plan : ExtensionPlan Code) : (build id plan).Flagged :=
  rfl

/-- Each call of the builder adds its capability, and keeps those there are. -/
theorem capabilities_build_calls (id : ExtensionId) (calls : List (ExtensionPlan.Call Code))
    (plan : ExtensionPlan Code) :
    (build id (calls.foldl ExtensionPlan.call plan)).capabilities =
      calls.foldl (fun c call => c.union call.capability) (build id plan).capabilities := by
  induction calls generalizing plan with
  | nil => rfl
  | cons call rest ih =>
      rw [List.foldl_cons, List.foldl_cons, ih]
      congr 1
      cases call <;>
        simp [build, ExtensionPlan.call, ExtensionPlan.withResolver, ExtensionPlan.withBeforeEach,
          ExtensionPlan.withAfterEach, ExtensionPlan.Call.capability, Capabilities.union,
          Capabilities.resolver, Capabilities.before, Capabilities.after]

end Extension

end Build

section Rooted

variable {α : Type} {ancestors : α → List Nat} {nodes : List α}

/-- In a list of nodes, every node leads to one before it and on to what that leads to, or nowhere. -/
def Rooted (ancestors : α → List Nat) (nodes : List α) : Prop :=
  ∀ (i : Nat) (node : α), nodes[i]? = some node → ancestors node = [] ∨
    ∃ p above, p < i ∧ nodes[p]? = some above ∧ ancestors node = p :: ancestors above

theorem Rooted.concat {node : α} (hrooted : Rooted ancestors nodes)
    (hnode : ancestors node = [] ∨
      ∃ (p : Nat) (above : α), nodes[p]? = some above ∧ ancestors node = p :: ancestors above) :
    Rooted ancestors (nodes ++ [node]) := by
  have hstill {p : Nat} {above : α} (habove : nodes[p]? = some above) :
      (nodes ++ [node])[p]? = some above := by
    rw [List.getElem?_append_left (List.getElem?_eq_some_iff.mp habove).1, habove]
  intro i other hother
  rcases Nat.lt_or_ge i nodes.length with hold | hnew
  · rw [List.getElem?_append_left hold] at hother
    rcases hrooted i other hother with htop | ⟨p, above, hbefore, habove, hway⟩
    · exact .inl htop
    · exact .inr ⟨p, above, hbefore, hstill habove, hway⟩
  · obtain rfl : node = other := by
      rw [List.getElem?_append_right hnew] at hother
      exact List.mem_singleton.mp (List.mem_of_getElem? hother) |>.symm
    rcases hnode with htop | ⟨p, above, habove, hway⟩
    · exact .inl htop
    · have hbefore := (List.getElem?_eq_some_iff.mp habove).1
      exact .inr ⟨p, above, Nat.lt_of_lt_of_le hbefore hnew, hstill habove, hway⟩

/-- All that a node leads to is there. -/
theorem Rooted.lt_length (hrooted : Rooted ancestors nodes) {i : Nat} {node : α}
    (hnode : nodes[i]? = some node) : ∀ p ∈ ancestors node, p < nodes.length := by
  induction i using Nat.strongRecOn generalizing node with
  | ind i ih =>
      rcases hrooted i node hnode with htop | ⟨p, above, hbefore, habove, hway⟩
      · simp [htop]
      · rw [hway]
        rintro q (_ | ⟨_, hq⟩)
        · exact (List.getElem?_eq_some_iff.mp habove).1
        · exact ih p hbefore habove q hq

end Rooted

namespace World

variable {w w' : World H} {r : RegistryId}

/-- The way from the outermost registry down to one, by the parent links. -/
inductive Path (w : World H) : RegistryId → List RegistryId → Prop where
  | outermost {r : RegistryId} (hmade : r < w.registries.length)
      (hparent : (w.viewRegistry r).parent = none) : Path w r [r]
  | within {r p : RegistryId} {path : List RegistryId} (hmade : r < w.registries.length)
      (hparent : (w.viewRegistry r).parent = some p) (habove : Path w p path) : Path w r (path ++ [r])

theorem Path.unique {path other : List RegistryId} (hpath : w.Path r path) (hother : w.Path r other) :
    other = path := by
  induction hpath generalizing other with
  | outermost hmade hparent =>
      cases hother with
      | outermost => rfl
      | within _ hwithin _ => cases hparent.symm.trans hwithin
  | within hmade hparent habove ih =>
      cases hother with
      | outermost _ htop => cases hparent.symm.trans htop
      | within _ hwithin hpath =>
          cases hparent.symm.trans hwithin
          rw [ih hpath]

/-- The extensions registered at one level, in the order of registration. -/
def locals (w : World H) (level : RegistryId) : List (Extension (Program H)) :=
  (w.viewRegistry level).extensions.filterMap fun e => w.extensions[e]?

/-- Those of them that have all the given capabilities. -/
def localStream (w : World H) (c : Capabilities) (level : RegistryId) : List (Extension (Program H)) :=
  (w.locals level).filter fun e => e.capabilities.contains c

/-- Registries and scopes form trees in which what is above is older, the way up from the registry of a
scope is that of the scope, and the flags of extensions are right. -/
structure Linked (w : World H) : Prop where
  registries : Rooted Registry.ancestors w.registries
  scopes : Rooted Scope.ancestors w.scopes
  placed : ∀ scope ∈ w.scopes, (w.registry scope.registry).ancestors = scope.ancestors.map w.registryOf
  flagged : ∀ e ∈ w.extensions, e.Flagged

theorem registry_of_sameNodes (hsame : w.SameNodes w') : w'.registry = w.registry := by
  funext r
  simp only [registry, hsame.registries]

theorem registryOf_of_sameNodes (hsame : w.SameNodes w') : w'.registryOf = w.registryOf := by
  funext s
  simp only [registryOf, scope?, hsame.registries, hsame.scopes]

/-- What stands above a registry that is made: its parent, and all that stands above that. -/
theorem ancestors_newRegistry (w : World H) {p : RegistryId} (hp : p < w.registries.length)
    (extensions : List ExtensionId) :
    ((w.newRegistry (some p) extensions).2.registry w.registries.length).ancestors =
      p :: (w.registry p).ancestors := by
  simp [newRegistry, registry, hp]

namespace Linked

theorem of_sameNodes (hlinked : w.Linked) (hsame : w.SameNodes w') : w'.Linked where
  registries := hsame.registries ▸ hlinked.registries
  scopes := hsame.scopes ▸ hlinked.scopes
  flagged := hsame.extensions ▸ hlinked.flagged
  placed := by
    rw [registry_of_sameNodes hsame, registryOf_of_sameNodes hsame, hsame.scopes]
    exact hlinked.placed

theorem newExtension (hlinked : w.Linked) (plan : ExtensionPlan (Program H)) :
    (w.newExtension plan).2.Linked where
  registries := hlinked.registries
  scopes := hlinked.scopes
  placed := hlinked.placed
  flagged := by
    intro e he
    rcases List.mem_append.mp he with hold | hnew
    · exact hlinked.flagged e hold
    · rw [List.mem_singleton.mp hnew]
      exact Extension.flagged_build _ plan

/-- The registries of the scopes above one are there already when a scope or a registry is made. -/
theorem map_registryOf (hlinked : w.Linked) (hgrows : w.landmarks.Grows w'.landmarks)
    {scope : Scope H.Source} (hscope : scope ∈ w.scopes) :
    scope.ancestors.map w'.registryOf = scope.ancestors.map w.registryOf := by
  obtain ⟨s, hs⟩ := List.mem_iff_getElem?.mp hscope
  refine List.map_congr_left fun p hp => ?_
  have hp := List.getElem?_eq_getElem (hlinked.scopes.lt_length hs p hp)
  simp only [registryOf, scope?_eq_of_grows hgrows hp, show w.scope? p = _ from hp]

theorem newRegistry (hlinked : w.Linked) (hformed : w.landmarks.Formed) (parent : Option RegistryId)
    (extensions : List ExtensionId) : (w.newRegistry parent extensions).2.Linked where
  registries := by
    refine hlinked.registries.concat ?_
    cases parent with
    | none => exact .inl rfl
    | some p =>
        cases hp : w.registries[p]? with
        | none => exact .inl (by simp [hp])
        | some above => exact .inr ⟨p, above, hp, by simp [hp]⟩
  scopes := hlinked.scopes
  flagged := hlinked.flagged
  placed := by
    intro scope hscope
    have hgrows := w.grows_newRegistry parent extensions
    rw [hlinked.map_registryOf hgrows hscope,
      registry_eq_of_grows hgrows (hformed.registries scope hscope)]
    exact hlinked.placed scope hscope

theorem addScope (hlinked : w.Linked) {scope : Scope H.Source}
    (habove : scope.ancestors = [] ∨
      ∃ (p : ScopeId) (above : Scope H.Source), w.scopes[p]? = some above ∧
        scope.ancestors = p :: above.ancestors)
    (hplaced : (w.registry scope.registry).ancestors = scope.ancestors.map w.registryOf)
    (hregistry : scope.registry < w.registries.length) :
    World.Linked { w with scopes := w.scopes ++ [scope] } where
  registries := hlinked.registries
  scopes := hlinked.scopes.concat habove
  flagged := hlinked.flagged
  placed := by
    have hgrows := w.grows_addScope hregistry
    intro other hother
    rcases List.mem_append.mp hother with hold | hnew
    · rw [hlinked.map_registryOf hgrows hold]
      exact hlinked.placed other hold
    · obtain rfl := List.mem_singleton.mp hnew
      refine Eq.trans hplaced (List.map_congr_left fun p hp => ?_)
      have hp : p < w.scopes.length := by
        rcases habove with htop | ⟨q, above, hq, hway⟩
        · simp [htop] at hp
        · rw [hway] at hp
          rcases List.mem_cons.mp hp with rfl | hp
          · exact (List.getElem?_eq_some_iff.mp hq).1
          · exact hlinked.scopes.lt_length hq p hp
      have hp := List.getElem?_eq_getElem hp
      simp only [registryOf, scope?_eq_of_grows hgrows hp, show w.scope? p = _ from hp]

/-- A scope is made together with its registry, which is below that of the parent. -/
theorem newScope (hlinked : w.Linked) (hformed : w.landmarks.Formed) (place : ScopePlace H.Source)
    (displayName : Option String) (extensions : List ExtensionId) :
    (w.newScope place displayName extensions).2.Linked := by
  cases place with
  | root uniqueId source =>
      have hmade := (hlinked.newRegistry hformed none extensions).of_sameNodes
        (.of_landmarks (landmarks_newStore _ none))
      refine hmade.addScope (.inl rfl) ?_ ?_
      · simp [World.newStore, World.newRegistry, registry]
      · simp [World.newStore, World.newRegistry]
  | child parent segment =>
      simp only [World.newScope]
      split
      · exact hlinked
      · next above habove =>
        have hscope := List.mem_of_getElem? habove
        have hexists := hformed.registries above hscope
        have hsame := SameNodes.of_landmarks
          (landmarks_newStore (w.newRegistry (some above.registry) extensions).2 (some above.store))
        have hmade := (hlinked.newRegistry hformed (some above.registry) extensions).of_sameNodes hsame
        refine hmade.addScope (.inr ⟨parent, above, habove, rfl⟩) ?_ ?_
        · have hgrows := w.grows_newRegistry (some above.registry) extensions
          have hparent : (w.newRegistry (some above.registry) extensions).2.registryOf parent =
              above.registry := by
            rw [registryOf, scope?_eq_of_grows hgrows habove]
          rw [registry_of_sameNodes hsame, registryOf_of_sameNodes hsame, List.map_cons, hparent,
            hlinked.map_registryOf hgrows hscope, ← hlinked.placed above hscope]
          exact w.ancestors_newRegistry hexists extensions
        · rw [hsame.registries]
          simp [World.newRegistry]

end Linked

theorem Move.linked (hmove : Move w w') (hformed : w.landmarks.Formed) (hlinked : w.Linked) :
    w'.Linked := by
  rcases hmove.nodes_or with hsame | ⟨plan, rfl⟩ | ⟨parent, extensions, rfl⟩ |
    ⟨place, displayName, extensions, rfl⟩
  · exact hlinked.of_sameNodes hsame
  · exact hlinked.newExtension plan
  · exact hlinked.newRegistry hformed parent extensions
  · exact hlinked.newScope hformed place displayName extensions

theorem Reachable.linked (hw : w.Reachable) : w.Linked := by
  obtain ⟨state, hmoves⟩ := hw
  induction hmoves with
  | refl =>
      refine ⟨fun i node hnode => ?_, fun i node hnode => ?_, fun scope hscope => ?_, fun e he => ?_⟩
      · simp [initial] at hnode
      · simp [initial] at hnode
      · simp [initial] at hscope
      · simp [initial] at he
  | tail hmoves hmove ih => exact hmove.linked (Reachable.formed ⟨state, hmoves⟩) ih

namespace Linked

/-- The recorded ancestors of a registry are those on the way of parent links. -/
theorem path (hlinked : w.Linked) (hmade : r < w.registries.length) :
    w.Path r (r :: (w.registry r).ancestors).reverse := by
  induction r using Nat.strongRecOn with
  | ind r ih =>
      have hr : w.registry r = w.registries[r] := by simp [registry, hmade]
      rcases hlinked.registries r _ (List.getElem?_eq_getElem hmade) with htop |
        ⟨p, above, hbefore, habove, hway⟩
      · rw [hr, htop]
        exact .outermost hmade (by simp [viewRegistry, hr, htop])
      · have hp : w.registry p = above := by simp [registry, habove]
        have hpath := ih p hbefore (List.getElem?_eq_some_iff.mp habove).1
        rw [hp] at hpath
        rw [hr, hway, List.reverse_cons]
        exact .within hmade (by simp [viewRegistry, hr, hway]) hpath

/-- The registry of a scope is directly below that of the parent scope. -/
theorem parent_scope (hlinked : w.Linked) {s : ScopeId} {scope : Scope H.Source}
    (hscope : w.scope? s = some scope) :
    (w.viewRegistry (w.registryOf s)).parent = (w.viewScope s).parent.map w.registryOf := by
  have hregistry : w.registryOf s = scope.registry := by simp only [registryOf, hscope]
  simp only [viewRegistry, viewScope, hscope, hregistry,
    hlinked.placed scope (List.mem_of_getElem? hscope), List.head?_map]

/-- The way to the registry of a scope leads through the registries of the scopes above. -/
theorem path_scope (hlinked : w.Linked) (hformed : w.landmarks.Formed) {s : ScopeId}
    {scope : Scope H.Source} (hscope : w.scope? s = some scope) :
    w.Path (w.registryOf s) ((s :: scope.ancestors).reverse.map w.registryOf) := by
  have hmem : scope ∈ w.scopes := List.mem_of_getElem? hscope
  have hregistry : w.registryOf s = scope.registry := by simp only [registryOf, hscope]
  rw [List.map_reverse, List.map_cons, hregistry, ← hlinked.placed scope hmem]
  exact hlinked.path (hformed.registries scope hmem)

theorem visible_eq (hlinked : w.Linked) {path : List RegistryId} (hpath : w.Path r path) :
    w.visible r = path.flatMap w.locals := by
  have hmade : r < w.registries.length := by cases hpath <;> assumption
  rw [(hlinked.path hmade).unique hpath, visible, List.filterMap_flatMap]
  rfl

theorem stream_eq (hlinked : w.Linked) {path : List RegistryId} (hpath : w.Path r path)
    (c : Capabilities) : w.stream r c = path.flatMap (w.localStream c) := by
  rw [stream, hlinked.visible_eq hpath, List.filter_flatMap]
  rfl

theorem flagged_of_visible (hlinked : w.Linked) {e : Extension (Program H)} (he : e ∈ w.visible r) :
    e.Flagged := by
  obtain ⟨id, -, hid⟩ := List.mem_filterMap.mp he
  exact hlinked.flagged e (List.mem_of_getElem? hid)

end Linked

/-- Extensions in the order of a stream, each of them with a piece of its code. -/
structure Exhibits {β : Type} (code : Extension (Program H) → Option β)
    (stream : List (Extension (Program H))) (typed : List (Extension (Program H) × β)) : Prop where
  extensions : typed.map Prod.fst = stream
  code : ∀ p ∈ typed, code p.1 = some p.2

theorem exhibits_filterMap {β : Type} {code : Extension (Program H) → Option β}
    {stream : List (Extension (Program H))} (hcode : ∀ e ∈ stream, (code e).isSome = true) :
    Exhibits code stream (stream.filterMap fun e => (code e).map fun found => (e, found)) := by
  induction stream with
  | nil => exact ⟨rfl, by simp⟩
  | cons e rest ih =>
      obtain ⟨found, hfound⟩ := Option.isSome_iff_exists.mp (hcode e List.mem_cons_self)
      obtain ⟨hextensions, hpairs⟩ := ih fun other hother => hcode other (List.mem_cons_of_mem e hother)
      rw [List.filterMap_cons_some (by rw [hfound]; rfl)]
      refine ⟨by rw [List.map_cons, hextensions], ?_⟩
      rintro p (_ | ⟨_, hp⟩)
      · exact hfound
      · exact hpairs p hp

/-- What a registry sees, given the way that leads to it from the outermost one. -/
structure StreamLaw (w : World H) (r : RegistryId) (path : List RegistryId) : Prop where
  /-- The levels on the way, from the outermost on, each with what was registered there. -/
  streamed : ∀ c, w.stream r c = path.flatMap (w.localStream c)
  /-- From the back, it is the levels from the innermost on, each of them backwards. -/
  backwards : ∀ c, (w.stream r c).reverse =
    path.reverse.flatMap fun level => (w.localStream c level).reverse
  /-- To have a capability is to have code for it. -/
  capable : ∀ e ∈ w.visible r, ∀ c, e.capabilities.contains c = true ↔ e.Implements c
  resolvers : Exhibits Extension.resolver (w.stream r .resolver) (w.resolvers r)
  beforeCallbacks : Exhibits Extension.beforeEach (w.stream r .before) (w.beforeCallbacks r)
  afterCallbacks : Exhibits Extension.afterEach (w.stream r .after) (w.afterCallbacks r)
  /-- Nothing but the levels on the way matters. -/
  confined : ∀ w₁ : World H, w₁.Reachable → ∀ r₁ path₁, w₁.Path r₁ path₁ →
    path₁.map w₁.locals = path.map w.locals → ∀ c, w₁.stream r₁ c = w.stream r c
  /-- Nothing that is made later matters. -/
  lasting : ∀ w₁, Meanwhile w w₁ → ∀ c, w₁.stream r c = w.stream r c

theorem Reachable.streamLaw (hw : w.Reachable) {path : List RegistryId} (hpath : w.Path r path) :
    w.StreamLaw r path := by
  have hlinked := hw.linked
  have hcapable : ∀ e ∈ w.visible r, ∀ c, e.capabilities.contains c = true ↔ e.Implements c :=
    fun e he c => (hlinked.flagged_of_visible he).contains_iff c
  have himplements (c : Capabilities) : ∀ e ∈ w.stream r c, e.Implements c := fun e he => by
    obtain ⟨hvisible, hcontains⟩ := List.mem_filter.mp he
    exact (hcapable e hvisible c).mp hcontains
  constructor
  case streamed => exact hlinked.stream_eq hpath
  case backwards =>
    intro c
    rw [hlinked.stream_eq hpath, List.reverse_flatMap]
    rfl
  case capable => exact hcapable
  case resolvers => exact exhibits_filterMap fun e he => (himplements _ e he).1 rfl
  case beforeCallbacks => exact exhibits_filterMap fun e he => (himplements _ e he).2.1 rfl
  case afterCallbacks => exact exhibits_filterMap fun e he => (himplements _ e he).2.2 rfl
  case confined =>
    intro w₁ hw₁ r₁ path₁ hpath₁ hlevels c
    have hvisible : w₁.visible r₁ = w.visible r := by
      rw [hw₁.linked.visible_eq hpath₁, hlinked.visible_eq hpath, List.flatMap_def, hlevels,
        ← List.flatMap_def]
    rw [stream, stream, hvisible]
  case lasting =>
    intro w₁ hmoves c
    have hmade : r < w.registries.length := by cases hpath <;> assumption
    rw [stream, stream, visible_eq_of_grows hw.formed hmoves.grows hmade]

/-- A registry that is made holds the given extensions at its own level, as far as they exist. -/
theorem locals_newRegistry (w : World H) (parent : Option RegistryId) (extensions : List ExtensionId) :
    (w.newRegistry parent extensions).2.locals (w.newRegistry parent extensions).1 =
      extensions.filterMap fun e => w.extensions[e]? := by
  have hlevel : (w.newRegistry parent extensions).2.locals (w.newRegistry parent extensions).1 =
      (extensions.filter fun e => e < w.extensions.length).filterMap fun e => w.extensions[e]? := by
    simp [locals, viewRegistry, newRegistry, registry]
  rw [hlevel, List.filterMap_filter]
  refine List.filterMap_congr fun e _ => ?_
  by_cases he : e < w.extensions.length <;> simp [he]

end World

/-- In every tree of registries and scopes, built in any order, there is exactly one way to a registry from
the outermost one, and what the registry sees is what was registered along that way. The registries of scopes
are linked as the scopes are. A registry holds what it was made with, and the flags of an extension say which
calls of the builder it was made with. -/
theorem streams_follow_the_way {w : World H} (hw : w.Reachable) :
    (∀ r < w.registries.length, ∃ path, (∀ other, w.Path r other ↔ other = path) ∧
      w.StreamLaw r path) ∧
    (∀ s scope, w.scope? s = some scope →
      (w.viewRegistry (w.registryOf s)).parent = (w.viewScope s).parent.map w.registryOf ∧
        w.Path (w.registryOf s) ((s :: scope.ancestors).reverse.map w.registryOf)) ∧
    (∀ parent extensions, (w.newRegistry parent extensions).2.locals (w.newRegistry parent extensions).1 =
      extensions.filterMap fun e => w.extensions[e]?) ∧
    ∀ name (calls : List (ExtensionPlan.Call (Program H))),
      let e := Extension.build w.extensions.length (calls.foldl ExtensionPlan.call (.named name))
      e.Flagged ∧
        e.capabilities = calls.foldl (fun c call => c.union call.capability) ⟨false, false, false⟩ := by
  have hlinked := hw.linked
  refine ⟨fun r hr => ?registries, fun s scope hscope => ?scopes, w.locals_newRegistry,
    fun name calls => ?built⟩
  case registries =>
    have hpath := hlinked.path hr
    exact ⟨_, fun other => ⟨hpath.unique, fun heq => heq ▸ hpath⟩, hw.streamLaw hpath⟩
  case scopes => exact ⟨hlinked.parent_scope hscope, hlinked.path_scope hw.formed hscope⟩
  case built =>
    exact ⟨Extension.flagged_build _ _, Extension.capabilities_build_calls _ calls (.named name)⟩

/-- A world with two extensions and three scopes: a root where one of them is registered twice, and two scopes
below it that register one each. -/
def twoBranches : World Host.bare :=
  let resolver : ExtensionPlan (Program Host.bare) := (ExtensionPlan.named "resolver").withResolver
    ⟨fun _ _ => .finish (.ok true), fun _ _ => .finish (.ok none)⟩
  let callback : ExtensionPlan (Program Host.bare) :=
    (ExtensionPlan.named "callback").withBeforeEach fun _ => .finish (.ok ())
  let w := ((((World.initial ()).newExtension resolver).2).newExtension callback).2
  let w := (w.newScope (.root "root" ()) none [0, 1, 0]).2
  let w := (w.newScope (.child 0 "left") none [1, 0]).2
  (w.newScope (.child 0 "right") none [0]).2

theorem streams_follow_the_way_twoBranches :
    twoBranches.StreamLaw 1 [0, 1] ∧
      (twoBranches.stream 1 .resolver).map Extension.id = [0, 0, 0] ∧
      (twoBranches.stream 2 .before).map Extension.id = [1] := by
  have hscopes : Meanwhile (((World.initial ()).newExtension _).2.newExtension _).2 twoBranches :=
    .tail (.tail (.single (.plain (.scopeMade _ _ _ _))) (.plain (.scopeMade _ _ _ _)))
      (.plain (.scopeMade _ _ _ _))
  have hreachable : twoBranches.Reachable :=
    ⟨(), .head (.plain (.extensionMade _ _)) (.head (.plain (.extensionMade _ _)) hscopes)⟩
  obtain ⟨hregistries, hlinks, -⟩ := streams_follow_the_way hreachable
  obtain ⟨path, hpath, hlaw⟩ := hregistries 1 (by decide)
  obtain rfl : [0, 1] = path := (hpath _).mp (hlinks 1 _ rfl).2
  exact ⟨hlaw, rfl, rfl⟩

end TimedInvocation
