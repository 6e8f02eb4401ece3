import Mathlib.Data.List.Basic
import TimedInvocation.Proofs.Moves

/-!
# What stays visible

Extensions, registries and scopes are made once and never changed, and a cancelled token stays
cancelled. So whatever happens in the meantime, the code that is visible from a scope remains the same
list, and a requested stop remains requested.
-/

namespace TimedInvocation

open Relation World

variable {H : Host}

/-- The part of the world to which things are only added: extensions, registries, scopes, the tokens
with whether they are cancelled, the stop tokens of the enforcers and the bodies of the workers. -/
structure Landmarks (H : Host) where
  extensions : List (Extension (Program H))
  registries : List Registry
  scopes : List (Scope H.Source)
  tokens : List Bool
  stops : List TokenId
  bodies : List (Program H .result)

/-- The landmarks of a world. -/
@[simps]
def World.landmarks (w : World H) : Landmarks H :=
  ⟨w.extensions, w.registries, w.scopes, w.tokens, w.enforcers.map Enforcer.stop,
    w.workers.map Worker.body⟩

namespace Landmarks

/-- Registries lead only to registries and extensions that exist, and scopes to registries that
exist. -/
structure Formed (l : Landmarks H) : Prop where
  ancestors : ∀ registry ∈ l.registries, ∀ r ∈ registry.ancestors, r < l.registries.length
  extensions : ∀ registry ∈ l.registries, ∀ e ∈ registry.extensions, e < l.extensions.length
  registries : ∀ scope ∈ l.scopes, scope.registry < l.registries.length

/-- Everything is still there and still cancelled, and what was well formed still is. -/
structure Grows (l l' : Landmarks H) : Prop where
  extensions : l.extensions <+: l'.extensions
  registries : l.registries <+: l'.registries
  scopes : l.scopes <+: l'.scopes
  tokens : ∀ t : TokenId, l.tokens[t]? = some true → l'.tokens[t]? = some true
  stops : l.stops <+: l'.stops
  bodies : l.bodies <+: l'.bodies
  formed : l.Formed → l'.Formed

theorem Grows.refl (l : Landmarks H) : l.Grows l :=
  ⟨List.prefix_rfl, List.prefix_rfl, List.prefix_rfl, fun _ h => h, List.prefix_rfl,
    List.prefix_rfl, id⟩

theorem Grows.of_eq {l l' : Landmarks H} (heq : l' = l) : l.Grows l' :=
  heq ▸ .refl l

theorem Grows.trans {l l₁ l₂ : Landmarks H} (hfirst : l.Grows l₁) (hsecond : l₁.Grows l₂) :
    l.Grows l₂ :=
  ⟨hfirst.extensions.trans hsecond.extensions, hfirst.registries.trans hsecond.registries,
    hfirst.scopes.trans hsecond.scopes, fun t h => hsecond.tokens t (hfirst.tokens t h),
    hfirst.stops.trans hsecond.stops, hfirst.bodies.trans hsecond.bodies, hsecond.formed ∘ hfirst.formed⟩

/-- One more registry. -/
theorem Formed.addRegistry {l : Landmarks H} (hformed : l.Formed) {registry : Registry}
    (hancestors : ∀ r ∈ registry.ancestors, r < l.registries.length)
    (hextensions : ∀ e ∈ registry.extensions, e < l.extensions.length) :
    Formed { l with registries := l.registries ++ [registry] } := by
  refine ⟨fun other hmem r hr => ?_, fun other hmem => ?_, fun scope hmem => ?_⟩
  · simp only [List.mem_append, List.mem_singleton, List.length_append, List.length_singleton]
      at hmem ⊢
    rcases hmem with hold | rfl
    · exact Nat.lt_succ_of_lt (hformed.ancestors other hold r hr)
    · exact Nat.lt_succ_of_lt (hancestors r hr)
  · simp only [List.mem_append, List.mem_singleton] at hmem
    rcases hmem with hold | rfl
    · exact hformed.extensions other hold
    · exact hextensions
  · simp only [List.length_append, List.length_singleton]
    exact Nat.lt_succ_of_lt (hformed.registries scope hmem)

/-- One more scope. -/
theorem Formed.addScope {l : Landmarks H} (hformed : l.Formed) {scope : Scope H.Source}
    (hregistry : scope.registry < l.registries.length) :
    Formed { l with scopes := l.scopes ++ [scope] } := by
  refine ⟨hformed.ancestors, hformed.extensions, fun other hmem => ?_⟩
  simp only [List.mem_append, List.mem_singleton] at hmem
  rcases hmem with hold | rfl
  · exact hformed.registries other hold
  · exact hregistry

/-- One more extension. -/
theorem Formed.addExtension {l : Landmarks H} (hformed : l.Formed)
    (extension : Extension (Program H)) :
    Formed { l with extensions := l.extensions ++ [extension] } := by
  refine ⟨hformed.ancestors, fun registry hmem e he => ?_, hformed.registries⟩
  simp only [List.length_append, List.length_singleton]
  exact Nat.lt_succ_of_lt (hformed.extensions registry hmem e he)

end Landmarks

namespace World

section Sections

variable (w : World H)

theorem landmarks_newStore (parent : Option StoreId) :
    (w.newStore parent).2.landmarks = w.landmarks := by
  cases parent <;> rfl

theorem landmarks_put (s : StoreId) (k : Key) (datum : Datum)
    (cleanup : Option (Value → Program H .done)) :
    (w.put s k datum cleanup).2.landmarks = w.landmarks := by
  simp only [put]
  split <;> rfl

theorem landmarks_remove (s : StoreId) (k : Key) (t : Ty) :
    (w.remove s k t).2.landmarks = w.landmarks := by
  simp only [remove]
  split <;> rfl

theorem landmarks_beginClose (s : StoreId) : (w.beginClose s).2.landmarks = w.landmarks := by
  simp only [beginClose]
  split <;> rfl

theorem landmarks_parameter (s : ScopeId) (name : String) :
    (w.parameter s name).2.landmarks = w.landmarks := by
  simp only [parameter]
  split <;> rfl

theorem landmarks_consult {α : Type} (c : ConfigurationId) (default : α)
    (f : Consultation H.Source H.State → α × Consultation H.Source H.State) :
    (w.consult c default f).2.landmarks = w.landmarks := by
  simp only [consult]
  split <;> rfl

theorem landmarks_nextWorker (e : EnforcerId) : (w.nextWorker e).2.landmarks = w.landmarks := by
  have hstops : (w.nextWorker e).2.enforcers.map Enforcer.stop = w.enforcers.map Enforcer.stop := by
    refine List.ext_getElem? fun i => ?_
    simp only [nextWorker, List.getElem?_map, List.getElem?_modify]
    cases w.enforcers[i]? with
    | none => rfl
    | some enforcer => by_cases h : e = i <;> simp [h]
  simp only [landmarks, hstops]
  rfl

theorem landmarks_deliver (id : WorkerId) (result : Outcome (Except Failure H.Result)) :
    (w.deliver id result).landmarks = w.landmarks := by
  have hbodies : (w.deliver id result).workers.map Worker.body = w.workers.map Worker.body := by
    refine List.ext_getElem? fun i => ?_
    simp only [deliver, List.getElem?_map, List.getElem?_modify]
    cases w.workers[i]? with
    | none => rfl
    | some worker => by_cases h : id = i <;> simp [h]
  simp only [landmarks, hbodies]
  rfl

theorem grows_newToken : w.landmarks.Grows w.newToken.2.landmarks := by
  refine ⟨List.prefix_rfl, List.prefix_rfl, List.prefix_rfl, fun t h => ?_, List.prefix_rfl,
    List.prefix_rfl, fun hformed => ⟨hformed.ancestors, hformed.extensions, hformed.registries⟩⟩
  exact List.getElem?_append_left (List.getElem?_eq_some_iff.mp h).1 ▸ h

theorem grows_cancel (t : TokenId) : w.landmarks.Grows (w.cancel t).landmarks := by
  refine ⟨List.prefix_rfl, List.prefix_rfl, List.prefix_rfl, fun t' h => ?_, List.prefix_rfl,
    List.prefix_rfl, fun hformed => ⟨hformed.ancestors, hformed.extensions, hformed.registries⟩⟩
  simp only [landmarks, cancel, List.getElem?_set]
  split
  · have hexists : t' < w.tokens.length := (List.getElem?_eq_some_iff.mp h).1
    simp [*]
  · exact h

theorem grows_cancel_all (tokens : List TokenId) :
    w.landmarks.Grows (tokens.foldl cancel w).landmarks := by
  induction tokens generalizing w with
  | nil => exact .refl _
  | cons t rest ih => exact (w.grows_cancel t).trans (ih _)

theorem grows_moveTo (time : Nat) : w.landmarks.Grows (w.moveTo time).landmarks := by
  simp only [moveTo]
  refine .trans ?_ (grows_cancel_all _ _)
  exact .refl _

theorem grows_newExtension (plan : ExtensionPlan (Program H)) :
    w.landmarks.Grows (w.newExtension plan).2.landmarks :=
  ⟨List.prefix_append _ _, List.prefix_rfl, List.prefix_rfl, fun _ h => h, List.prefix_rfl,
    List.prefix_rfl, fun hformed => hformed.addExtension _⟩

theorem grows_newRegistry (parent : Option RegistryId) (extensions : List ExtensionId) :
    w.landmarks.Grows (w.newRegistry parent extensions).2.landmarks := by
  refine ⟨List.prefix_rfl, List.prefix_append _ _, List.prefix_rfl, fun _ h => h, List.prefix_rfl,
    List.prefix_rfl, fun hformed => hformed.addRegistry (fun r hr => ?_) fun e he => ?_⟩
  · cases parent with
    | none => simp at hr
    | some p =>
        cases hp : w.registries[p]? with
        | none => simp [hp] at hr
        | some above =>
            simp only [hp, List.mem_cons] at hr
            rcases hr with rfl | hr
            · exact (List.getElem?_eq_some_iff.mp hp).1
            · exact hformed.ancestors above (List.mem_of_getElem? hp) r hr
  · exact of_decide_eq_true (List.mem_filter.mp he).2

theorem grows_newEnforcer (stop : TokenId) (signals : Bool) :
    w.landmarks.Grows (w.newEnforcer stop signals).2.landmarks :=
  ⟨List.prefix_rfl, List.prefix_rfl, List.prefix_rfl, fun _ h => h,
    by simp [landmarks, newEnforcer], List.prefix_rfl,
    fun hformed => ⟨hformed.ancestors, hformed.extensions, hformed.registries⟩⟩

theorem grows_startWorker (number : Nat) (token : TokenId) (body : TokenId → Program H .result) :
    w.landmarks.Grows (w.startWorker number token body).2.landmarks :=
  ⟨List.prefix_rfl, List.prefix_rfl, List.prefix_rfl, fun _ h => h, List.prefix_rfl,
    by simp [landmarks, startWorker],
    fun hformed => ⟨hformed.ancestors, hformed.extensions, hformed.registries⟩⟩

theorem grows_addScope {scope : Scope H.Source} (hregistry : scope.registry < w.registries.length) :
    w.landmarks.Grows { w with scopes := w.scopes ++ [scope] }.landmarks :=
  ⟨List.prefix_rfl, List.prefix_rfl, List.prefix_append _ _, fun _ h => h, List.prefix_rfl,
    List.prefix_rfl, fun hformed => hformed.addScope hregistry⟩

theorem grows_newScope (place : ScopePlace H.Source) (displayName : Option String)
    (extensions : List ExtensionId) :
    w.landmarks.Grows (w.newScope place displayName extensions).2.landmarks := by
  have hmade (parent : Option RegistryId) (above : Option StoreId) (scope : Scope H.Source)
      (hregistry : scope.registry = w.registries.length) :
      w.landmarks.Grows
        (let w₁ := ((w.newRegistry parent extensions).2.newStore above).2
        { w₁ with scopes := w₁.scopes ++ [scope] }).landmarks := by
    refine ((w.grows_newRegistry parent extensions).trans
      (.of_eq (landmarks_newStore _ above))).trans (grows_addScope _ ?_)
    have hregistries : ((w.newRegistry parent extensions).2.newStore above).2.registries =
        (w.newRegistry parent extensions).2.registries :=
      congrArg Landmarks.registries (landmarks_newStore (w.newRegistry parent extensions).2 above)
    rw [hregistry, hregistries]
    simp [newRegistry]
  cases place with
  | root uniqueId source => exact hmade none none _ rfl
  | child parent segment =>
      simp only [newScope]
      split
      · exact .refl _
      · exact hmade _ _ _ rfl

end Sections

theorem Plain.grows {w w' : World H} (hplain : Plain w w') : w.landmarks.Grows w'.landmarks := by
  cases hplain with
  | tokenMade => exact w.grows_newToken
  | cancelled _ t => exact w.grows_cancel t
  | extensionMade _ plan => exact w.grows_newExtension plan
  | registryMade _ parent extensions => exact w.grows_newRegistry parent extensions
  | scopeMade _ place displayName extensions => exact w.grows_newScope place displayName extensions
  | enforcerMade _ stop signals => exact w.grows_newEnforcer stop signals
  | storeMade _ parent => exact .of_eq (w.landmarks_newStore parent)
  | put _ s k datum cleanup => exact .of_eq (w.landmarks_put s k datum cleanup)
  | removed _ s k t => exact .of_eq (w.landmarks_remove s k t)
  | parameterRead _ s name => exact .of_eq (w.landmarks_parameter s name)
  | consulted _ c default f => exact .of_eq (w.landmarks_consult c default f)
  | workerCounted _ e => exact .of_eq (w.landmarks_nextWorker e)
  | workerStarted _ number token body => exact w.grows_startWorker number token body
  | unchanged | state | logged | recorded | allocated | alarmSet | alarmsCleared
  | configurationMade | spawned => exact .refl _

theorem Move.grows {w w' : World H} (hmove : Move w w') : w.landmarks.Grows w'.landmarks := by
  cases hmove with
  | plain hplain => exact hplain.grows
  | closeBegun s => exact .of_eq (w.landmarks_beginClose s)
  | moved time => exact w.grows_moveTo time
  | delivered id result => exact .of_eq (w.landmarks_deliver id result)
  | reserved | claimed | vacated | filled | cleanupTaken => exact .refl _

/-- Extensions, registries and scopes are those of another world. -/
structure SameNodes (w w' : World H) : Prop where
  extensions : w'.extensions = w.extensions
  registries : w'.registries = w.registries
  scopes : w'.scopes = w.scopes

theorem SameNodes.of_landmarks {w w' : World H} (heq : w'.landmarks = w.landmarks) :
    w.SameNodes w' :=
  ⟨congrArg Landmarks.extensions heq, congrArg Landmarks.registries heq,
    congrArg Landmarks.scopes heq⟩

theorem sameNodes_cancel_all (tokens : List TokenId) (w : World H) :
    w.SameNodes (tokens.foldl cancel w) := by
  induction tokens generalizing w with
  | nil => exact ⟨rfl, rfl, rfl⟩
  | cons t rest ih => exact ⟨(ih _).extensions, (ih _).registries, (ih _).scopes⟩

/-- Extensions, registries and scopes only change when one of them is made. -/
theorem Move.nodes_or {w w' : World H} (hmove : Move w w') : w.SameNodes w' ∨
    (∃ plan, w' = (w.newExtension plan).2) ∨
    (∃ parent extensions, w' = (w.newRegistry parent extensions).2) ∨
    ∃ place displayName extensions, w' = (w.newScope place displayName extensions).2 := by
  cases hmove with
  | closeBegun s => exact .inl (.of_landmarks (w.landmarks_beginClose s))
  | delivered id result => exact .inl (.of_landmarks (w.landmarks_deliver id result))
  | moved time =>
      have hsame : SameNodes { w with clock := _, alarms := _ } (w.moveTo time) :=
        sameNodes_cancel_all _ _
      exact .inl ⟨hsame.extensions, hsame.registries, hsame.scopes⟩
  | reserved | claimed | vacated | filled | cleanupTaken => exact .inl ⟨rfl, rfl, rfl⟩
  | plain hplain =>
      cases hplain with
      | extensionMade _ plan => exact .inr (.inl ⟨plan, rfl⟩)
      | registryMade _ parent extensions => exact .inr (.inr (.inl ⟨parent, extensions, rfl⟩))
      | scopeMade _ place displayName extensions =>
          exact .inr (.inr (.inr ⟨place, displayName, extensions, rfl⟩))
      | storeMade _ parent => exact .inl (.of_landmarks (w.landmarks_newStore parent))
      | put _ s k datum cleanup => exact .inl (.of_landmarks (w.landmarks_put s k datum cleanup))
      | removed _ s k t => exact .inl (.of_landmarks (w.landmarks_remove s k t))
      | parameterRead _ s name => exact .inl (.of_landmarks (w.landmarks_parameter s name))
      | consulted _ c default f => exact .inl (.of_landmarks (w.landmarks_consult c default f))
      | workerCounted _ e => exact .inl (.of_landmarks (w.landmarks_nextWorker e))
      | _ => exact .inl ⟨rfl, rfl, rfl⟩

/-- What has been made or cancelled is still there later. -/
theorem Meanwhile.grows {w w' : World H} (hmoves : Meanwhile w w') :
    w.landmarks.Grows w'.landmarks := by
  induction hmoves with
  | refl => exact .refl _
  | tail _ hmove ih => exact ih.trans hmove.grows

theorem Reachable.formed {w : World H} (hw : w.Reachable) : w.landmarks.Formed := by
  obtain ⟨state, hmoves⟩ := hw
  exact hmoves.grows.formed ⟨by simp [landmarks, initial], by simp [landmarks, initial],
    by simp [landmarks, initial]⟩

section Later

variable {w w' : World H}

theorem registry_eq_of_grows (hgrows : w.landmarks.Grows w'.landmarks) {r : RegistryId}
    (hr : r < w.registries.length) : w'.registry r = w.registry r := by
  obtain ⟨more, hmore⟩ : w.registries <+: w'.registries := hgrows.registries
  simp only [registry, ← hmore, List.getElem?_append_left hr]

/-- The extensions that are visible from a registry remain the same. -/
theorem visible_eq_of_grows (hformed : w.landmarks.Formed)
    (hgrows : w.landmarks.Grows w'.landmarks) {r : RegistryId} (hr : r < w.registries.length) :
    w'.visible r = w.visible r := by
  have hmem : w.registry r ∈ w.registries := by
    simp [registry, hr]
  have hlevels : ∀ level ∈ (r :: (w.registry r).ancestors).reverse, level < w.registries.length := by
    intro level hlevel
    rcases List.mem_cons.mp (List.mem_reverse.mp hlevel) with rfl | hancestor
    · exact hr
    · exact hformed.ancestors _ hmem level hancestor
  have hids : ∀ level ∈ (r :: (w.registry r).ancestors).reverse,
      (w'.registry level).extensions = (w.registry level).extensions := fun level hlevel => by
    rw [registry_eq_of_grows hgrows (hlevels level hlevel)]
  simp only [visible, registry_eq_of_grows hgrows hr, List.flatMap_congr hids]
  refine List.filterMap_congr fun e he => ?_
  obtain ⟨level, hlevel, he⟩ := List.mem_flatMap.mp he
  have hlevel := hlevels level hlevel
  have he : e < w.extensions.length :=
    hformed.extensions (w.registry level) (by simp [registry, hlevel]) e he
  obtain ⟨more, hmore⟩ : w.extensions <+: w'.extensions := hgrows.extensions
  rw [← hmore, List.getElem?_append_left he]

theorem scope?_eq_of_grows (hgrows : w.landmarks.Grows w'.landmarks) {s : ScopeId}
    {scope : Scope H.Source} (hs : w.scope? s = some scope) : w'.scope? s = some scope := by
  obtain ⟨more, hmore⟩ : w.scopes <+: w'.scopes := hgrows.scopes
  rw [scope?, ← hmore, List.getElem?_append_left (List.getElem?_eq_some_iff.mp hs).1]
  exact hs

/-- The extensions that are visible from a scope remain the same. -/
theorem visible_registryOf_eq (hw : w.Reachable) (hmoves : Meanwhile w w') {s : ScopeId}
    {scope : Scope H.Source} (hs : w.scope? s = some scope) :
    w'.visible (w'.registryOf s) = w.visible (w.registryOf s) := by
  have hregistry : scope.registry < w.registries.length :=
    hw.formed.registries scope (List.mem_of_getElem? hs)
  simp only [registryOf, hs, scope?_eq_of_grows hmoves.grows hs]
  exact visible_eq_of_grows hw.formed hmoves.grows hregistry

theorem resolvers_registryOf_eq (hw : w.Reachable) (hmoves : Meanwhile w w') {s : ScopeId}
    {scope : Scope H.Source} (hs : w.scope? s = some scope) :
    w'.resolvers (w'.registryOf s) = w.resolvers (w.registryOf s) := by
  simp only [resolvers, stream, visible_registryOf_eq hw hmoves hs]

theorem beforeCallbacks_registryOf_eq (hw : w.Reachable) (hmoves : Meanwhile w w') {s : ScopeId}
    {scope : Scope H.Source} (hs : w.scope? s = some scope) :
    w'.beforeCallbacks (w'.registryOf s) = w.beforeCallbacks (w.registryOf s) := by
  simp only [beforeCallbacks, stream, visible_registryOf_eq hw hmoves hs]

theorem afterCallbacks_registryOf_eq (hw : w.Reachable) (hmoves : Meanwhile w w') {s : ScopeId}
    {scope : Scope H.Source} (hs : w.scope? s = some scope) :
    w'.afterCallbacks (w'.registryOf s) = w.afterCallbacks (w.registryOf s) := by
  simp only [afterCallbacks, stream, visible_registryOf_eq hw hmoves hs]

/-- Workers stay. -/
theorem lt_workers_of_meanwhile (hmoves : Meanwhile w w') {id : WorkerId}
    (hid : id < w.workers.length) : id < w'.workers.length := by
  have hbodies : w.workers.map Worker.body <+: w'.workers.map Worker.body := hmoves.grows.bodies
  exact Nat.lt_of_lt_of_le hid (by simpa using hbodies.length_le)

/-- A stop that was requested remains requested. -/
theorem stopRequested_of_meanwhile (hmoves : Meanwhile w w') {e : EnforcerId}
    (hstop : w.stopRequested e = true) : w'.stopRequested e = true := by
  have hgrows := hmoves.grows
  have hcancelled : w.tokens[(w.enforcer e).stop]? = some true := by
    simpa [stopRequested, isCancelled, Option.getD_eq_iff] using hstop
  have hexists : e < w.enforcers.length := by
    by_contra hmissing
    have hdefault : (w.enforcer e).stop = w.tokens.length := by
      simp [enforcer, List.getElem?_eq_none (Nat.le_of_not_lt hmissing)]
    simp [hdefault] at hcancelled
  have hstops : (w'.enforcer e).stop = (w.enforcer e).stop := by
    obtain ⟨more, hmore⟩ : w.enforcers.map Enforcer.stop <+: w'.enforcers.map Enforcer.stop :=
      hgrows.stops
    have hsame : (w'.enforcers.map Enforcer.stop)[e]? = (w.enforcers.map Enforcer.stop)[e]? := by
      rw [← hmore, List.getElem?_append_left (by simpa using hexists)]
    have hthere : e < w'.enforcers.length :=
      Nat.lt_of_lt_of_le hexists (by simpa using hgrows.stops.length_le)
    simpa [enforcer, hexists, hthere] using hsame
  have hstill : w'.tokens[(w.enforcer e).stop]? = some true := hgrows.tokens _ hcancelled
  simp [stopRequested, isCancelled, hstops, hstill]

end Later

end World

end TimedInvocation
