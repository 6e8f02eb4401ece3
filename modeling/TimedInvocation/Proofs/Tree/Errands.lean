import TimedInvocation.Proofs.Composition
import TimedInvocation.Proofs.Conduct
import TimedInvocation.Proofs.Learning
import TimedInvocation.Proofs.Store.Agreement
import TimedInvocation.Proofs.Store.Closing
import TimedInvocation.Proofs.Store.Lineage

/-!
# Errands on a scope tree

Whoever obtains the timeout configuration of a scope tree, invokes something in one of its scopes or puts
a question to its configuration: the places between the sections, and what each section does to what the
tree shares, which is the entry for the configuration in the store of the root, the slot of the entry, the
configuration, and how often each property of it has been read.
-/

namespace TimedInvocation

open Relation World

variable {H : Host} {α : Type}

/-- A scope tree, given by its root. -/
structure Tree (H : Host) where
  root : ScopeId
  top : Scope H.Source
  isRoot : top.ancestors = []

/-- How often each property of a source has been read, as far as the embedder's state tells: a reading counts
at most once, and for no other property. -/
structure Meter (H : Host) (source : H.Source) where
  count : H.State → Property → Nat
  read : ∀ (p : Property) (state : H.State) (q : Property),
    count (H.read source p.name state).2 q ≤ count state q + if q = p then 1 else 0
  debugger : ∀ state, count (H.debugger state).2 = count state
  spawn : ∀ state, count (H.spawn state).2 = count state

/-- A meter that shows nothing. -/
def Meter.blank (source : H.Source) : Meter H source where
  count _ _ := 0
  read _ _ _ := Nat.zero_le _
  debugger _ := rfl
  spawn _ := rfl

namespace Inquiry

/-- The operation that puts a question to a configuration. -/
def routine (c : ConfigurationId) : (inquiry : Inquiry) → Routine H inquiry.Answer
  | timeoutFor kind => .timeoutFor c kind
  | defaultThreadMode => .defaultThreadMode c
  | resolve kind declared => .effectiveTimeout c kind declared

end Inquiry

/-- What somebody has to do with a scope tree. -/
inductive Errand (H : Host) where
  | configuration (s : ScopeId)
  | invocation (e : EnforcerId) (q : InvocationRequest)
      (body : Arguments → TokenId → Program H .result)
  | consultation (c : ConfigurationId) (inquiry : Inquiry)

@[reducible] def Errand.Answer : Errand H → Type
  | configuration _ => Except StoreError ConfigurationId
  | invocation _ _ _ => Report H.Result
  | consultation _ inquiry => inquiry.Answer

def Errand.routine : (errand : Errand H) → Routine H errand.Answer
  | configuration s => .configurationOf s
  | invocation e q body => .invoke e q body
  | consultation c inquiry => inquiry.routine c

/-- How somebody's request for the configuration has ended, if that is the errand and it has. -/
def Errand.requested : (errand : Errand H) → Progress H errand.Answer →
    Option (Outcome (Except StoreError ConfigurationId))
  | .configuration _, .own (.ended outcome) => some outcome
  | _, _ => none

theorem Errand.requested_away (errand : Errand H) {r : Reply} (program : Program H r)
    (next : Outcome (r.Carrier H) → Routine H errand.Answer) :
    errand.requested (.away program next) = none := by
  cases errand <;> rfl

namespace Tree

variable (T : Tree H)

def store : StoreId :=
  T.top.store

def source : H.Source :=
  T.top.source

/-- The root of the tree has been made. -/
def Planted (w : World H) : Prop :=
  w.scope? T.root = some T.top

/-- A scope belongs to the tree. -/
def Has (w : World H) (s : ScopeId) : Prop :=
  w.rootOf s = T.root

/-- A configuration is one for the source of the tree. -/
def Configures (w : World H) (c : ConfigurationId) : Prop :=
  ∃ config, w.configurations[c]? = some config ∧ config.source = T.source

/-- The errand is one on this tree. -/
def Fits (w : World H) : Errand H → Prop
  | .configuration s => T.Planted w ∧ T.Has w s
  | .invocation _ q _ => T.Planted w ∧ T.Has w q.scope
  | .consultation c _ => T.Configures w c

/-- Where somebody is between two sections who needs the configuration of the tree. -/
inductive Place where
  /-- Without the configuration. -/
  | outside
  /-- With the slot of the entry, before it is marked or its value is found. -/
  | given (i : SlotId)
  /-- Before making the configuration for the slot, which is marked. -/
  | making (i : SlotId)
  /-- Before storing the configuration that has been made. -/
  | made (i : SlotId) (c : ConfigurationId)
  /-- With a value, before the look whether the store of the root has been closed. -/
  | settled (i : SlotId) (v : Value)
  /-- After finding the store closed. -/
  | late (i : SlotId)
  | refused
  | holding (c : ConfigurationId)
  /-- Anywhere else, which does not happen. -/
  | astray

/-- Somebody has found the store of the root closed. -/
def Place.Barred : Place → Prop
  | late _ | refused => True
  | outside | given _ | making _ | made _ _ | settled _ _ | holding _ | astray => False

/-- What does not happen at a place as long as all goes well. -/
def Odd (s : ScopeId) (w : World H) : Place → Prop
  | .outside => ¬ (T.Planted w ∧ T.Has w s) ∨ w.heap.inherited? T.store configurationKey ≠ none
  | .settled _ v => ∀ c, v.datum ≠ .configuration c
  | .late i => w.heap.cleanup? i ≠ none
  | .astray => True
  | _ => False

/-- The sections by which somebody obtains the configuration. -/
inductive Obtains (s : ScopeId) : Place → World H → World H → Place → Prop where
  | looked {w : World H} : Obtains s .outside w w .outside
  | refused {w : World H} (hclosed : w.heap.isClosed T.store = true) : Obtains s .outside w w .refused
  | given {w : World H} {h' : Heap (Program H .done)} {i : SlotId}
      (hgiven : w.heap.Reservation T.store configurationKey (.slot i) h') :
      Obtains s .outside w { w with heap := h' } (.given i)
  | found {w : World H} {i : SlotId} {v : Value} (hvalue : (w.heap.slot i).value? = some v) :
      Obtains s (.given i) w w (.settled i v)
  | marked {w : World H} {i : SlotId} (hslot : w.heap.slot i = .vacant) :
      Obtains s (.given i) w (w.claim T.store i).2 (.making i)
  | made {w : World H} {i : SlotId} :
      Obtains s (.making i) w (w.newConfiguration T.source H.debugger).2
        (.made i w.configurations.length)
  | filled {w : World H} {i : SlotId} {c : ConfigurationId} :
      Obtains s (.made i c) w (w.fill T.store i (.configuration c) none).2
        (.settled i ⟨w.values, .configuration c⟩)
  | obtained {w : World H} {i : SlotId} {v : Value} {c : ConfigurationId}
      (hopen : w.heap.isClosed T.store = false) (hv : v.datum = .configuration c) :
      Obtains s (.settled i v) w w (.holding c)
  | overtaken {w : World H} {i : SlotId} {v : Value} (hclosed : w.heap.isClosed T.store = true) :
      Obtains s (.settled i v) w w (.late i)
  | spared {w : World H} {i : SlotId} (hnone : w.heap.cleanup? i = none) :
      Obtains s (.late i) w w .refused
  | strayed {w w' : World H} {place : Place} (hodd : T.Odd s w place) : Obtains s place w w' .astray

/-- How somebody obtains the configuration. User code is called only by those who have gone astray. -/
def obtaining (s : ScopeId) : Rule H Place where
  passes := T.Obtains s
  resumes place _ _ _ place' := place = .astray ∧ place' = .astray

/-- The end of a computation of the configuration. -/
def Computed (outcome : Outcome (Except StoreError Value)) (place : Place) : Prop :=
  (∃ v c, outcome = .returned (.ok v) ∧ v.datum = .configuration c ∧ place = .holding c) ∨
    (outcome = .returned (.error (.closed configurationKey)) ∧ place = .refused) ∨ place = .astray

/-- Whoever has asked for the configuration has got it or has been refused. -/
def Obtained (outcome : Outcome (Except StoreError ConfigurationId)) (place : Place) : Prop :=
  (∃ c, outcome = .returned (.ok c) ∧ place = .holding c) ∨
    (outcome = .returned (.error (.closed configurationKey)) ∧ place = .refused) ∨ place = .astray

theorem follows_astray (s : ScopeId) (routine : Routine H α) {Q : Outcome α → Place → Prop}
    (hQ : ∀ outcome, Q outcome .astray) : routine.Follows (T.obtaining s) Q .astray := by
  induction routine with
  | ended outcome => exact hQ outcome
  | step pause change next ih => exact fun w _ => ⟨.astray, .strayed trivial, ih w⟩
  | call program next ih => exact fun outcome => ⟨.astray, ⟨rfl, rfl⟩, ih outcome⟩

theorem follows_useSlot (s : ScopeId) (i : SlotId) (v : Value) :
    (Routine.useSlot T.store configurationKey .configuration i v).Follows (T.obtaining s) Computed
      (.settled i v) := by
  apply Routine.follows_view_bind
  intro w
  cases hclosed : w.heap.isClosed T.store with
  | false =>
      by_cases hv : ∃ c, v.datum = .configuration c
      · obtain ⟨c, hc⟩ := hv
        have hcast : Heap.cast configurationKey .configuration v = .ok v :=
          Heap.cast_of_ty (congrArg Datum.ty hc)
        exact ⟨.holding c, .obtained hclosed hc, .inl ⟨v, c, congrArg _ hcast, hc, rfl⟩⟩
      · exact ⟨.astray, .strayed (not_exists.mp hv), .inr (.inr rfl)⟩
  | true =>
      refine ⟨.late i, .overtaken hclosed, ?_⟩
      -- No cleanup action is owed for the value, so none is run.
      have hclean : (Routine.cleanSlot configurationKey i).Follows (T.obtaining s)
          (fun outcome place => outcome = .returned none ∧ place = .refused ∨ place = .astray)
          (.late i) := by
        apply Routine.follows_update_bind
        intro w
        by_cases hnone : w.heap.cleanup? i = none
        · have htake := Heap.takeCleanup_of_none hnone
          simp only [World.takeCleanup, htake]
          exact ⟨.refused, .spared hnone, .inl ⟨rfl, rfl⟩⟩
        · exact ⟨.astray, .strayed hnone, T.follows_astray s _ fun _ => .inr rfl⟩
      apply hclean.bind
      · rintro error place (⟨hnone, rfl⟩ | rfl)
        · cases hnone
          exact .inr (.inl ⟨rfl, rfl⟩)
        · exact T.follows_astray s _ fun _ => .inr (.inr rfl)
      · rintro payload place (⟨hnone, -⟩ | rfl)
        · cases hnone
        · exact .inr (.inr rfl)

theorem follows_fillSlot (s : ScopeId) (i : SlotId) :
    (Routine.fillSlot T.store i (Routine.makeConfiguration T.source) none).Follows (T.obtaining s)
      (fun outcome place => ∃ v, outcome = .returned v ∧ place = .settled i v) (.given i) := by
  apply Routine.follows_updateAfter_bind
  intro w hover
  have hsettled : w.heap.isSettled i = true := by simpa [Pause.isOver] using hover
  cases hvalue : (w.heap.slot i).value? with
  | some v =>
      simp only [World.claim, Heap.claim, hvalue]
      exact ⟨.settled i v, .found hvalue, v, rfl, rfl⟩
  | none =>
      have hmarked := Obtains.marked (T := T) (s := s) (Heap.slot_of_isSettled hsettled hvalue)
      simp only [World.claim, Heap.claim, hvalue] at hmarked ⊢
      refine ⟨.making i, hmarked, fun w _ => ⟨.made i w.configurations.length, .made, ?_⟩⟩
      exact fun w _ => ⟨_, .filled, _, rfl, rfl⟩

theorem follows_compute (s : ScopeId) :
    (Routine.compute T.store configurationKey .configuration (Routine.makeConfiguration T.source)
      none).Follows (T.obtaining s) Computed .outside := by
  apply Routine.follows_update_bind
  intro w
  have hreserve := w.heap.reservation T.store configurationKey
  simp only [World.reserve]
  generalize w.heap.reserve T.store configurationKey = reserved at hreserve
  obtain ⟨admission, h'⟩ := reserved
  cases admission with
  | refused =>
      obtain ⟨hclosed, rfl⟩ := hreserve.of_refused
      exact ⟨.refused, .refused hclosed, .inr (.inl ⟨rfl, rfl⟩)⟩
  | inherited v =>
      obtain ⟨-, ⟨-, hvalue⟩, rfl⟩ := hreserve.of_inherited
      have hodd : T.Odd s w .outside := .inr (by simp [hvalue])
      exact ⟨.astray, .strayed hodd, T.follows_astray s _ fun _ => .inr (.inr rfl)⟩
  | slot i =>
      refine ⟨.given i, .given hreserve, ?_⟩
      apply (T.follows_fillSlot s i).bind
      · rintro v place ⟨_, ⟨⟩, rfl⟩
        exact T.follows_useSlot s i v
      · rintro payload place ⟨v, hreturned, -⟩
        cases hreturned

/-- Whoever obtains the configuration goes by the rule. -/
theorem follows_configurationOf (s : ScopeId) :
    (Routine.configurationOf s).Follows (T.obtaining s) Obtained .outside := by
  apply Routine.follows_view_bind
  intro w
  by_cases hfits : T.Planted w ∧ T.Has w s
  · have hroot : w.rootOf s = T.root := hfits.2
    rw [hroot]
    refine ⟨.outside, .looked, ?_⟩
    apply Routine.follows_view_bind
    intro w
    by_cases hplanted : T.Planted w
    · have htop : w.scope? T.root = some T.top := hplanted
      simp only [htop]
      refine ⟨.outside, .looked, ?_⟩
      apply (T.follows_compute s).bind
      · rintro v place (⟨_, c, ⟨⟩, hv, rfl⟩ | ⟨hreturned, rfl⟩ | rfl)
        · simp only [hv]
          exact .inl ⟨c, rfl, rfl⟩
        · cases hreturned
          exact .inr (.inl ⟨rfl, rfl⟩)
        · exact T.follows_astray s _ fun _ => .inr (.inr rfl)
      · rintro payload place (⟨_, _, hreturned, -⟩ | ⟨hreturned, -⟩ | rfl)
        · cases hreturned
        · cases hreturned
        · exact .inr (.inr rfl)
    · have hodd : T.Odd s w .outside := .inl fun hfits => hplanted hfits.1
      exact ⟨.astray, .strayed hodd, T.follows_astray s _ fun _ => .inr (.inr rfl)⟩
  · exact ⟨.astray, .strayed (.inl hfits), T.follows_astray s _ fun _ => .inr (.inr rfl)⟩

/-- Nothing that the tree shares changes. -/
structure Aside (meter : Meter H T.source) (w w' : World H) : Prop where
  heap : w'.heap = w.heap
  configurations : w'.configurations = w.configurations
  count : ∀ p, meter.count w'.state p = meter.count w.state p

/-- A question is put to a configuration. -/
def Consults (c : ConfigurationId) (w w' : World H) : Prop :=
  ∃ (β : Type) (default : β)
    (f : Consultation H.Source H.State → β × Consultation H.Source H.State),
    (∀ x, ReflTransGen (Consultation.Learns H.read) x (f x).2) ∧ w' = (w.consult c default f).2

variable (meter : Meter H T.source)

/-- The sections of an invocation. A body is run only with the configuration. -/
inductive Invokes (s : ScopeId) : Place → World H → World H → Place → Prop where
  | obtains {place place' : Place} {w w' : World H} (hobtains : T.Obtains s place w w' place') :
      Invokes s place w w' place'
  | apart {place : Place} {w w' : World H} (haside : T.Aside meter w w')
      (hbody : ¬ w.StartsBody w') : Invokes s place w w' place
  | ran {c : ConfigurationId} {w w' : World H} (haside : T.Aside meter w w') :
      Invokes s (.holding c) w w' (.holding c)
  | asked {c : ConfigurationId} {w w' : World H} (hconsults : Consults c w w') :
      Invokes s (.holding c) w w' (.holding c)

/-- How an invocation goes on. What user code answers makes no difference to its place. -/
def invoking (s : ScopeId) : Rule H Place where
  passes := T.Invokes meter s
  resumes place _ _ _ place' := place' = place

theorem unobtrusive : Unobtrusive fun w w' => T.Aside meter w w' ∧ ¬ w.StartsBody w' where
  unchanged w := by
    refine ⟨⟨rfl, rfl, fun _ => rfl⟩, ?_⟩
    rintro ⟨token, htrace⟩
    exact List.cons_ne_self _ _ htrace.symm
  logged w e := by
    refine ⟨⟨rfl, rfl, fun _ => rfl⟩, ?_⟩
    rintro ⟨token, htrace⟩
    exact List.cons_ne_self _ _ htrace.symm
  recorded w o ho := by
    refine ⟨⟨rfl, rfl, fun _ => rfl⟩, ?_⟩
    rintro ⟨token, htrace⟩
    exact ho token (List.cons.inj htrace).1

section Invocation

variable {s : ScopeId} {place : Place} {c : ConfigurationId}

/-- Whatever runs no body and keeps away from what the tree shares leaves an invocation where it is. -/
theorem passes_apart (place : Place) (w w' : World H)
    (hsection : T.Aside meter w w' ∧ ¬ w.StartsBody w') :
    (T.invoking meter s).passes place w w' place :=
  .apart hsection.1 hsection.2

/-- An invocation may do all that it takes to obtain the configuration. -/
theorem follows_invoking {routine : Routine H α} {Q : Outcome α → Place → Prop}
    (hroutine : routine.Follows (T.obtaining s) Q place) : routine.Follows (T.invoking meter s) Q place :=
  hroutine.mono (fun _ _ _ _ => .obtains) (fun _ _ _ _ _ h => h.2.trans h.1.symm) fun _ _ => id

theorem enforceable (token : TokenId) : Enforceable token (T.Aside meter) where
  unchanged _ := ⟨rfl, rfl, fun _ => rfl⟩
  logged _ _ := ⟨rfl, rfl, fun _ => rfl⟩
  recorded _ := ⟨rfl, rfl, fun _ => rfl⟩
  cancelled _ := ⟨rfl, rfl, fun _ => rfl⟩
  alarmSet _ _ := ⟨rfl, rfl, fun _ => rfl⟩
  alarmsCleared _ := ⟨rfl, rfl, fun _ => rfl⟩
  workerCounted _ _ := ⟨rfl, rfl, fun _ => rfl⟩
  spawned w := ⟨rfl, rfl, fun p => congrFun (meter.spawn w.state) p⟩
  workerStarted _ _ _ := ⟨rfl, rfl, fun _ => rfl⟩

theorem follows_runWithTimeout (e : EnforcerId) (kind : Kind) (timeout : Option EffectiveTimeout)
    (body : TokenId → Program H .result) :
    (Routine.runWithTimeout e kind timeout body).Follows (T.invoking meter s) (fun _ _ => True)
      (.holding c) := by
  have hran {w w' : World H} (haside : T.Aside meter w w') :
      (T.invoking meter s).passes (.holding c) w w' (.holding c) := .ran haside
  refine Routine.follows_runWithTimeout (fun _ => .holding c) (T.enforceable meter) ?_ ?_ ?_ ?_ e kind timeout
    body
  · exact fun w => hran ⟨rfl, rfl, fun _ => rfl⟩
  · exact fun _ w w' haside => hran haside
  · exact fun _ _ _ _ => rfl
  · exact fun w e => hran ⟨rfl, rfl, fun _ => rfl⟩

theorem follows_timeoutOf (kind : Kind) (declared : Option DeclaredTimeout) :
    (Routine.timeoutOf c kind declared).Follows (T.invoking meter s)
      (fun _ place => place = .holding c) (.holding c) := by
  apply Routine.follows_view_bind
  intro w
  refine ⟨.holding c, .apart ((T.unobtrusive meter).unchanged w).1 ((T.unobtrusive meter).unchanged w).2, ?_⟩
  split
  · exact rfl
  · intro w _
    exact ⟨.holding c,
      .asked ⟨_, _, _, fun x => Consultation.resolve_learns H.read x kind declared, rfl⟩, rfl⟩

theorem follows_runBody (e : EnforcerId) (q : InvocationRequest)
    (body : Arguments → TokenId → Program H .result) :
    (Routine.runBody e q body).Follows (T.invoking meter q.scope) (fun _ _ => True) .outside := by
  have hresolve : (Routine.resolveArguments q.scope q.executable q.target q.outer).Follows
      (T.invoking meter q.scope) (fun _ place => place = .outside) .outside :=
    Routine.Within.follows ((Routine.Within.announcing (T.unobtrusive meter)).resolveArguments _ _ _ _)
      (T.passes_apart meter _) (fun _ _ => rfl) fun _ => rfl
  apply hresolve.bind
  · rintro arguments place rfl
    cases arguments with
    | error error => trivial
    | ok arguments =>
        apply (T.follows_invoking meter (T.follows_configurationOf q.scope)).bind
        · rintro answer place (⟨c, ⟨⟩, rfl⟩ | ⟨hrefused, rfl⟩ | rfl)
          · apply (T.follows_timeoutOf meter q.kind q.declared).bind
            · rintro timeout place rfl
              exact T.follows_runWithTimeout meter e q.kind timeout _
            · exact fun _ _ _ => trivial
          · cases hrefused
            trivial
          · exact T.follows_invoking meter (T.follows_astray q.scope _ fun _ => trivial)
        · exact fun _ _ _ => trivial
  · exact fun _ _ _ => trivial

/-- Whoever invokes something goes by the rule. -/
theorem follows_invoke (e : EnforcerId) (q : InvocationRequest)
    (body : Arguments → TokenId → Program H .result) :
    (Routine.invoke e q body).Follows (T.invoking meter q.scope) (fun _ _ => True) .outside :=
  Routine.follows_invoke (T.unobtrusive meter) (T.passes_apart meter) (fun _ _ _ _ => rfl)
    (T.follows_runBody meter e q body)

end Invocation

/-- How somebody on an errand gets from place to place. -/
def rule : Errand H → Rule H Place
  | .configuration s => T.obtaining s
  | .invocation _ q _ => T.invoking meter q.scope
  | .consultation c _ => ⟨fun place w w' place' => place' = place ∧ Consults c w w',
      fun _ _ _ _ _ => False⟩

/-- The same, and every section is a move. -/
def movingRule (errand : Errand H) : Rule H Place where
  passes place w w' place' := Move w w' ∧ (T.rule meter errand).passes place w w' place'
  resumes := (T.rule meter errand).resumes

/-- How an errand ends. -/
def final : ∀ errand : Errand H, Outcome errand.Answer → Place → Prop
  | .configuration _ => Obtained
  | .invocation _ _ _ | .consultation _ _ => fun _ _ => True

theorem follows_consultation (c : ConfigurationId) (inquiry : Inquiry) {place : Place} :
    (inquiry.routine c).Follows (T.rule meter (.consultation c inquiry)) (fun _ _ => True) place := by
  cases inquiry with
  | timeoutFor kind =>
      exact fun w _ =>
        ⟨place, ⟨rfl, _, _, _, fun x => Consultation.timeoutFor_learns H.read x kind, rfl⟩, trivial⟩
  | defaultThreadMode =>
      exact fun w _ =>
        ⟨place, ⟨rfl, _, _, _, fun x => Consultation.defaultThreadMode_learns H.read x, rfl⟩, trivial⟩
  | resolve kind declared =>
      exact fun w _ =>
        ⟨place, ⟨rfl, _, _, _, fun x => Consultation.resolve_learns H.read x kind declared, rfl⟩, trivial⟩

theorem composed_routine (errand : Errand H) : errand.routine.Composed := by
  have hcomposed := Routine.compositional_composed (H := H)
  cases errand with
  | configuration s => exact hcomposed.configurationOf s
  | invocation e q body => exact hcomposed.invoke e q body
  | consultation c inquiry =>
      cases inquiry with
      | timeoutFor kind => exact hcomposed.answer none (.timeoutFor c kind)
      | defaultThreadMode => exact hcomposed.answer none (.defaultThreadMode c)
      | resolve kind declared => exact hcomposed.effectiveTimeout c kind declared

/-- Everybody on an errand goes by the rule of it. -/
theorem follows_routine (errand : Errand H) :
    errand.routine.Follows (T.movingRule meter errand) (final errand) .outside := by
  apply (composed_routine errand).moves.follows
  cases errand with
  | configuration s => exact T.follows_configurationOf s
  | invocation e q body => exact T.follows_invoke meter e q body
  | consultation c inquiry => exact T.follows_consultation meter c inquiry

/-- A request for the configuration that has ended has got it or has been refused. -/
theorem obtained_of_requested {errand : Errand H} {member : Progress H errand.Answer} {place : Place}
    {outcome : Outcome (Except StoreError ConfigurationId)}
    (hrequested : errand.requested member = some outcome)
    (hfollows : member.Follows (T.movingRule meter errand) (final errand) place) :
    (∃ s, errand = .configuration s) ∧ Obtained outcome place := by
  cases errand with
  | invocation e q body => cases hrequested
  | consultation c inquiry => cases hrequested
  | configuration s =>
      cases member with
      | away program next => cases hrequested
      | own routine =>
          cases routine with
          | step pause change next => cases hrequested
          | call program next => cases hrequested
          | ended outcome' =>
              cases hrequested
              exact ⟨⟨s, rfl⟩, hfollows⟩

end Tree

end TimedInvocation
