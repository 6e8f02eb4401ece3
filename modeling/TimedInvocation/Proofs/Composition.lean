import TimedInvocation.Proofs.Log.Notices
import TimedInvocation.Proofs.Moves

/-!
# What routines are composed of

Every operation of the library is composed of plain moves that log nothing but notices, calls of user code,
computations of keys and closings of stores. What holds of these and is passed on by composition therefore
holds of all operations, and, by induction on fuel, of everything that programs do. In particular, all their
steps are quiet moves.
-/

namespace TimedInvocation

open World

variable {H : Host} {α β : Type}

/-- What is passed on by composition and by attempts, and holds of some steps, which others can let happen,
and of calls of some user code. -/
structure Routine.Inherited (R : World H → World H → Prop) (allowed : Reply → Prop)
    (P : {α : Type} → Routine H α → Prop) : Prop where
  ended {α : Type} (outcome : Outcome α) : P (.ended outcome)
  bind {α β : Type} {routine : Routine H α} {rest : α → Routine H β} (hroutine : P routine)
    (hrest : ∀ a, P (rest a)) : P (routine >>= rest)
  attempt {α : Type} {routine : Routine H α} (hroutine : P routine) : P routine.attempt
  run {r : Reply} (hallowed : allowed r) (program : Program H r) : P (Routine.run program)
  updateAfter {α : Type} {pause : Pause H} {f : World H → α × World H} (hwait : pause.CanEnd)
    (hsteps : ∀ w, R w (f w).2) : P (Routine.updateAfter pause f)

namespace Routine.Inherited

variable {R : World H → World H → Prop} {allowed : Reply → Prop} {P : {α : Type} → Routine H α → Prop}
  (hP : Inherited R allowed P)

include hP

theorem mono {R' : World H → World H → Prop} {allowed' : Reply → Prop}
    (hsteps : ∀ w w', R' w w' → R w w') (hallowed : ∀ r, allowed' r → allowed r) :
    Inherited R' allowed' P where
  ended := hP.ended
  bind := hP.bind
  attempt := hP.attempt
  run hr program := hP.run (hallowed _ hr) program
  updateAfter hwait hf := hP.updateAfter hwait fun w => hsteps _ _ (hf w)

theorem pure (a : α) : P (Pure.pure a : Routine H α) :=
  hP.ended _

theorem update {f : World H → α × World H} (hsteps : ∀ w, R w (f w).2) : P (Routine.update f) :=
  hP.updateAfter Pause.canEnd_none hsteps

theorem change {f : World H → World H} (hsteps : ∀ w, R w (f w)) : P (Routine.change f) :=
  hP.update (f := fun w => ((), f w)) hsteps

theorem viewAfter (hlook : ∀ w, R w w) {pause : Pause H} (hwait : pause.CanEnd) (f : World H → α) :
    P (Routine.viewAfter pause f) :=
  hP.updateAfter (f := fun w => (f w, w)) hwait hlook

theorem view (hlook : ∀ w, R w w) (f : World H → α) : P (Routine.view f) :=
  hP.viewAfter hlook Pause.canEnd_none f

/-- A slot is cleaned by taking its cleanup action and running that. -/
theorem cleanSlot (htaken : ∀ (w : World H) i, R w (w.takeCleanup i).2) (hdone : allowed .done)
    (k : Key) (i : SlotId) : P (Routine.cleanSlot k i : Routine H _) := by
  refine hP.bind (hP.update fun w => htaken w i) fun cleanup => ?_
  cases cleanup with
  | none => exact hP.pure _
  | some cleanup => exact hP.bind (hP.attempt (hP.run hdone _)) fun _ => hP.pure _

/-- A callback is announced and then called. -/
theorem callback {o : Occurrence} (hrecorded : ∀ w : World H, R w (w.recorded o))
    (hdone : allowed .done) (program : Program H .done) :
    P (do Routine.record o; Routine.run program) :=
  hP.bind (hP.change hrecorded) fun _ => hP.run hdone program

/-- To obtain the configuration is to compute a key, with a factory that makes the configuration. -/
theorem configurationOf (hlook : ∀ w, R w w)
    (hmade : ∀ w source, R w (w.newConfiguration source H.debugger).2)
    (hcompute : ∀ (s : StoreId) (k : Key) (t : Ty) {factory : Routine H (DatumOf t)} cleanup,
      P factory → P (Routine.compute s k t factory cleanup)) (s : ScopeId) :
    P (Routine.configurationOf s : Routine H _) := by
  refine hP.bind (hP.view hlook _) fun root => hP.bind (hP.view hlook _) fun found => ?_
  cases found with
  | none => exact hP.pure _
  | some scope =>
      have hfactory : P (makeConfiguration scope.source : Routine H _) :=
        hP.bind (hP.update fun w => hmade w scope.source) fun _ => hP.pure _
      refine hP.bind (hcompute _ _ _ _ hfactory) fun answer => ?_
      cases answer with
      | error e => exact hP.pure _
      | ok v =>
          rcases v with ⟨_, datum⟩
          cases datum <;> exact hP.pure _

theorem timeoutOf (hlook : ∀ w, R w w) {c : ConfigurationId} {kind : Kind}
    {declared : Option DeclaredTimeout} (heffective : P (Routine.effectiveTimeout c kind declared)) :
    P (Routine.timeoutOf c kind declared) := by
  refine hP.bind (hP.view hlook _) fun disabled => ?_
  cases disabled with
  | true => exact hP.pure _
  | false => exact heffective

end Routine.Inherited

/-- What an operation does around calls of user code: it looks at the world, logs a notice, or records which
user code, other than a body, is about to be entered. -/
inductive World.Announcement : World H → World H → Prop where
  | unchanged (w : World H) : Announcement w w
  | logged (w : World H) (n : Notice H) : Announcement w (w.logged n.event)
  | recorded (w : World H) {o : Occurrence} (hother : ∀ token, o ≠ .body token) :
      Announcement w (w.recorded o)

/-- A plain move that logs nothing but notices. -/
structure World.Ordinary (w w' : World H) : Prop where
  plain : Plain w w'
  reports : w.Reports w'

theorem World.Ordinary.refl (w : World H) : w.Ordinary w :=
  ⟨.unchanged w, .refl⟩

theorem World.Announcement.ordinary {w w' : World H} (hstep : w.Announcement w') : w.Ordinary w' := by
  cases hstep with
  | unchanged => exact .refl w
  | logged n => exact ⟨.logged w n.event, .single n⟩
  | recorded => exact ⟨.recorded w _, .of_eq rfl⟩

/-- The entry of a callback. -/
def Occurrence.IsCallback : Occurrence → Prop
  | .beforeEach _ | .afterEach _ => True
  | _ => False

/-- What is passed on by everything that is done around calls of user code. Callbacks are announced right
before they are called. -/
structure Routine.Announcing (P : {α : Type} → Routine H α → Prop) : Prop
    extends Routine.Inherited Announcement (· ≠ .done) P where
  callback {o : Occurrence} (ho : o.IsCallback) (program : Program H .done) :
    P (do Routine.record o; Routine.run program)

theorem Routine.Inherited.announcing {P : {α : Type} → Routine H α → Prop}
    (hP : Inherited Announcement (fun _ => True) P) : Announcing P where
  toInherited := hP.mono (fun _ _ => id) fun _ _ => trivial
  callback {o} ho program := by
    refine hP.callback (fun w => .recorded w ?_) trivial program
    rintro token rfl
    exact ho

namespace Routine

/-- Routines are put together from left to right or from right to left. -/
theorem bind_assoc {γ : Type} (routine : Routine H α) (rest : α → Routine H β)
    (last : β → Routine H γ) :
    (routine >>= rest) >>= last = routine >>= fun a => rest a >>= last := by
  change (routine.andThen rest).andThen last = routine.andThen fun a => (rest a).andThen last
  induction routine with
  | ended outcome => cases outcome <;> rfl
  | step pause change next ih => exact congrArg (step pause change) (funext ih)
  | call program next ih => exact congrArg (call program) (funext ih)

end Routine

section Announcements

namespace Routine.Announcing

variable {P : {α : Type} → Routine H α → Prop} (hP : Announcing P)

include hP

theorem look (f : World H → α) : P (Routine.view f) :=
  hP.view .unchanged f

theorem announce (n : Notice H) : P (Routine.log n.event) :=
  hP.change fun w => .logged w n

theorem enter {o : Occurrence} (hother : ∀ token, o ≠ .body token) : P (Routine.record o) :=
  hP.change fun w => .recorded w hother

theorem claims (scope : ScopeId) (c : ParameterContext) (candidates : List (Candidate H)) :
    P (Routine.claims scope c candidates) := by
  induction candidates with
  | nil => exact hP.pure _
  | cons candidate rest ih =>
      refine hP.bind (hP.enter (by simp)) fun _ => hP.bind (hP.run (by simp) _) fun verdict => ?_
      cases verdict with
      | error e => exact hP.pure _
      | ok claimed =>
          refine hP.bind ih fun others => ?_
          cases others <;> exact hP.pure _

theorem resolveBy (scope : ScopeId) (c : ParameterContext) (candidate : Candidate H) :
    P (Routine.resolveBy scope c candidate) := by
  refine hP.bind (hP.enter (by simp)) fun _ => hP.bind (hP.run (by simp) _) fun answer => ?_
  cases answer with
  | error e => exact hP.pure _
  | ok value =>
      simp only
      split
      · exact hP.bind (hP.announce (.resolved c candidate.1 value)) fun _ => hP.pure _
      · exact hP.pure _

theorem resolveParameter (scope : ScopeId) (c : ParameterContext) :
    P (Routine.resolveParameter scope c : Routine H _) := by
  refine hP.bind (hP.look _) fun resolvers => hP.bind (hP.claims _ _ _) fun claimed => ?_
  rcases claimed with e | (_ | ⟨candidate, _ | ⟨second, rest⟩⟩)
  · exact hP.pure _
  · exact hP.pure _
  · exact hP.resolveBy _ _ _
  · exact hP.pure _

theorem resolveFrom (scope : ScopeId) (x : Executable) (target : Option Value) (index : Nat)
    (parameters : List Parameter) :
    P (Routine.resolveFrom scope x target index parameters : Routine H _) := by
  induction parameters generalizing index with
  | nil => exact hP.pure _
  | cons parameter rest ih =>
      refine hP.bind (hP.resolveParameter _ _) fun answer => ?_
      cases answer with
      | error e => exact hP.pure _
      | ok value =>
          refine hP.bind (ih _) fun values => ?_
          cases values <;> exact hP.pure _

theorem resolveArguments (scope : ScopeId) (x : Executable) (target outer : Option Value) :
    P (Routine.resolveArguments scope x target outer : Routine H _) := by
  simp only [Routine.resolveArguments]
  split
  · refine hP.bind (hP.resolveFrom _ _ _ _ _) fun values => ?_
    cases values <;> exact hP.pure _
  · exact hP.resolveFrom _ _ _ _ _

theorem runBefore (scope : ScopeId)
    (callbacks : List (Extension (Program H) × (ScopeId → Program H .done))) :
    P (Routine.runBefore scope callbacks) := by
  induction callbacks with
  | nil => exact hP.pure _
  | cons callback rest ih =>
      rw [Routine.runBefore, ← Routine.bind_assoc]
      refine hP.bind (hP.callback (by trivial) _) fun answer => ?_
      rcases answer with _ | ⟨⟨⟩⟩
      · exact hP.pure _
      · exact ih

theorem runAfter (scope : ScopeId) (first : Option InvocationError)
    (callbacks : List (Extension (Program H) × (ScopeId → Program H .done))) :
    P (Routine.runAfter scope first callbacks) := by
  induction callbacks generalizing first with
  | nil => exact hP.pure _
  | cons callback rest ih =>
      rw [Routine.runAfter, ← Routine.bind_assoc]
      refine hP.bind (hP.callback (by trivial) _) fun answer => ?_
      rcases answer with e | ⟨⟨⟩⟩
      · cases first with
        | none => exact ih _
        | some error =>
            exact hP.bind (hP.look _) fun scope =>
              hP.bind (hP.announce (.furtherAfterEach scope callback.1 _)) fun _ => ih _
      · exact ih _

theorem afterResult {ρ : Type} (scope : ScopeId) (result : Except InvocationError ρ)
    (error : Option InvocationError) :
    P (Routine.afterResult scope result error : Routine H _) := by
  cases error with
  | none => exact hP.pure _
  | some error =>
      cases result with
      | ok _ => exact hP.pure _
      | error earlier =>
          exact hP.bind (hP.look _) fun scope =>
            hP.bind (hP.announce (.hiddenAfterEach scope error)) fun _ => hP.pure _

theorem finishTest {ρ : Type} (scope : ScopeId) (result : Except InvocationError ρ) :
    P (Routine.finishTest scope result : Routine H _) :=
  hP.bind (hP.look _) fun _ => hP.bind (hP.runAfter _ _ _) fun _ => hP.afterResult _ _ _

end Routine.Announcing

end Announcements

/-- What is passed on by everything that operations are composed of: plain moves that log nothing but notices,
calls of user code, computations of keys and closings of stores. -/
structure Routine.Compositional (P : {α : Type} → Routine H α → Prop) : Prop
    extends Routine.Inherited Ordinary (· ≠ .done) P where
  callback {o : Occurrence} (ho : o.IsCallback) (program : Program H .done) :
    P (do Routine.record o; Routine.run program)
  compute (s : StoreId) (k : Key) (t : Ty) {factory : Routine H (DatumOf t)}
    (cleanup : Option (Value → Program H .done)) (hfactory : P factory) :
    P (Routine.compute s k t factory cleanup)
  close (s : StoreId) : P (Routine.close s : Routine H _)

namespace Routine.Compositional

variable {P : {α : Type} → Routine H α → Prop} (hP : Compositional P)

include hP

/-- In particular, all that is done around calls of user code is composed of these. -/
theorem announcing : Announcing P where
  toInherited := hP.mono (fun _ _ => Announcement.ordinary) fun _ => id
  callback := hP.callback

theorem view (f : World H → α) : P (Routine.view f) :=
  hP.announcing.look f

theorem log (n : Notice H) : P (Routine.log n.event) :=
  hP.announcing.announce n

/-- Most operations log nothing in the step in which they change the world. -/
theorem silent {f : World H → α × World H} (hplain : ∀ w, Plain w (f w).2)
    (hlog : ∀ w, (f w).2.log = w.log) : P (Routine.update f) :=
  hP.update fun w => ⟨hplain w, .of_eq (hlog w)⟩

theorem cancel (t : TokenId) : P (Routine.cancel t : Routine H Unit) :=
  hP.change fun w => ⟨.cancelled w t, .of_eq rfl⟩

theorem newToken : P (Routine.newToken : Routine H TokenId) :=
  hP.silent (fun w => .tokenMade w) fun _ => rfl

theorem waitFor {pause : Pause H} (hwait : pause.CanEnd) (f : World H → α) :
    P (Routine.viewAfter pause f) :=
  hP.viewAfter .refl hwait f

theorem await (condition : World H → Bool) (nanos : Nat) : P (Routine.await condition nanos) :=
  hP.bind (hP.view _) fun _ => hP.waitFor (Pause.canEnd_of_deadline _ _) _

theorem put (s : StoreId) (k : Key) (datum : Datum) (cleanup : Option (Value → Program H .done)) :
    P (Routine.put s k datum cleanup) :=
  hP.silent (fun w => .put w s k datum cleanup) fun w => w.log_put s k datum cleanup

theorem newExtension (plan : ExtensionPlan (Program H)) : P (Routine.newExtension plan) :=
  hP.silent (fun w => .extensionMade w plan) fun _ => rfl

section Scopes

theorem consult (c : ConfigurationId)
    {f : Consultation H.Source H.State → Option α × Consultation H.Source H.State}
    (hf : ∀ used, Reported H used.log (f used).2.log) :
    P (Routine.update fun w : World H => w.consult c none f) :=
  hP.update fun w => ⟨.consulted w c none f, w.reports_consult c none hf⟩

theorem closeScope (s : ScopeId) : P (Routine.closeScope s : Routine H _) :=
  hP.bind (hP.view _) fun _ => hP.bind (hP.log (.closingScope _)) fun _ => hP.close _

theorem newScope (place : ScopePlace H.Source) (displayName : Option String)
    (extensions : List ExtensionId) : P (Routine.newScope place displayName extensions) := by
  have hmade (w : World H) := w.reports_newScope place displayName extensions
  refine hP.bind (hP.update fun w => ⟨.scopeMade w place displayName extensions, hmade w⟩) fun made => ?_
  cases made with
  | none => exact hP.ended _
  | some scope => exact hP.pure _

theorem newConfiguration (source : H.Source) (probe : H.State → Bool × H.State) :
    P (Routine.newConfiguration source probe) :=
  hP.update fun w => ⟨.configurationMade w source probe, w.reports_newConfiguration source probe⟩

theorem configurationOf (s : ScopeId) : P (Routine.configurationOf s : Routine H _) := by
  refine hP.toInherited.configurationOf .refl (fun w source => ?_) hP.compute s
  exact ⟨.configurationMade w source _, w.reports_newConfiguration source _⟩

theorem effectiveTimeout (c : ConfigurationId) (kind : Kind) (declared : Option DeclaredTimeout) :
    P (Routine.effectiveTimeout c kind declared : Routine H _) :=
  hP.consult c fun used => used.reported_resolve kind declared

end Scopes

section Enforcement

theorem forwardSignal (signal : ShutdownSignal) (enforcers : List Enforcer) :
    P (Routine.forwardSignal signal enforcers : Routine H Unit) := by
  induction enforcers with
  | nil => exact hP.pure _
  | cons enforcer rest ih =>
      simp only [Routine.forwardSignal]
      split
      · exact hP.bind (hP.log (.signalled signal)) fun _ => hP.bind (hP.cancel _) fun _ => ih
      · exact ih

theorem signal (signal : ShutdownSignal) : P (Routine.signal signal : Routine H Unit) :=
  hP.bind (hP.view _) fun _ => hP.forwardSignal _ _

theorem runHere (token : TokenId) (body : TokenId → Program H .result) :
    P (Routine.runHere token body) :=
  hP.bind (hP.change fun w => ⟨.recorded w _, .of_eq rfl⟩) fun _ => hP.run (by simp) _

theorem runOnCaller (kind : Kind) (duration : Duration) (body : TokenId → Program H .result) :
    P (Routine.runOnCaller kind duration body) := by
  refine hP.bind hP.newToken fun token => hP.bind (hP.view _) fun start => ?_
  refine hP.bind (hP.change fun w => ⟨.alarmSet w _ _, .of_eq rfl⟩) fun _ => ?_
  refine hP.bind (hP.attempt (hP.runHere _ _)) fun outcome => ?_
  refine hP.bind (hP.change fun w => ⟨.alarmsCleared w _, .of_eq rfl⟩) fun _ => ?_
  refine hP.bind (hP.ended _) fun result => hP.bind (hP.view _) fun elapsed => ?_
  refine hP.bind (hP.view _) fun cancelled => ?_
  split
  · exact hP.bind (hP.log (.overran kind _)) fun _ => hP.pure _
  · exact hP.pure _

theorem followWorker (e : EnforcerId) (kind : Kind) (duration : Duration) (number start : Nat)
    (token : TokenId) (id : WorkerId) :
    P (Routine.followWorker e kind duration number start token id : Routine H _) := by
  refine hP.bind (hP.waitFor (Pause.canEnd_of_deadline _ _) _) fun ending => ?_
  refine hP.bind (hP.view _) fun now => ?_
  cases ending with
  | finished outcome => exact hP.bind (hP.ended _) fun _ => hP.pure _
  | stopped =>
      exact hP.bind (hP.log (.stopped kind number)) fun _ => hP.bind (hP.cancel _) fun _ => hP.pure _
  | timedOut =>
      exact hP.bind (hP.log (.abandoned kind number _)) fun _ => hP.bind (hP.cancel _) fun _ => hP.pure _

theorem runOnWorker (e : EnforcerId) (kind : Kind) (duration : Duration)
    (body : TokenId → Program H .result) : P (Routine.runOnWorker e kind duration body) := by
  refine hP.bind hP.newToken fun token => ?_
  refine hP.bind (hP.silent (fun w => .workerCounted w _) fun _ => rfl) fun number => ?_
  refine hP.bind (hP.view _) fun start => ?_
  refine hP.bind (hP.silent (fun w => .spawned w) fun _ => rfl) fun error => ?_
  cases error with
  | some error => exact hP.pure _
  | none =>
      exact hP.bind (hP.silent (fun w => .workerStarted w _ _ _) fun _ => rfl) fun id =>
        hP.followWorker _ _ _ _ _ _ _

theorem runWithTimeout (e : EnforcerId) (kind : Kind) (timeout : Option EffectiveTimeout)
    (body : TokenId → Program H .result) : P (Routine.runWithTimeout e kind timeout body) := by
  cases timeout with
  | none =>
      exact hP.bind (hP.log (.untimed kind)) fun _ => hP.bind hP.newToken fun _ =>
        hP.bind (hP.runHere _ _) fun _ => hP.pure _
  | some timeout =>
      refine hP.bind (hP.log (.timed kind timeout)) fun _ => ?_
      rcases timeout with ⟨duration, mode⟩
      cases mode with
      | separateThread => exact hP.runOnWorker _ _ _ _
      | sameThread => exact hP.runOnCaller _ _ _
      | inferred => exact hP.runOnCaller _ _ _

end Enforcement

section Invocation

theorem timeoutOf (c : ConfigurationId) (kind : Kind) (declared : Option DeclaredTimeout) :
    P (Routine.timeoutOf c kind declared : Routine H _) :=
  hP.toInherited.timeoutOf .refl (hP.effectiveTimeout c kind declared)

theorem runBody (e : EnforcerId) (q : InvocationRequest)
    (body : Arguments → TokenId → Program H .result) : P (Routine.runBody e q body) := by
  refine hP.bind (hP.announcing.resolveArguments _ _ _ _) fun arguments => ?_
  cases arguments with
  | error error => exact hP.pure _
  | ok arguments =>
      refine hP.bind (hP.configurationOf _) fun configuration => ?_
      cases configuration with
      | error error => exact hP.pure _
      | ok c => exact hP.bind (hP.timeoutOf _ _ _) fun _ => hP.runWithTimeout _ _ _ _

theorem runPrepared (e : EnforcerId) (q : InvocationRequest)
    (body : Arguments → TokenId → Program H .result) : P (Routine.runPrepared e q body) := by
  refine hP.bind (hP.view _) fun before => hP.bind (hP.announcing.runBefore _ _) fun answer => ?_
  rcases answer with _ | ⟨⟨⟩⟩
  · exact hP.pure _
  · exact hP.runBody _ _ _

theorem runTest (e : EnforcerId) (q : InvocationRequest)
    (body : Arguments → TokenId → Program H .result) : P (Routine.runTest e q body) :=
  hP.bind (hP.runPrepared _ _ _) fun _ => hP.announcing.finishTest _ _

theorem invocationResult (e : EnforcerId) (q : InvocationRequest)
    (body : Arguments → TokenId → Program H .result) : P (Routine.invocationResult e q body) := by
  refine hP.bind (hP.view _) fun stopped => ?_
  cases stopped with
  | true => exact hP.pure _
  | false =>
      simp only [Bool.false_eq_true, ↓reduceIte]
      split
      · exact hP.runTest _ _ _
      · exact hP.runBody _ _ _

theorem invoke (e : EnforcerId) (q : InvocationRequest)
    (body : Arguments → TokenId → Program H .result) : P (Routine.invoke e q body) :=
  hP.bind (hP.view _) fun _ => hP.bind (hP.invocationResult _ _ _) fun _ => hP.bind (hP.view _) fun _ =>
    hP.bind (hP.view _) fun scope =>
      hP.bind (hP.log (.finished scope q.kind q.executable _ _)) fun _ => hP.pure _

end Invocation

/-- Whatever a program may request is composed of the same. -/
theorem answer (worker : Option Nat) (request : Request H) : P (Routine.answer worker request) := by
  cases request with
  | allocate datum => exact hP.silent (fun w => .allocated w datum) fun _ => rfl
  | newStore parent => exact hP.silent (fun w => .storeMade w parent) fun w => by cases parent <;> rfl
  | put s k datum => exact hP.put s k datum none
  | remove s k t => exact hP.silent (fun w => .removed w s k t) fun w => w.log_remove s k t
  | close s => exact hP.close s
  | newToken => exact hP.newToken
  | cancel t => exact hP.cancel t
  | wait t nanos => exact hP.await _ _
  | sleep nanos => exact hP.bind (hP.await _ _) fun _ => hP.pure _
  | await condition nanos => exact hP.await _ _
  | currentWorker => exact hP.pure _
  | newRegistry parent extensions => exact hP.silent (fun w => .registryMade w parent extensions) fun _ => rfl
  | newScope place displayName extensions => exact hP.newScope _ _ _
  | closeScope s => exact hP.closeScope s
  | parameter s name => exact hP.silent (fun w => .parameterRead w s name) fun w => w.log_parameter s name
  | newConfiguration source probe => exact hP.newConfiguration _ _
  | configuration s => exact hP.configurationOf s
  | timeoutFor c kind =>
      exact hP.consult c fun used => used.reported_firstDuration kind.properties
  | defaultThreadMode c =>
      exact hP.consult c Consultation.reported_defaultThreadMode
  | effectiveTimeout c kind declared => exact hP.effectiveTimeout _ _ _
  | resolve s x target outer => exact hP.announcing.resolveArguments _ _ _ _
  | newEnforcer stop signals => exact hP.silent (fun w => .enforcerMade w stop signals) fun _ => rfl
  | signal signal => exact hP.signal signal
  | get | isClosed | isCancelled | isDisabled | extension | registry | stream | scope => exact hP.view _

end Routine.Compositional

/-- What an operation does to compute a key or to close a store, apart from waiting for a slot to be settled
and claiming it, and from taking cleanup actions. -/
inductive World.StoreSection : World H → World H → Prop where
  | unchanged (w : World H) : StoreSection w w
  | logged (w : World H) (n : Notice H) : StoreSection w (w.logged n.event)
  | reserved (w : World H) (s : StoreId) (k : Key) : StoreSection w (w.reserve s k).2
  | vacated (w : World H) (i : SlotId) : StoreSection w (w.vacate i)
  | filled (w : World H) (s : StoreId) (i : SlotId) (datum : Datum)
      (cleanup : Option (Value → Program H .done)) : StoreSection w (w.fill s i datum cleanup).2
  | closeBegun (w : World H) (s : StoreId) : StoreSection w (w.beginClose s).2

/-- What is passed on by everything that computations of keys and closings of stores are composed of. The
user code that they call themselves are cleanup actions, right after taking them. -/
structure Routine.Storing (P : {α : Type} → Routine H α → Prop) : Prop
    extends Routine.Inherited StoreSection (fun _ => False) P where
  cleanSlot (k : Key) (i : SlotId) : P (Routine.cleanSlot k i : Routine H _)
  claim (s : StoreId) (i : SlotId) :
    P (Routine.updateAfter ⟨fun w => w.heap.isSettled i, none⟩ fun w : World H => w.claim s i)

namespace Routine.Storing

variable {P : {α : Type} → Routine H α → Prop} (hP : Storing P)

include hP

theorem notice (n : Notice H) : P (Routine.log n.event) :=
  hP.change fun w => .logged w n

theorem cleanEntries (entries : List (Key × SlotId)) :
    P (Routine.cleanEntries entries : Routine H _) := by
  induction entries with
  | nil => exact hP.pure _
  | cons entry rest ih => exact hP.bind (hP.cleanSlot _ _) fun _ => hP.bind ih fun _ => hP.pure _

theorem close (s : StoreId) : P (Routine.close s : Routine H _) := by
  refine hP.bind (hP.update fun w => .closeBegun w s) fun entries => ?_
  cases entries with
  | none => exact hP.pure _
  | some entries =>
      refine hP.bind (hP.notice (.closingStore _)) fun _ => hP.bind (hP.cleanEntries _) fun errors => ?_
      split <;> exact hP.pure _

theorem fillSlot {t : Ty} (s : StoreId) (i : SlotId) {factory : Routine H (DatumOf t)}
    (cleanup : Option (Value → Program H .done)) (hfactory : P factory) :
    P (Routine.fillSlot s i factory cleanup) := by
  refine hP.bind (hP.claim s i) fun found => ?_
  cases found with
  | some v => exact hP.pure _
  | none =>
      refine hP.bind (hP.attempt hfactory) fun outcome => ?_
      cases outcome with
      | panicked payload =>
          exact hP.bind (hP.change fun w => .vacated w i) fun _ => hP.ended _
      | returned datum => exact hP.update fun w => .filled w s i datum.val cleanup

theorem useSlot (s : StoreId) (k : Key) (t : Ty) (i : SlotId) (v : Value) :
    P (Routine.useSlot s k t i v : Routine H _) := by
  refine hP.bind (hP.view .unchanged _) fun closed => ?_
  cases closed with
  | false => exact hP.pure _
  | true =>
      refine hP.bind (hP.cleanSlot _ _) fun error => ?_
      cases error with
      | none => exact hP.pure _
      | some error => exact hP.bind (hP.notice (.lateCleanup error)) fun _ => hP.pure _

theorem compute (s : StoreId) (k : Key) (t : Ty) {factory : Routine H (DatumOf t)}
    (cleanup : Option (Value → Program H .done)) (hfactory : P factory) :
    P (Routine.compute s k t factory cleanup) := by
  refine hP.bind (hP.update fun w => .reserved w s k) fun admission => ?_
  cases admission with
  | refused => exact hP.pure _
  | inherited v => exact hP.pure _
  | slot i => exact hP.bind (hP.fillSlot _ _ _ hfactory) fun v => hP.useSlot _ _ _ _ _

/-- So whatever is passed on by these, and holds of plain moves, is passed on by all operations. -/
theorem compositional (hplain : Inherited Ordinary (fun _ => True) P) :
    Compositional P where
  toInherited := hplain.mono (fun _ _ => id) fun _ _ => trivial
  callback _ := hplain.callback (fun w => ⟨.recorded w _, .of_eq rfl⟩) trivial
  compute s k t _ cleanup hfactory := hP.compute s k t cleanup hfactory
  close := hP.close

end Routine.Storing

/-- Routines composed of plain moves that others can let happen, calls of user code, computations and
closings. -/
inductive Routine.Composed : {α : Type} → Routine H α → Prop where
  | ended {α : Type} (outcome : Outcome α) : Composed (.ended outcome)
  | step {α : Type} {pause : Pause H} {change : World H → World H} {next : World H → Routine H α}
      (hplain : ∀ w, Plain w (change w)) (hwait : pause.CanEnd) (hnext : ∀ w, Composed (next w)) :
      Composed (.step pause change next)
  | call {α : Type} {r : Reply} (program : Program H r)
      {next : Outcome (r.Carrier H) → Routine H α} (hnext : ∀ outcome, Composed (next outcome)) :
      Composed (.call program next)
  | andThen {α β : Type} {routine : Routine H α} {rest : α → Routine H β}
      (hroutine : Composed routine) (hrest : ∀ a, Composed (rest a)) : Composed (routine.andThen rest)
  | attempt {α : Type} {routine : Routine H α} (hroutine : Composed routine) :
      Composed routine.attempt
  | compute (s : StoreId) (k : Key) (t : Ty) {factory : Routine H (DatumOf t)}
      (cleanup : Option (Value → Program H .done)) (hfactory : Composed factory) :
      Composed (Routine.compute s k t factory cleanup)
  | close (s : StoreId) : Composed (Routine.close s)

/-- All operations are composed in this way. -/
theorem Routine.compositional_composed :
    Routine.Compositional fun {_} (routine : Routine H _) => routine.Composed where
  ended := .ended
  bind := .andThen
  attempt := .attempt
  run _ program := .call program .ended
  updateAfter hwait hsteps := .step (fun w => (hsteps w).plain) hwait fun _ => .ended _
  callback {o} _ program := .step (fun w => .recorded w o) Pause.canEnd_none fun _ => .call program .ended
  compute s k t _ cleanup hfactory := .compute s k t cleanup hfactory
  close := .close

theorem World.StoreSection.quiet {w w' : World H} (hstep : w.StoreSection w') : w.Quiet w' := by
  cases hstep with
  | unchanged => exact (Plain.unchanged w).quiet
  | logged n => exact (Plain.logged w n.event).quiet
  | reserved s k => exact ⟨.reserved w s k, .of_eq rfl rfl rfl⟩
  | vacated i => exact ⟨.vacated w i, .of_eq rfl rfl rfl⟩
  | filled s i datum cleanup => exact ⟨.filled w s i datum cleanup, .of_eq rfl rfl rfl⟩
  | closeBegun s => exact w.quiet_beginClose s

theorem Routine.Quiet.inherited :
    Inherited World.Quiet (fun _ => True) fun {_} (routine : Routine H _) => routine.Quiet where
  ended _ := trivial
  bind := .bind
  attempt := .attempt
  run _ _ _ := trivial
  updateAfter hwait hsteps := ⟨⟨fun w _ => hsteps w, hwait⟩, fun _ => trivial⟩

theorem Routine.Quiet.storing : Storing fun {_} (routine : Routine H _) => routine.Quiet where
  toInherited := inherited.mono (fun _ _ => StoreSection.quiet) fun _ _ => trivial
  cleanSlot := inherited.cleanSlot (fun w i => ⟨.cleanupTaken w i, .of_eq rfl rfl rfl⟩) trivial
  claim s i := by
    have hclaim (w : World H) (hover : Pause.isOver ⟨fun w => w.heap.isSettled i, none⟩ w = true) :
        World.Quiet w (w.claim s i).2 :=
      ⟨.claimed w s i (by simpa [Pause.isOver] using hover), .of_eq rfl rfl rfl⟩
    exact ⟨⟨hclaim, Pause.canEnd_isSettled i⟩, fun _ => trivial⟩

theorem Routine.Composed.quiet {routine : Routine H α} (hroutine : routine.Composed) :
    routine.Quiet := by
  induction hroutine with
  | ended outcome => trivial
  | step hplain hwait _ ih => exact ⟨⟨fun w _ => (hplain w).quiet, hwait⟩, ih⟩
  | call program _ ih => exact ih
  | andThen _ _ hfirst hrest => exact .bind hfirst hrest
  | attempt _ ih => exact ih.attempt
  | compute s k t cleanup _ ih => exact Quiet.storing.compute s k t cleanup ih
  | close s => exact Quiet.storing.close s

theorem Routine.Composed.moves {routine : Routine H α} (hroutine : routine.Composed) :
    routine.Moves :=
  hroutine.quiet.moves

/-- What a program begins with: its end, an attempt of another program, or a request that a routine answers,
with what it goes on with after that. -/
inductive Program.Piece (H : Host) (r : Reply) where
  | ended (outcome : Outcome (r.Carrier H))
  | attempt {s : Reply} (body : Program H s) (next : Outcome (s.Carrier H) → Program H r)
  | asks {α : Type} (routine : Routine H α) (next : α → Program H r)

/-- The first piece of a program, on a worker or on the thread that everything starts on. -/
def Program.piece (worker : Option Nat) {r : Reply} : Program H r → Program.Piece H r
  | .finish reply => .ended (.returned reply)
  | .panic payload => .ended (.panicked payload)
  | .attempt body next => .attempt body next
  | .look next => .asks (Routine.view World.state) next
  | .change state next => .asks (Routine.change fun w => { w with state := state }) fun _ => next
  | .call request next => .asks (Routine.answer worker request) next
  | .putWithCleanup s k datum cleanup next => .asks (Routine.put s k datum (some cleanup)) next
  | .compute s k t factory next => .asks (Routine.compute s k t (.run factory) none) next
  | .computeCloseable s k t factory close next =>
      .asks (Routine.compute s k t (.run factory) (some close)) next
  | .newExtension plan next => .asks (Routine.newExtension plan) next
  | .invoke e request body next => .asks (Routine.invoke e request body) next
  | .run e kind timeout body next => .asks (Routine.runWithTimeout e kind timeout body) next

/-- A program is run piece by piece. -/
theorem Program.exec_succ (fuel : Nat) (worker : Option Nat) {r : Reply} (program : Program H r) :
    program.exec (fuel + 1) worker = match program.piece worker with
      | .ended outcome => .ended outcome
      | .attempt body next => (body.exec fuel worker).attempt.andThen fun outcome =>
          (next outcome).exec fuel worker
      | .asks routine next =>
          (routine.play fun {_} program => program.exec fuel worker).andThen fun a =>
            (next a).exec fuel worker := by
  cases program <;> rfl

/-- What all operations have in common holds of every routine that a program asks for. -/
theorem Routine.Compositional.piece {P : {α : Type} → Routine H α → Prop} (hP : Compositional P)
    {worker : Option Nat} {r : Reply} {program : Program H r} {routine : Routine H α}
    {next : α → Program H r} (hpiece : program.piece worker = .asks routine next) : P routine := by
  cases program with
  | finish | panic | attempt => cases hpiece
  | look next =>
      cases hpiece
      exact hP.view _
  | change state next =>
      cases hpiece
      exact hP.change fun w => ⟨.state w state, .of_eq rfl⟩
  | call request next =>
      cases hpiece
      exact hP.answer worker request
  | putWithCleanup s k datum cleanup next =>
      cases hpiece
      exact hP.put s k datum _
  | compute s k t factory next =>
      cases hpiece
      exact hP.compute s k t none (hP.run (by simp) factory)
  | computeCloseable s k t factory close next =>
      cases hpiece
      exact hP.compute s k t (some close) (hP.run (by simp) factory)
  | newExtension plan next =>
      cases hpiece
      exact hP.newExtension plan
  | invoke e request body next =>
      cases hpiece
      exact hP.invoke e request body
  | run e kind timeout body next =>
      cases hpiece
      exact hP.runWithTimeout e kind timeout body

/-- What is passed on by everything that programs are composed of. -/
structure Act.Compositional (P : {α : Type} → Act H α → Prop) : Prop where
  ended {α : Type} (outcome : Outcome α) : P (.ended outcome)
  forever {α : Type} : P (Act.forever : Act H α)
  andThen {α β : Type} {act : Act H α} {rest : α → Act H β} (hact : P act)
    (hrest : ∀ a, P (rest a)) : P (act.andThen rest)
  attempt {α : Type} {act : Act H α} (hact : P act) : P act.attempt
  play {α : Type} {routine : Routine H α} (hroutine : routine.Composed) {runner : Runner H}
    (hrunner : ∀ {r : Reply} (program : Program H r), P (runner program)) : P (routine.play @runner)

/-- What is passed on by composition holds of everything that programs do. -/
theorem Act.Compositional.exec {P : {α : Type} → Act H α → Prop} (hP : Act.Compositional P)
    (fuel : Nat) (worker : Option Nat) {r : Reply} (program : Program H r) :
    P (program.exec fuel worker) := by
  induction fuel generalizing r with
  | zero => exact hP.forever
  | succ fuel ih =>
      rw [Program.exec_succ]
      split
      · exact hP.ended _
      · next body next _ => exact hP.andThen (hP.attempt (ih body)) fun _ => ih _
      · next routine next hpiece =>
        exact hP.andThen (hP.play (Routine.compositional_composed.piece hpiece) ih) fun _ => ih _

theorem Act.compositional_quiet : Act.Compositional fun {_} (act : Act H _) => act.Quiet where
  ended _ := trivial
  forever := ⟨fun _ hover => by simp [Pause.isOver, Pause.endless] at hover, fun _ => trivial⟩
  andThen hact hrest := hact.andThen hrest
  attempt hact := hact.attempt
  play hroutine _ hrunner := hroutine.quiet.play hrunner

/-- Programs deliver no results themselves: that is what happens when the thread of a worker ends. -/
theorem Program.quiet_exec (fuel : Nat) (worker : Option Nat) {r : Reply} (program : Program H r) :
    (program.exec fuel worker).Quiet :=
  Act.compositional_quiet.exec fuel worker program

/-- Whatever programs do moves the world. -/
theorem Program.moves_exec (fuel : Nat) (worker : Option Nat) :
    Runner.Moves fun {_} (program : Program H _) => program.exec fuel worker := fun program =>
  (program.quiet_exec fuel worker).moves

/-- The world that a program leads to is reachable. -/
theorem Program.reachable_advance (fuel : Nat) (worker : Option Nat) {r : Reply}
    (program : Program H r) (state : H.State) :
    ((program.exec fuel worker).advance (World.initial state)).2.Reachable :=
  ⟨state, (Program.moves_exec fuel worker program).advance _⟩

end TimedInvocation
