import TimedInvocation.Invocation

/-!
# What the library logs

The events of the library, with what each of them is about, and what they add to the log. Apart from the
moves that log a notice as such, only making a configuration and asking it log something; everything else
leaves the log as it is.
-/

namespace TimedInvocation

variable {H : Host} {α : Type}

/-- Something that the library logs. -/
inductive Notice (H : Host) where
  | modeRead (mode : TimeoutMode) (disabled : Bool)
  | unknownMode (value : String)
  | unknownThreadMode (value : String)
  | inferredThreadMode
  | badDuration (property : Property) (error : DurationError)
  | closingStore (entries : Nat)
  | lateCleanup (error : CleanupError)
  | closingScope (uniqueId : String)
  | resolved (context : ParameterContext) (resolver : Extension (Program H)) (value : Option Value)
  | furtherAfterEach (scope : String) (extension : Extension (Program H)) (error : InvocationError)
  | hiddenAfterEach (scope : String) (error : InvocationError)
  | finished (scope : String) (kind : Kind) (executable : Executable) (duration : Span)
      (outcome : InvocationOutcome H.Result)
  | untimed (kind : Kind)
  | timed (kind : Kind) (timeout : EffectiveTimeout)
  | overran (kind : Kind) (elapsed : Nat)
  | stopped (kind : Kind) (worker : Nat)
  | abandoned (kind : Kind) (worker elapsed : Nat)
  | signalled (signal : ShutdownSignal)

namespace Notice

/-- The event that is logged. -/
def event : Notice H → Event
  | modeRead mode disabled => TimeoutConfiguration.modeEvent mode disabled
  | unknownMode value => TimeoutConfiguration.warning .mode
      ("ignoring invalid timeout mode: " ++ TimeoutMode.unknownMessage value)
  | unknownThreadMode value => TimeoutConfiguration.warning .threadMode
      ("ignoring invalid thread mode: " ++ ThreadMode.unknownMessage value)
  | inferredThreadMode => TimeoutConfiguration.warning .threadMode
      "`inferred` is not a valid default thread mode, ignoring it"
  | badDuration property error => TimeoutConfiguration.warning property
      ("ignoring invalid timeout: " ++ error.message)
  | closingStore entries =>
      ⟨.debug, .store, "closing context store", [⟨"entries", .shown (toString entries)⟩]⟩
  | lateCleanup error => Routine.lateCleanupEvent error
  | closingScope uniqueId =>
      ⟨.debug, .scope, "closing execution scope", [⟨"scope", .shown uniqueId⟩]⟩
  | resolved context resolver value => context.resolvedEvent resolver.describe value
  | furtherAfterEach scope extension error =>
      ⟨.warn, .invoker, "additional after-each failure",
        [⟨"scope", .text scope⟩, ⟨"extension", .shown extension.describe⟩,
          ⟨"error", .shown error.message⟩]⟩
  | hiddenAfterEach scope error =>
      ⟨.warn, .invoker, "after-each callback failed after the invocation had already failed",
        [⟨"scope", .text scope⟩, ⟨"error", .shown error.message⟩]⟩
  | finished scope kind executable duration outcome =>
      Routine.finishedEvent scope ⟨kind, executable.signature, duration, outcome⟩
  | untimed kind => ⟨.debug, .enforcer, "running without a timeout", [kindField kind]⟩
  | timed kind timeout =>
      ⟨.debug, .enforcer, "running with a timeout",
        [kindField kind, ⟨"duration", .shown timeout.duration.describe⟩,
          ⟨"thread_mode", .shown timeout.threadMode.word⟩]⟩
  | overran kind elapsed =>
      ⟨.debug, .enforcer, "same-thread invocation overran its deadline",
        [kindField kind, elapsedField elapsed]⟩
  | stopped kind worker =>
      ⟨.debug, .enforcer, "stop requested, abandoning timeout worker",
        [kindField kind, workerField worker]⟩
  | abandoned kind worker elapsed =>
      ⟨.debug, .enforcer, "deadline elapsed, abandoning timeout worker",
        [kindField kind, workerField worker, elapsedField elapsed]⟩
  | signalled signal =>
      ⟨.info, .signals, "received shutdown signal, stopping invocations",
        [⟨"event", .shown signal.name⟩]⟩

end Notice

/-- A longer log: all that was added to it are notices. -/
def Reported (H : Host) (log log' : List Event) : Prop :=
  ∃ notices : List (Notice H), log' = notices.map Notice.event ++ log

namespace Reported

variable {log log₁ log₂ : List Event}

theorem refl : Reported H log log :=
  ⟨[], rfl⟩

theorem trans (hfirst : Reported H log log₁) (hsecond : Reported H log₁ log₂) : Reported H log log₂ := by
  obtain ⟨early, rfl⟩ := hfirst
  obtain ⟨late, rfl⟩ := hsecond
  exact ⟨late ++ early, by simp⟩

theorem single (n : Notice H) : Reported H log (n.event :: log) :=
  ⟨[n], rfl⟩

end Reported

namespace TimeoutConfiguration

theorem reported_modeOfValue (value : Option String) (log : List Event) :
    Reported H log ((modeOfValue value).2 ++ log) := by
  unfold modeOfValue
  split
  · exact .refl
  · split
    · exact .refl
    · exact .single (.unknownMode _)

theorem reported_durationOfValue (property : Property) (value : Option String) (log : List Event) :
    Reported H log ((durationOfValue property value).2 ++ log) := by
  unfold durationOfValue
  split
  · exact .refl
  · split
    · exact .refl
    · exact .single (.badDuration property _)

theorem reported_threadModeOfValue (value : Option String) (log : List Event) :
    Reported H log ((threadModeOfValue value).2 ++ log) := by
  unfold threadModeOfValue
  split
  · exact .refl
  · split
    · exact .single .inferredThreadMode
    · exact .refl
    · exact .single (.unknownThreadMode _)

end TimeoutConfiguration

namespace Consultation

variable {S σ : Type} {read : S → String → σ → Option String × σ}

theorem reported_duration (property : Property) (c : Consultation S σ) :
    Reported H c.log (c.duration read property).2.log := by
  unfold duration
  split
  · exact .refl
  · exact TimeoutConfiguration.reported_durationOfValue property _ _

theorem reported_firstDuration (properties : List Property) (c : Consultation S σ) :
    Reported H c.log (firstDuration read properties c).2.log := by
  induction properties generalizing c with
  | nil => exact .refl
  | cons property rest ih =>
      have hfirst : Reported H c.log (c.duration read property).2.log := reported_duration property c
      unfold firstDuration
      split
      · next hfound => rwa [hfound] at hfirst
      · next hfound =>
          rw [hfound] at hfirst
          exact hfirst.trans (ih _)

theorem reported_defaultThreadMode (c : Consultation S σ) :
    Reported H c.log (c.defaultThreadMode read).2.log := by
  unfold defaultThreadMode
  split
  · exact .refl
  · exact TimeoutConfiguration.reported_threadModeOfValue _ _

theorem reported_chooseThreadMode (declared : ThreadMode) (c : Consultation S σ) :
    Reported H c.log (c.chooseThreadMode read declared).2.log := by
  unfold chooseThreadMode
  split
  · exact reported_defaultThreadMode c
  · exact .refl

theorem reported_resolve (kind : Kind) (declared : Option DeclaredTimeout) (c : Consultation S σ) :
    Reported H c.log (c.resolve read kind declared).2.log := by
  unfold resolve
  split
  · exact reported_chooseThreadMode _ c
  · have hfirst : Reported H c.log (c.timeoutFor read kind).2.log := reported_firstDuration _ c
    split
    · next hfound => rwa [hfound] at hfirst
    · next hfound =>
        rw [hfound] at hfirst
        exact hfirst.trans (reported_chooseThreadMode _ _)

end Consultation

namespace World

/-- What is logged from one world to another are notices. -/
def Reports (w w' : World H) : Prop :=
  Reported H w.log w'.log

theorem Reports.of_eq {w w' : World H} (hlog : w'.log = w.log) : w.Reports w' := by
  rw [Reports, hlog]
  exact .refl

theorem reports_consult (w : World H) (c : ConfigurationId) (default : α)
    {f : Consultation H.Source H.State → α × Consultation H.Source H.State}
    (hf : ∀ used, Reported H used.log (f used).2.log) : w.Reports (w.consult c default f).2 := by
  unfold consult
  split
  · exact .of_eq rfl
  · exact hf _

theorem reports_newConfiguration (w : World H) (source : H.Source) (probe : H.State → Bool × H.State) :
    w.Reports (w.newConfiguration source probe).2 :=
  (TimeoutConfiguration.reported_modeOfValue _ w.log).trans (.single (.modeRead _ _))

theorem reports_newScope (w : World H) (place : ScopePlace H.Source) (displayName : Option String)
    (extensions : List ExtensionId) : w.Reports (w.newScope place displayName extensions).2 := by
  cases place with
  | root uniqueId source => exact .of_eq rfl
  | child parent segment =>
      simp only [newScope]
      split <;> exact .of_eq rfl

theorem log_put (w : World H) (s : StoreId) (k : Key) (datum : Datum)
    (cleanup : Option (Value → Program H .done)) : (w.put s k datum cleanup).2.log = w.log := by
  simp only [put]
  split <;> rfl

theorem log_beginClose (w : World H) (s : StoreId) : (w.beginClose s).2.log = w.log := by
  unfold beginClose
  split <;> rfl

theorem log_remove (w : World H) (s : StoreId) (k : Key) (t : Ty) : (w.remove s k t).2.log = w.log := by
  simp only [remove]
  split <;> rfl

theorem log_parameter (w : World H) (s : ScopeId) (name : String) :
    (w.parameter s name).2.log = w.log := by
  simp only [parameter]
  split <;> rfl

theorem reports_foldl_cancel (tokens : List TokenId) (w : World H) : w.Reports (tokens.foldl cancel w) := by
  induction tokens generalizing w with
  | nil => exact .refl
  | cons t rest ih => exact ih (w.cancel t)

theorem reports_moveTo (w : World H) (time : Nat) : w.Reports (w.moveTo time) :=
  reports_foldl_cancel _ _

end World

end TimedInvocation
