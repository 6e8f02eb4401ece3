import TimedInvocation.Duration.Reader
import TimedInvocation.Kind
import TimedInvocation.Log.Event
import TimedInvocation.Mode

/-!
# The timeout configuration

The settings for timeouts, read from a source of parameters when they are first needed and kept from
then on. The mode is read when the configuration is made. A value that cannot be read is warned about
once and counts as missing.
-/

namespace TimedInvocation

/-- A timeout given with an invocation. Without a thread mode of its own it is `inferred`. -/
structure DeclaredTimeout where
  duration : Duration
  threadMode : ThreadMode
  deriving DecidableEq

/-- The timeout that an invocation runs under. -/
structure EffectiveTimeout where
  duration : Duration
  threadMode : ThreadMode
  deriving DecidableEq

/-- The settings of one source: whether timeouts are disabled, and what has been read so far. -/
structure TimeoutConfiguration (S : Type) where
  source : S
  disabled : Bool
  durations : List (Property × Option Duration)
  threadMode : Option (Option ThreadMode)

/-- A configuration in use, with the state that its source depends on and the log, newest first. -/
structure Consultation (S σ : Type) where
  config : TimeoutConfiguration S
  state : σ
  log : List Event

namespace TimeoutConfiguration

variable {S σ : Type}

def warning (property : Property) (message : String) : Event :=
  ⟨.warn, .timeoutConfiguration, message, [⟨"property", .text property.name⟩]⟩

/-- The mode that a value selects, and the warning if it selects none. -/
def modeOfValue : Option String → TimeoutMode × List Event
  | none => (.enabled, [])
  | some value =>
    match TimeoutMode.read? value with
    | some mode => (mode, [])
    | none =>
        (.enabled,
          [warning .mode ("ignoring invalid timeout mode: " ++ TimeoutMode.unknownMessage value)])

def modeEvent (mode : TimeoutMode) (disabled : Bool) : Event :=
  ⟨.debug, .timeoutConfiguration, "read timeout mode",
    [⟨"mode", .shown mode.name⟩, ⟨"timeout_disabled", .shown (toString disabled)⟩]⟩

/-- A configuration for a source, of which nothing but the mode has been read. -/
def new (read : S → String → σ → Option String × σ) (probe : σ → Bool × σ) (source : S)
    (state : σ) (log : List Event) : Consultation S σ :=
  let (value, state) := read source Property.mode.name state
  let (mode, warnings) := modeOfValue value
  let (disabled, state) := mode.isDisabled probe state
  ⟨⟨source, disabled, [], none⟩, state, modeEvent mode disabled :: (warnings ++ log)⟩

/-- The duration that a value writes, and the warning if it writes none. -/
def durationOfValue (property : Property) : Option String → Option Duration × List Event
  | none => (none, [])
  | some value =>
    match Duration.read value with
    | .ok d => (some d, [])
    | .error e => (none, [warning property ("ignoring invalid timeout: " ++ e.message)])

/-- The default thread mode that a value selects, and the warning if it selects none. -/
def threadModeOfValue : Option String → Option ThreadMode × List Event
  | none => (none, [])
  | some value =>
    match ThreadMode.read? value with
    | some .inferred =>
        (none,
          [warning .threadMode "`inferred` is not a valid default thread mode, ignoring it"])
    | some mode => (some mode, [])
    | none =>
        (none,
          [warning .threadMode ("ignoring invalid thread mode: " ++ ThreadMode.unknownMessage value)])

end TimeoutConfiguration

namespace Consultation

variable {S σ : Type}

/-- The value of a property, read from the source. -/
def ask (read : S → String → σ → Option String × σ) (property : Property) (c : Consultation S σ) :
    Option String × Consultation S σ :=
  let (value, state) := read c.config.source property.name c.state
  (value, { c with state := state })

/-- The duration of one property, read once and kept. -/
def duration (read : S → String → σ → Option String × σ) (property : Property)
    (c : Consultation S σ) : Option Duration × Consultation S σ :=
  match c.config.durations.lookup property with
  | some known => (known, c)
  | none =>
    let (value, c) := c.ask read property
    let (duration, warnings) := TimeoutConfiguration.durationOfValue property value
    (duration, { c with
      config := { c.config with durations := c.config.durations ++ [(property, duration)] }
      log := warnings ++ c.log })

/-- The duration of the first of several properties that has one. -/
def firstDuration (read : S → String → σ → Option String × σ) :
    List Property → Consultation S σ → Option Duration × Consultation S σ
  | [], c => (none, c)
  | property :: rest, c =>
    match c.duration read property with
    | (some d, c) => (some d, c)
    | (none, c) => firstDuration read rest c

/-- The configured duration for a kind of invocation. -/
def timeoutFor (read : S → String → σ → Option String × σ) (kind : Kind) (c : Consultation S σ) :
    Option Duration × Consultation S σ :=
  firstDuration read kind.properties c

/-- The configured thread mode, read once and kept. -/
def defaultThreadMode (read : S → String → σ → Option String × σ) (c : Consultation S σ) :
    Option ThreadMode × Consultation S σ :=
  match c.config.threadMode with
  | some known => (known, c)
  | none =>
    let (value, c) := c.ask read .threadMode
    let (mode, warnings) := TimeoutConfiguration.threadModeOfValue value
    (mode, { c with
      config := { c.config with threadMode := some mode }
      log := warnings ++ c.log })

/-- The thread mode to run in: the declared one unless it is `inferred`, then the configured one,
then the caller's thread. -/
def chooseThreadMode (read : S → String → σ → Option String × σ) (declared : ThreadMode)
    (c : Consultation S σ) : ThreadMode × Consultation S σ :=
  match declared with
  | .inferred =>
    let (mode, c) := c.defaultThreadMode read
    (mode.getD .sameThread, c)
  | mode => (mode, c)

/-- The timeout to run under. A declared one leaves the configured durations unread. -/
def resolve (read : S → String → σ → Option String × σ) (kind : Kind)
    (declared : Option DeclaredTimeout) (c : Consultation S σ) :
    Option EffectiveTimeout × Consultation S σ :=
  match declared with
  | some declared =>
    let (mode, c) := c.chooseThreadMode read declared.threadMode
    (some ⟨declared.duration, mode⟩, c)
  | none =>
    match c.timeoutFor read kind with
    | (none, c) => (none, c)
    | (some duration, c) =>
      let (mode, c) := c.chooseThreadMode read .inferred
      (some ⟨duration, mode⟩, c)

end Consultation

end TimedInvocation
