import TimedInvocation.Text.Blank

/-!
# Modes

Whether timeouts apply at all, and on which thread a body under a timeout runs. Both are read from
words that may be surrounded by blanks, in any ASCII case, with `-` in place of `_`.
-/

namespace TimedInvocation

/-- The form in which the words of a mode are compared. -/
def normalizeWord (input : String) : String :=
  String.ofList ((Text.lowerAscii (Text.trim input)).toList.map fun c => if c = '-' then '_' else c)

/-- Whether timeouts are applied. -/
inductive TimeoutMode where
  | enabled
  | disabled
  | disabledOnDebug
  deriving DecidableEq

namespace TimeoutMode

/-- All modes, in the order in which they are listed to the user. -/
def all : List TimeoutMode :=
  [enabled, disabled, disabledOnDebug]

def word : TimeoutMode → String
  | enabled => "enabled"
  | disabled => "disabled"
  | disabledOnDebug => "disabled_on_debug"

def name : TimeoutMode → String
  | enabled => "Enabled"
  | disabled => "Disabled"
  | disabledOnDebug => "DisabledOnDebug"

/-- Reads a mode; none if the word is not known. -/
def read? (input : String) : Option TimeoutMode :=
  all.find? fun mode => mode.word = normalizeWord input

/-- The text of the error for a word that is not known. -/
def unknownMessage (input : String) : String :=
  "unrecognized value for timeout mode: " ++ input ++ "\n(known values: " ++
    ", ".intercalate (all.map word) ++ ")"

/-- Whether a mode turns timeouts off. The probe for a debugger is consulted in one mode only. -/
def isDisabled {σ : Type} (probe : σ → Bool × σ) (mode : TimeoutMode) (state : σ) : Bool × σ :=
  match mode with
  | enabled => (false, state)
  | disabled => (true, state)
  | disabledOnDebug => probe state

end TimeoutMode

/-- Where a body under a timeout runs. `inferred` leaves the choice to the configuration. -/
inductive ThreadMode where
  | inferred
  | sameThread
  | separateThread
  deriving DecidableEq

namespace ThreadMode

/-- All modes, in the order in which they are listed to the user. -/
def all : List ThreadMode :=
  [inferred, sameThread, separateThread]

/-- The word that selects the mode, which is also how it is shown. -/
def word : ThreadMode → String
  | inferred => "inferred"
  | sameThread => "same_thread"
  | separateThread => "separate_thread"

/-- Reads a mode; none if the word is not known. -/
def read? (input : String) : Option ThreadMode :=
  all.find? fun mode => mode.word = normalizeWord input

/-- The text of the error for a word that is not known. -/
def unknownMessage (input : String) : String :=
  "unrecognized value for timeout thread mode: " ++ input ++ "\n(known values: " ++
    ", ".intercalate (all.map word) ++ ")"

end ThreadMode

end TimedInvocation
