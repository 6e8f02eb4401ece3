import TimedInvocation.Duration.Basic
import TimedInvocation.Text.Blank
import TimedInvocation.Text.Digits

/-!
# Reading a timeout

A written timeout is a magnitude without a leading zero, at most one space and the token of a unit,
with blank characters allowed around it. Letters match without regard to case. The match folds case
as Unicode does, so it also admits the long s; the unit is then looked up in lower case, where the
long s stands for itself and names no unit. The magnitude is checked in between, so a magnitude that
is too large is reported before a unit that is none.
-/

namespace TimedInvocation

/-- Why a text is not a timeout. Both causes keep the text as it was given. -/
inductive DurationError where
  | invalidFormat (input : String)
  | overflow (input : String)
  deriving DecidableEq

namespace DurationError

def code : DurationError → String
  | invalidFormat _ => "invalid-format"
  | overflow _ => "overflow"

def message : DurationError → String
  | invalidFormat input =>
      "invalid timeout duration `" ++ input ++
        "`: expected a positive integer followed by a unit (ns, μs, ms, s, m, h, d)"
  | overflow input => "invalid timeout duration `" ++ input ++ "`: magnitude is too large"

end DurationError

namespace TimeUnit

/-- The common form of the letters that are equal up to case, as far as they occur in tokens: the
long s counts as `s`, the micro sign and the capital mu as U+03BC. -/
def foldLetter (c : Char) : Char :=
  if c = 'ſ' then 's'
  else if c = 'µ' ∨ c = 'Μ' then 'μ'
  else c.toLower

/-- The lower case of a letter of a token. The long s and the micro sign are lower case already. -/
def lowerLetter (c : Char) : Char :=
  if c = 'Μ' then 'μ' else c.toLower

def admits (token : List Char) : Bool :=
  (["ns", "μs", "us", "ms", "s", "m", "h", "d"].map String.toList).contains
    (token.map foldLetter)

/-- The unit that a token names once its letters are in lower case. -/
def ofToken? (token : List Char) : Option TimeUnit :=
  match String.ofList (token.map lowerLetter) with
  | "ns" => some nanoseconds
  | "μs" => some microseconds
  | "µs" => some microseconds
  | "us" => some microseconds
  | "ms" => some milliseconds
  | "s" => some seconds
  | "m" => some minutes
  | "h" => some hours
  | "d" => some days
  | _ => none

end TimeUnit

namespace Duration

/-- The digits and the token of a text of the right shape, already trimmed. -/
def split? (s : List Char) : Option (List Char × List Char) :=
  let digits := s.takeWhile Char.isDigit
  let rest := s.dropWhile Char.isDigit
  let token := match rest with
    | ' ' :: token => token
    | token => token
  match digits with
  | [] => none
  | '0' :: _ => none
  | _ => if TimeUnit.admits token then some (digits, token) else none

def read (input : String) : Except DurationError Duration :=
  match split? (Text.trimChars input.toList) with
  | none => .error (.invalidFormat input)
  | some (digits, token) =>
    let magnitude := Text.ofDigits 10 digits
    if wordCount ≤ magnitude then .error (.overflow input)
    else
      match TimeUnit.ofToken? token with
      | none => .error (.invalidFormat input)
      | some unit =>
        match new? magnitude unit with
        | none => .error (.invalidFormat input)
        | some d => .ok d

end Duration

end TimedInvocation
