import TimedInvocation.Number.Word

/-!
# Timeout durations

A timeout is a positive magnitude of one of seven units. It is shown in words (`10 seconds`) and
converted to a span of seconds and nanoseconds; a span too long for 64-bit seconds is cut off at the
longest whole number of seconds instead of wrapping around.
-/

namespace TimedInvocation

/-- The units of a timeout, from the shortest to the longest. -/
inductive TimeUnit where
  | nanoseconds
  | microseconds
  | milliseconds
  | seconds
  | minutes
  | hours
  | days
  deriving DecidableEq

namespace TimeUnit

/-- The token that stands for the unit in a written timeout. The letter of `μs` is U+03BC. -/
def token : TimeUnit → String
  | nanoseconds => "ns"
  | microseconds => "μs"
  | milliseconds => "ms"
  | seconds => "s"
  | minutes => "m"
  | hours => "h"
  | days => "d"

def singular : TimeUnit → String
  | nanoseconds => "nanosecond"
  | microseconds => "microsecond"
  | milliseconds => "millisecond"
  | seconds => "second"
  | minutes => "minute"
  | hours => "hour"
  | days => "day"

def nanos : TimeUnit → Nat
  | nanoseconds => 1
  | microseconds => 1000
  | milliseconds => 1000000
  | seconds => 1000000000
  | minutes => 60 * 1000000000
  | hours => 60 * 60 * 1000000000
  | days => 24 * 60 * 60 * 1000000000

end TimeUnit

/-- A span of time as whole seconds and the nanoseconds beyond them. -/
structure Span where
  secs : Nat
  nanos : Nat
  deriving DecidableEq

namespace Span

def toNanos (span : Span) : Nat :=
  span.secs * 1000000000 + span.nanos

def ofNanos (n : Nat) : Span :=
  ⟨n / 1000000000, n % 1000000000⟩

/-- The longest number of seconds that a span holds. -/
def maxSecs : Nat := wordCount - 1

def ofMillis (n : Nat) : Span :=
  .ofNanos (n * 1000000)

/-- The span of a number of seconds, cut off at the longest one. -/
def ofSecs (n : Nat) : Span :=
  ⟨min n maxSecs, 0⟩

end Span

/-- A positive number of units, which fits into 64 bits. -/
structure Duration where
  magnitude : Nat
  unit : TimeUnit
  magnitude_pos : 0 < magnitude
  magnitude_lt : magnitude < wordCount
  deriving DecidableEq

namespace Duration

/-- The duration of a magnitude and a unit, if the magnitude is positive and fits into 64 bits. -/
def new? (magnitude : Nat) (unit : TimeUnit) : Option Duration :=
  if h : 0 < magnitude ∧ magnitude < wordCount then some ⟨magnitude, unit, h.1, h.2⟩ else none

/-- The magnitude and the name of the unit, which is plural unless the magnitude is one. -/
def describe (d : Duration) : String :=
  toString d.magnitude ++ " " ++ d.unit.singular ++ (if d.magnitude = 1 then "" else "s")

/-- The span of a duration. Units below a second are split, units above it are multiplied out and
cut off at the longest span. -/
def toSpan (d : Duration) : Span :=
  match d.unit with
  | .nanoseconds => ⟨d.magnitude / 1000000000, d.magnitude % 1000000000⟩
  | .microseconds => ⟨d.magnitude / 1000000, d.magnitude % 1000000 * 1000⟩
  | .milliseconds => ⟨d.magnitude / 1000, d.magnitude % 1000 * 1000000⟩
  | .seconds => .ofSecs d.magnitude
  | .minutes => .ofSecs (d.magnitude * 60)
  | .hours => .ofSecs (d.magnitude * (60 * 60))
  | .days => .ofSecs (d.magnitude * (24 * 60 * 60))

end Duration

end TimedInvocation
