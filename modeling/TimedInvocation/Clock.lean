import TimedInvocation.Routine

/-!
# Time, tokens and blocking

A token is a flag that is cancelled once. The clock moves only while every thread has to wait; an
alarm cancels its token when the clock reaches its time. Time that passes without blocking is not
measured.
-/

namespace TimedInvocation

namespace World

variable {H : Host}

def newToken (w : World H) : TokenId × World H :=
  (w.tokens.length, { w with tokens := w.tokens ++ [false] })

/-- The world with an alarm that cancels a token at a time. -/
def setAlarm (w : World H) (t : TokenId) (time : Nat) : World H :=
  { w with alarms := w.alarms ++ [⟨time, t⟩] }

/-- The world without the alarms that are still set for a token. -/
def clearAlarm (w : World H) (t : TokenId) : World H :=
  { w with alarms := w.alarms.filter fun alarm => alarm.token ≠ t }

/-- The world at a time, but not at an earlier one than its own. The alarms up to that time have
cancelled their tokens. -/
def moveTo (w : World H) (time : Nat) : World H :=
  let now := max w.clock time
  let (due, pending) := w.alarms.partition fun alarm => decide (alarm.time ≤ now)
  (due.map Alarm.token).foldl cancel { w with clock := now, alarms := pending }

end World

namespace Routine

variable {H : Host}

def newToken : Routine H TokenId :=
  update fun w => w.newToken

def cancel (t : TokenId) : Routine H Unit :=
  change fun w => w.cancel t

def isCancelled (t : TokenId) : Routine H Bool :=
  view fun w => w.isCancelled t

/-- Blocks until a condition holds, for a number of nanoseconds at most, and says whether it holds
then. -/
def await (condition : World H → Bool) (nanos : Nat) : Routine H Bool := do
  let start ← view World.clock
  viewAfter ⟨condition, some (start + nanos)⟩ condition

/-- Blocks until a token is cancelled, for a number of nanoseconds at most, and says whether it is
cancelled then. -/
def wait (t : TokenId) (nanos : Nat) : Routine H Bool :=
  await (fun w => w.isCancelled t) nanos

def sleep (nanos : Nat) : Routine H Unit := do
  let _ ← await (fun _ => false) nanos

def setAlarm (t : TokenId) (time : Nat) : Routine H Unit :=
  change fun w => w.setAlarm t time

/-- Clears the alarms that are still set for a token. -/
def clearAlarm (t : TokenId) : Routine H Unit :=
  change fun w => w.clearAlarm t

end Routine

end TimedInvocation
