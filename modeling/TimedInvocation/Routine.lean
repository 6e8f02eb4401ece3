import TimedInvocation.Act

/-!
# Routines

A routine is what an operation of the library does: steps of its own, and calls of user code, of which
it gets to know how they ended. What the user code does in the meantime is not a part of the routine; a
runner adds it when the routine is played as the act of a thread.
-/

namespace TimedInvocation

/-- What an operation does: nothing more, a step and what comes after it, or a call of user code and
what comes after that has ended. -/
inductive Routine (H : Host) (α : Type) : Type where
  | ended (outcome : Outcome α)
  | step (pause : Pause H) (change : World H → World H) (next : World H → Routine H α)
  | call {r : Reply} (program : Program H r) (next : Outcome (r.Carrier H) → Routine H α)

/-- How programs are run. -/
abbrev Runner (H : Host) : Type :=
  ∀ {r : Reply}, Program H r → Act H (r.Carrier H)

namespace Routine

variable {H : Host} {α β : Type}

/-- Two routines after each other. A panic of the first one is passed on. -/
def andThen : Routine H α → (α → Routine H β) → Routine H β
  | ended (.returned a), rest => rest a
  | ended (.panicked payload), _ => ended (.panicked payload)
  | step pause change next, rest => step pause change fun w => (next w).andThen rest
  | call program next, rest => call program fun outcome => (next outcome).andThen rest

instance : Monad (Routine H) where
  pure a := ended (.returned a)
  bind := andThen

def panic (payload : Panic) : Routine H α :=
  ended (.panicked payload)

def ofOutcome (outcome : Outcome α) : Routine H α :=
  ended outcome

def attempt : Routine H α → Routine H (Outcome α)
  | ended outcome => pure outcome
  | step pause change next => step pause change fun w => (next w).attempt
  | call program next => call program fun outcome => (next outcome).attempt

def run {r : Reply} (program : Program H r) : Routine H (r.Carrier H) :=
  call program ended

def view (f : World H → α) : Routine H α :=
  step .none id fun w => pure (f w)

def change (f : World H → World H) : Routine H Unit :=
  step .none f fun _ => pure ()

def update (f : World H → α × World H) : Routine H α :=
  step .none (fun w => (f w).2) fun w => pure (f w).1

/-- The answer of a look at the world, once a wait is over. -/
def viewAfter (pause : Pause H) (f : World H → α) : Routine H α :=
  step pause id fun w => pure (f w)

/-- A change of the world that gives an answer, once a wait is over. -/
def updateAfter (pause : Pause H) (f : World H → α × World H) : Routine H α :=
  step pause (fun w => (f w).2) fun w => pure (f w).1

def log (e : Event) : Routine H Unit :=
  change fun w => w.logged e

def record (o : Occurrence) : Routine H Unit :=
  change fun w => w.recorded o

def allocate (datum : Datum) : Routine H Value :=
  update fun w => w.allocate datum

/-- What a thread does that plays a routine, with a runner for the user code. -/
def play (runner : Runner H) : Routine H α → Act H α
  | ended outcome => .ended outcome
  | step pause change next => .step pause change fun w => (next w).play runner
  | call program next =>
    (runner program).attempt.andThen fun outcome => (next outcome).play runner

end Routine

end TimedInvocation
