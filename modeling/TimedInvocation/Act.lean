import TimedInvocation.World

/-!
# Acts

An act is what a thread does in the world: a sequence of steps, each of which happens without
interruption, and an end by returning or by a panic. A step may have to wait first. Between two steps
other threads may change the world, so what an act does next depends on the world that its next step
finds.
-/

namespace TimedInvocation

/-- What a step waits for: a condition, and a time after which it goes on without it. -/
structure Pause (H : Host) where
  condition : World H → Bool
  deadline : Option Nat

namespace Pause

variable {H : Host}

def none : Pause H :=
  ⟨fun _ => true, .none⟩

def endless : Pause H :=
  ⟨fun _ => false, .none⟩

def isOver (pause : Pause H) (w : World H) : Bool :=
  pause.condition w || pause.deadline.any fun time => decide (time ≤ w.clock)

end Pause

/-- What a thread does: nothing more, or a step and what comes after it. A step changes the world it
finds once its wait is over, and the world it found decides how the act goes on. -/
inductive Act (H : Host) (α : Type) : Type where
  | ended (outcome : Outcome α)
  | step (pause : Pause H) (change : World H → World H) (next : World H → Act H α)

namespace Act

variable {H : Host} {α β : Type}

/-- Two acts after each other. A panic of the first one is passed on. -/
def andThen : Act H α → (α → Act H β) → Act H β
  | ended (.returned a), rest => rest a
  | ended (.panicked payload), _ => ended (.panicked payload)
  | step pause change next, rest => step pause change fun w => (next w).andThen rest

instance : Monad (Act H) where
  pure a := ended (.returned a)
  bind := andThen

def panic (payload : Panic) : Act H α :=
  ended (.panicked payload)

def forever : Act H α :=
  step .endless id fun _ => panic .other

def attempt : Act H α → Act H (Outcome α)
  | ended outcome => pure outcome
  | step pause change next => step pause change fun w => (next w).attempt

def view (f : World H → α) : Act H α :=
  step .none id fun w => pure (f w)

def change (f : World H → World H) : Act H Unit :=
  step .none f fun _ => pure ()

def isReady : Act H α → World H → Bool
  | ended _, _ => false
  | step pause _ _, w => pause.isOver w

/-- The time up to which the next step of an act waits at most. -/
def deadline? : Act H α → Option Nat
  | ended _ => none
  | step pause _ _ => pause.deadline

/-- Takes the steps of an act up to its end or to one that has to wait: what is left of it, and the
world. -/
def advance : Act H α → World H → Act H α × World H
  | ended outcome, w => (ended outcome, w)
  | step pause change next, w =>
    if pause.isOver w then (next w).advance (change w) else (step pause change next, w)

end Act

end TimedInvocation
