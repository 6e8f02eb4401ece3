import TimedInvocation.Proofs.Composition

/-!
# Tales

The act that a program is run as does not tell where one piece of user code calls another: whatever is called
adds its steps to those of its caller. The tale of a program is that act, with a note wherever user code is
called. Without the notes a tale is the act again, so each run of the act can be told, and whatever is told is
a run of the act.
-/

namespace TimedInvocation

open Relation

variable {H : Host} {α β : Type}

/-- What a thread does without being interrupted: the world that it finds and the world that it leaves. -/
structure Section (H : Host) where
  found : World H
  left : World H

/-- The beginning of a call of user code: what the calling thread did right before it, if anything, what it
calls, and the world in which the call begins. -/
structure CallStart (H : Host) where
  last : Option (Section H)
  code : (r : Reply) × Program H r
  start : World H

/-- What is told of a thread: its sections and its calls of user code. -/
inductive Note (H : Host) where
  | made (x : Section H)
  | called (c : CallStart H)

/-- What a thread does, with its calls of user code. -/
inductive Tale (H : Host) (α : Type) where
  | ended (outcome : Outcome α)
  | step (pause : Pause H) (change : World H → World H) (next : World H → Tale H α)
  | enters (code : (r : Reply) × Program H r) (next : Tale H α)

namespace Tale

/-- Two tales after each other. A panic of the first one is passed on. -/
def andThen : Tale H α → (α → Tale H β) → Tale H β
  | ended (.returned a), rest => rest a
  | ended (.panicked payload), _ => ended (.panicked payload)
  | step pause change next, rest => step pause change fun w => (next w).andThen rest
  | enters code next, rest => enters code (next.andThen rest)

def attempt : Tale H α → Tale H (Outcome α)
  | ended outcome => ended (.returned outcome)
  | step pause change next => step pause change fun w => (next w).attempt
  | enters code next => enters code next.attempt

def forever : Tale H α :=
  step .endless id fun _ => ended (.panicked .other)

/-- What the thread does, without its calls. -/
def act : Tale H α → Act H α
  | ended outcome => .ended outcome
  | step pause change next => .step pause change fun w => (next w).act
  | enters _ next => next.act

theorem act_andThen (tale : Tale H α) (rest : α → Tale H β) :
    (tale.andThen rest).act = tale.act.andThen fun a => (rest a).act := by
  induction tale with
  | ended outcome => cases outcome <;> rfl
  | step pause change next ih =>
      simp only [andThen, act, Act.andThen]
      congr 1
      funext w
      exact ih w
  | enters code next ih => exact ih

theorem act_attempt (tale : Tale H α) : tale.attempt.act = tale.act.attempt := by
  induction tale with
  | ended outcome => rfl
  | step pause change next ih =>
      simp only [attempt, act, Act.attempt]
      congr 1
      funext w
      exact ih w
  | enters code next ih => exact ih

end Tale

/-- The tale of a routine, with one for each program that it calls. -/
def Routine.tell (sub : {r : Reply} → Program H r → Tale H (r.Carrier H)) : Routine H α → Tale H α
  | .ended outcome => .ended outcome
  | .step pause change next => .step pause change fun w => (next w).tell sub
  | @Routine.call _ _ r program next =>
      .enters ⟨r, program⟩ ((sub program).attempt.andThen fun outcome => (next outcome).tell sub)

theorem Routine.act_tell {sub : {r : Reply} → Program H r → Tale H (r.Carrier H)} {runner : Runner H}
    (hsub : ∀ {r : Reply} (program : Program H r), (sub program).act = runner program)
    (routine : Routine H α) : (routine.tell sub).act = routine.play @runner := by
  induction routine with
  | ended outcome => rfl
  | step pause change next ih =>
      simp only [tell, play, Tale.act]
      congr 1
      funext w
      exact ih w
  | call program next ih =>
      simp only [tell, play, Tale.act, Tale.act_andThen, Tale.act_attempt, hsub]
      congr 1
      funext outcome
      exact ih outcome

/-- The tale of a program, piece by piece. -/
def Program.tale : Nat → Option Nat → {r : Reply} → Program H r → Tale H (r.Carrier H)
  | 0, _, _, _ => .forever
  | fuel + 1, worker, _, program => match program.piece worker with
    | .ended outcome => .ended outcome
    | .attempt body next => (tale fuel worker body).attempt.andThen fun outcome =>
        tale fuel worker (next outcome)
    | .asks routine next =>
        (routine.tell fun {_} program => tale fuel worker program).andThen fun a =>
          tale fuel worker (next a)

/-- Without its notes, the tale of a program is the act that the program is run as. -/
theorem Program.act_tale (fuel : Nat) (worker : Option Nat) {r : Reply} (program : Program H r) :
    (program.tale fuel worker).act = program.exec fuel worker := by
  induction fuel generalizing r with
  | zero => rfl
  | succ fuel ih =>
      rw [exec_succ, tale]
      cases program.piece worker with
      | ended outcome => rfl
      | attempt body next => simp only [Tale.act_andThen, Tale.act_attempt, ih]
      | asks routine next => simp only [Tale.act_andThen, Routine.act_tell ih, ih]

/-- A thread that has just made a section, or has done nothing yet, starts in a world and gets to a world. The
notes are those of what it did on the way, and its outcome is told if it has ended there. Before each of its
sections, each of its calls and after the last of them, others may change the world. -/
inductive Tale.Goes (others : World H → World H → Prop) :
    Tale H α → Option (Section H) → World H → List (Note H) → Option (Outcome α) → World H → Prop where
  | here {tale : Tale H α} {last : Option (Section H)} {w w' : World H}
      (hwait : ReflTransGen others w w') : Goes others tale last w [] none w'
  | ended {outcome : Outcome α} {last : Option (Section H)} {w w' : World H}
      (hwait : ReflTransGen others w w') : Goes others (.ended outcome) last w [] (some outcome) w'
  | step {pause : Pause H} {change : World H → World H} {next : World H → Tale H α}
      {last : Option (Section H)} {w w₁ w' : World H} {notes : List (Note H)}
      {ending : Option (Outcome α)} (hwait : ReflTransGen others w w₁) (hover : pause.isOver w₁ = true)
      (hrest : Goes others (next w₁) (some ⟨w₁, change w₁⟩) (change w₁) notes ending w') :
      Goes others (.step pause change next) last w (.made ⟨w₁, change w₁⟩ :: notes) ending w'
  | enters {code : (r : Reply) × Program H r} {next : Tale H α} {last : Option (Section H)}
      {w w₁ w' : World H} {notes : List (Note H)} {ending : Option (Outcome α)}
      (hwait : ReflTransGen others w w₁) (hrest : Goes others next none w₁ notes ending w') :
      Goes others (.enters code next) last w (.called ⟨last, code, w₁⟩ :: notes) ending w'

namespace Tale

variable {others : World H → World H → Prop} {tale : Tale H α} {last : Option (Section H)}
  {w w₁ w' : World H} {notes : List (Note H)} {ending : Option (Outcome α)} {outcome : Outcome α}

/-- What is told is a run of the act, up to its end or up to a world on the way. -/
theorem Goes.visits (hgoes : tale.Goes others last w notes ending w') :
    tale.act.Visits others w w' := by
  induction hgoes with
  | here hwait => exact .here hwait
  | ended hwait => exact .here hwait
  | step hwait hover _ ih => exact .step hwait hover ih
  | enters hwait _ ih => exact ih.wait hwait

theorem Goes.ends (hgoes : tale.Goes others last w notes (some outcome) w') :
    tale.act.Ends others w outcome w' := by
  generalize hending : some outcome = ending at hgoes
  induction hgoes with
  | here hwait => cases hending
  | ended hwait =>
      cases hending
      exact .ended hwait
  | step hwait hover _ ih => exact .step hwait hover (ih hending)
  | enters hwait _ ih => exact (ih hending).wait hwait

/-- Each run of the act up to its end can be told. -/
theorem goes_of_ends (hends : tale.act.Ends others w outcome w') :
    ∃ notes, tale.Goes others last w notes (some outcome) w' := by
  induction tale generalizing last w with
  | ended outcome' =>
      cases hends with
      | ended hwait => exact ⟨[], .ended hwait⟩
  | step pause change next ih =>
      cases hends with
      | step hwait hover hrest =>
          obtain ⟨notes, hgoes⟩ := ih _ hrest
          exact ⟨_, .step hwait hover hgoes⟩
  | enters code next ih =>
      obtain ⟨notes, hgoes⟩ := ih hends
      exact ⟨_, .enters .refl hgoes⟩

/-- Each run of the act up to a world on the way can be told. -/
theorem goes_of_visits (hvisits : tale.act.Visits others w w') :
    ∃ notes ending, tale.Goes others last w notes ending w' := by
  induction tale generalizing last w with
  | ended outcome =>
      cases hvisits with
      | here hwait => exact ⟨[], none, .here hwait⟩
  | step pause change next ih =>
      cases hvisits with
      | here hwait => exact ⟨[], none, .here hwait⟩
      | step hwait hover hrest =>
          obtain ⟨notes, ending, hgoes⟩ := ih _ hrest
          exact ⟨_, ending, .step hwait hover hgoes⟩
  | enters code next ih =>
      obtain ⟨notes, ending, hgoes⟩ := ih hvisits
      exact ⟨_, ending, .enters .refl hgoes⟩

/-- The world in which a call begins is one that the act gets to. -/
theorem Goes.visits_start (hgoes : tale.Goes others last w notes ending w') {c : CallStart H}
    (hc : .called c ∈ notes) : tale.act.Visits others w c.start := by
  induction hgoes with
  | here | ended => cases hc
  | step hwait hover _ ih =>
      rcases List.mem_cons.mp hc with hhere | hlater
      · cases hhere
      · exact .step hwait hover (ih hlater)
  | enters hwait _ ih =>
      rcases List.mem_cons.mp hc with hhere | hlater
      · cases hhere
        exact .here hwait
      · exact (ih hlater).wait hwait

end Tale

end TimedInvocation
