import TimedInvocation.Machine
import TimedInvocation.Proofs.Composition

/-!
# What programs log

Every step of every operation logs notices of the library, or nothing, and user code logs nothing of its own.
So each step of a program adds to the log nothing but notices, whatever has become of the world before it.
-/

namespace TimedInvocation

variable {H : Host} {α β : Type}

/-- Every step of the act logs notices or nothing. -/
def Act.Reporting : Act H α → Prop
  | .ended _ => True
  | .step _ change next => (∀ w : World H, w.Reports (change w)) ∧ ∀ w, (next w).Reporting

/-- Every step of the routine logs notices or nothing. -/
def Routine.Reporting : Routine H α → Prop
  | .ended _ => True
  | .step _ change next => (∀ w : World H, w.Reports (change w)) ∧ ∀ w, (next w).Reporting
  | .call _ next => ∀ outcome, (next outcome).Reporting

namespace Act.Reporting

theorem andThen {act : Act H α} {rest : α → Act H β} (hact : act.Reporting)
    (hrest : ∀ a, (rest a).Reporting) : (act.andThen rest).Reporting := by
  induction act with
  | ended outcome =>
      cases outcome with
      | returned a => exact hrest a
      | panicked payload => trivial
  | step pause change next ih => exact ⟨hact.1, fun w => ih w (hact.2 w)⟩

theorem attempt {act : Act H α} (hact : act.Reporting) : act.attempt.Reporting := by
  induction act with
  | ended outcome => trivial
  | step pause change next ih => exact ⟨hact.1, fun w => ih w (hact.2 w)⟩

end Act.Reporting

namespace Routine.Reporting

theorem play {routine : Routine H α} (hroutine : routine.Reporting) {runner : Runner H}
    (hrunner : ∀ {r : Reply} (program : Program H r), (runner program).Reporting) :
    (routine.play @runner).Reporting := by
  induction routine with
  | ended outcome => trivial
  | step pause change next ih => exact ⟨hroutine.1, fun w => ih w (hroutine.2 w)⟩
  | call program next ih => exact (hrunner program).attempt.andThen fun outcome => ih outcome (hroutine outcome)

theorem bind {routine : Routine H α} {rest : α → Routine H β} (hroutine : routine.Reporting)
    (hrest : ∀ a, (rest a).Reporting) : (routine >>= rest).Reporting := by
  change (routine.andThen rest).Reporting
  induction routine with
  | ended outcome =>
      cases outcome with
      | returned a => exact hrest a
      | panicked payload => trivial
  | step pause change next ih => exact ⟨hroutine.1, fun w => ih w (hroutine.2 w)⟩
  | call program next ih => exact fun outcome => ih outcome (hroutine outcome)

theorem attempt {routine : Routine H α} (hroutine : routine.Reporting) : routine.attempt.Reporting := by
  induction routine with
  | ended outcome => trivial
  | step pause change next ih => exact ⟨hroutine.1, fun w => ih w (hroutine.2 w)⟩
  | call program next ih => exact fun outcome => ih outcome (hroutine outcome)

end Routine.Reporting

theorem World.StoreSection.reports {w w' : World H} (hstep : w.StoreSection w') : w.Reports w' := by
  cases hstep with
  | logged n => exact .single n
  | closeBegun s => exact .of_eq (w.log_beginClose s)
  | unchanged | reserved | vacated | filled => exact .of_eq rfl

theorem Routine.Reporting.inherited :
    Inherited World.Reports (fun _ => True) fun {_} (routine : Routine H _) => routine.Reporting where
  ended _ := trivial
  bind := .bind
  attempt := .attempt
  run _ _ _ := trivial
  updateAfter _ hsteps := ⟨hsteps, fun _ => trivial⟩

theorem Routine.Reporting.storing : Storing fun {_} (routine : Routine H _) => routine.Reporting where
  toInherited := inherited.mono (fun _ _ => World.StoreSection.reports) fun _ _ => trivial
  cleanSlot := inherited.cleanSlot (fun _ _ => .of_eq rfl) trivial
  claim _ _ := ⟨fun _ => .of_eq rfl, fun _ => trivial⟩

theorem Routine.Reporting.compositional :
    Compositional fun {_} (routine : Routine H _) => routine.Reporting :=
  storing.compositional (inherited.mono (fun _ _ => World.Ordinary.reports) fun _ => id)

/-- Whatever a program does, the steps log notices or nothing: they are steps of the library's operations,
or of user code, which logs nothing itself. -/
theorem Program.reporting_exec (fuel : Nat) (worker : Option Nat) {r : Reply} (program : Program H r) :
    (program.exec fuel worker).Reporting := by
  induction fuel generalizing r with
  | zero => exact ⟨fun _ => .of_eq rfl, fun _ => trivial⟩
  | succ fuel ih =>
      rw [Program.exec_succ]
      split
      · trivial
      · next body next _ => exact (ih body).attempt.andThen fun _ => ih _
      · next routine next hpiece =>
        exact ((Routine.Reporting.compositional.piece hpiece).play ih).andThen fun _ => ih _

end TimedInvocation
