import TimedInvocation.Execution
import Mathlib.Logic.Relation

/-!
# Runs of acts and routines

A run takes an act or a routine from one world to another. Before each of its steps, and after the last
one, others may change the world in ways that a relation allows. A run of a routine leaves marks: the
occurrences that the routine itself records, and its calls of user code with the worlds in which they
began and ended. What the user code does within a call leaves no mark of the routine's own.
-/

namespace TimedInvocation

open Relation

variable {H : Host} {α β : Type} {others : World H → World H → Prop}

/-- An act that starts in a world ends with an outcome in a world. -/
inductive Act.Ends (others : World H → World H → Prop) :
    Act H α → World H → Outcome α → World H → Prop where
  | ended {outcome : Outcome α} {w w' : World H} (hwait : ReflTransGen others w w') :
      Ends others (.ended outcome) w outcome w'
  | step {pause : Pause H} {change : World H → World H} {next : World H → Act H α}
      {w w₁ w' : World H} {outcome : Outcome α} (hwait : ReflTransGen others w w₁)
      (hover : pause.isOver w₁ = true) (hrest : Ends others (next w₁) (change w₁) outcome w') :
      Ends others (.step pause change next) w outcome w'

/-- An act that starts in a world gets to a world, at its end or on the way. -/
inductive Act.Visits (others : World H → World H → Prop) :
    Act H α → World H → World H → Prop where
  | here {act : Act H α} {w w' : World H} (hwait : ReflTransGen others w w') :
      Visits others act w w'
  | step {pause : Pause H} {change : World H → World H} {next : World H → Act H α}
      {w w₁ w' : World H} (hwait : ReflTransGen others w w₁) (hover : pause.isOver w₁ = true)
      (hrest : Visits others (next w₁) (change w₁) w') :
      Visits others (.step pause change next) w w'

/-- A call of user code that has ended: the program, the worlds in which it began and ended, and how it
ended. -/
structure Call (H : Host) (r : Reply) where
  program : Program H r
  start : World H
  outcome : Outcome (r.Carrier H)
  finish : World H

/-- What a run of a routine leaves behind. -/
inductive Mark (H : Host) where
  | noted (o : Occurrence)
  | called {r : Reply} (c : Call H r)

/-- The marks for what is recorded between two worlds. -/
def World.noted (w w' : World H) : List (Mark H) :=
  (w'.trace.take (w'.trace.length - w.trace.length)).reverse.map .noted

/-- A routine that starts in a world leaves marks and ends with an outcome in a world, while a runner
runs the user code that it calls. -/
inductive Routine.Runs (others : World H → World H → Prop) (runner : Runner H) :
    Routine H α → World H → List (Mark H) → Outcome α → World H → Prop where
  | ended {outcome : Outcome α} {w w' : World H} (hwait : ReflTransGen others w w') :
      Runs others @runner (.ended outcome) w [] outcome w'
  | step {pause : Pause H} {change : World H → World H} {next : World H → Routine H α}
      {w w₁ w' : World H} {marks : List (Mark H)} {outcome : Outcome α}
      (hwait : ReflTransGen others w w₁) (hover : pause.isOver w₁ = true)
      (hrest : Runs others @runner (next w₁) (change w₁) marks outcome w') :
      Runs others @runner (.step pause change next) w (w₁.noted (change w₁) ++ marks) outcome w'
  | call {r : Reply} {c : Call H r} {next : Outcome (r.Carrier H) → Routine H α}
      {w w' : World H} {marks : List (Mark H)} {outcome : Outcome α}
      (hwait : ReflTransGen others w c.start)
      (hcall : (runner c.program).Ends others c.start c.outcome c.finish)
      (hrest : Runs others @runner (next c.outcome) c.finish marks outcome w') :
      Runs others @runner (.call c.program next) w (.called c :: marks) outcome w'

/-- A routine that starts in a world may get to a call of user code that does not end. -/
inductive Routine.Hangs (others : World H → World H → Prop) (runner : Runner H) :
    Routine H α → World H → Prop where
  | here {r : Reply} {program : Program H r} {next : Outcome (r.Carrier H) → Routine H α}
      {w w₁ : World H} (hwait : ReflTransGen others w w₁)
      (hnever : ∀ outcome w', ¬ (runner program).Ends others w₁ outcome w') :
      Hangs others @runner (.call program next) w
  | step {pause : Pause H} {change : World H → World H} {next : World H → Routine H α}
      {w w₁ : World H} (hwait : ReflTransGen others w w₁) (hover : pause.isOver w₁ = true)
      (hrest : Hangs others @runner (next w₁) (change w₁)) :
      Hangs others @runner (.step pause change next) w
  | call {r : Reply} {c : Call H r} {next : Outcome (r.Carrier H) → Routine H α} {w : World H}
      (hwait : ReflTransGen others w c.start)
      (hcall : (runner c.program).Ends others c.start c.outcome c.finish)
      (hrest : Hangs others @runner (next c.outcome) c.finish) :
      Hangs others @runner (.call c.program next) w

/-- Others can let every step of the routine happen. -/
def Routine.CanGoOn (others : World H → World H → Prop) : Routine H α → Prop
  | .ended _ => True
  | .step pause _ next =>
      (∀ w, ∃ w₁, ReflTransGen others w w₁ ∧ pause.isOver w₁ = true) ∧
        ∀ w, (next w).CanGoOn others
  | .call _ next => ∀ outcome, (next outcome).CanGoOn others

section Marks

variable {w w' : World H}

theorem World.noted_of_trace_eq (htrace : w'.trace = w.trace) : w.noted w' = [] := by
  simp [World.noted, htrace]

@[simp]
theorem World.noted_self : w.noted w = [] :=
  World.noted_of_trace_eq rfl

theorem World.noted_of_trace_cons {o : Occurrence} (htrace : w'.trace = o :: w.trace) :
    w.noted w' = [.noted o] := by
  simp [World.noted, htrace]

end Marks

namespace Act

variable {w w₁ w' : World H} {outcome : Outcome α}

theorem Ends.wait {act : Act H α} (hwait : ReflTransGen others w w₁)
    (hends : act.Ends others w₁ outcome w') : act.Ends others w outcome w' := by
  cases hends with
  | ended h => exact .ended (hwait.trans h)
  | step h hover hrest => exact .step (hwait.trans h) hover hrest

theorem Visits.wait {act : Act H α} (hwait : ReflTransGen others w w₁)
    (hvisits : act.Visits others w₁ w') : act.Visits others w w' := by
  cases hvisits with
  | here h => exact .here (hwait.trans h)
  | step h hover hrest => exact .step (hwait.trans h) hover hrest

/-- The world in which an act has to wait, or is at its end, is one that it gets to. -/
theorem visits_advance (act : Act H α) (w : World H) :
    act.Visits others w (act.advance w).2 := by
  induction act generalizing w with
  | ended outcome => exact .here .refl
  | step pause change next ih =>
      rw [Act.advance]
      by_cases hover : pause.isOver w = true
      · rw [if_pos hover]
        exact .step .refl hover (ih w (change w))
      · rw [if_neg hover]
        exact .here .refl

/-- What an act can do after the steps that need not wait, it can do after all. -/
theorem ends_of_advance {act : Act H α} {w : World H}
    (hends : (act.advance w).1.Ends others (act.advance w).2 outcome w') :
    act.Ends others w outcome w' := by
  induction act generalizing w with
  | ended outcome' => exact hends
  | step pause change next ih =>
      rw [Act.advance] at hends
      by_cases hover : pause.isOver w = true
      · rw [if_pos hover] at hends
        exact .step .refl hover (ih w hends)
      · rw [if_neg hover] at hends
        exact hends

/-- An act that never has to wait gets to its end. -/
theorem ends_advance {act : Act H α} {w : World H} {outcome : Outcome α}
    (hended : (act.advance w).1 = .ended outcome) :
    act.Ends others w outcome (act.advance w).2 :=
  ends_of_advance (hended ▸ .ended .refl)

/-- What comes after an act whose panic is caught. -/
theorem ends_attempt_andThen {act : Act H α} {rest : Outcome α → Act H β} {outcome : Outcome β}
    (hends : (act.attempt.andThen rest).Ends others w outcome w') :
    ∃ ending w₁, act.Ends others w ending w₁ ∧ (rest ending).Ends others w₁ outcome w' := by
  induction act generalizing w with
  | ended ending => exact ⟨ending, w, .ended .refl, hends⟩
  | step pause change next ih =>
      cases hends with
      | step hwait hover hrest =>
          obtain ⟨ending, w₁, hfirst, hsecond⟩ := ih _ hrest
          exact ⟨ending, w₁, .step hwait hover hfirst, hsecond⟩

end Act

namespace Routine

variable {runner : Runner H} {w w₁ w' : World H} {marks : List (Mark H)}

theorem Runs.wait {routine : Routine H α} {outcome : Outcome α} (hwait : ReflTransGen others w w₁)
    (hruns : routine.Runs others @runner w₁ marks outcome w') :
    routine.Runs others @runner w marks outcome w' := by
  cases hruns with
  | ended h => exact .ended (hwait.trans h)
  | step h hover hrest => exact .step (hwait.trans h) hover hrest
  | call h hcall hrest => exact .call (hwait.trans h) hcall hrest

theorem Runs.wait_after {routine : Routine H α} {outcome : Outcome α}
    (hruns : routine.Runs others @runner w marks outcome w₁) (hwait : ReflTransGen others w₁ w') :
    routine.Runs others @runner w marks outcome w' := by
  induction hruns with
  | ended h => exact .ended (h.trans hwait)
  | step h hover _ ih => exact .step h hover (ih hwait)
  | call h hcall _ ih => exact .call h hcall (ih hwait)

/-- What a thread does that plays a routine is a run of the routine. -/
theorem runs_of_ends {routine : Routine H α} {outcome : Outcome α}
    (hends : (routine.play @runner).Ends others w outcome w') :
    ∃ marks, routine.Runs others @runner w marks outcome w' := by
  induction routine generalizing w with
  | ended outcome' =>
      cases hends with
      | ended hwait => exact ⟨[], .ended hwait⟩
  | step pause change next ih =>
      cases hends with
      | step hwait hover hrest =>
          obtain ⟨marks, hruns⟩ := ih _ hrest
          exact ⟨_, .step hwait hover hruns⟩
  | call program next ih =>
      obtain ⟨ending, w₁, hcall, hrest⟩ := Act.ends_attempt_andThen hends
      obtain ⟨marks, hruns⟩ := ih ending hrest
      let c : Call H _ := ⟨program, w, ending, w₁⟩
      exact ⟨_, .call (c := c) .refl hcall hruns⟩

/-- What a thread gets done without having to wait is a run, whatever the others may do. -/
theorem runs_of_advance {routine : Routine H α} {outcome : Outcome α}
    (hended : ((routine.play @runner).advance w).1 = .ended outcome) :
    ∃ marks w', routine.Runs others @runner w marks outcome w' := by
  obtain ⟨marks, hruns⟩ := runs_of_ends (Act.ends_advance hended)
  exact ⟨marks, _, hruns⟩

theorem CanGoOn.bind {routine : Routine H α} {rest : α → Routine H β}
    (hroutine : routine.CanGoOn others) (hrest : ∀ a, (rest a).CanGoOn others) :
    (routine >>= rest).CanGoOn others := by
  change (routine.andThen rest).CanGoOn others
  induction routine with
  | ended outcome =>
      cases outcome with
      | returned a => exact hrest a
      | panicked payload => trivial
  | step pause change next ih => exact ⟨hroutine.1, fun w => ih w (hroutine.2 w)⟩
  | call program next ih => exact fun outcome => ih outcome (hroutine outcome)

theorem canGoOn_update_bind {f : World H → α × World H} {rest : α → Routine H β}
    (hrest : ∀ w, (rest (f w).1).CanGoOn others) : (update f >>= rest).CanGoOn others :=
  ⟨fun w => ⟨w, .refl, rfl⟩, hrest⟩

/-- A routine gets to its end, unless it calls user code that does not end. -/
theorem CanGoOn.runs_or_hangs {routine : Routine H α} (hgoes : routine.CanGoOn others)
    (w : World H) :
    (∃ marks outcome w', routine.Runs others @runner w marks outcome w') ∨
      routine.Hangs others @runner w := by
  induction routine generalizing w with
  | ended outcome => exact .inl ⟨[], outcome, w, .ended .refl⟩
  | step pause change next ih =>
      obtain ⟨w₁, hwait, hover⟩ := hgoes.1 w
      rcases ih w₁ (hgoes.2 w₁) (change w₁) with ⟨marks, outcome, w', hrest⟩ | hrest
      · exact .inl ⟨_, outcome, w', .step hwait hover hrest⟩
      · exact .inr (.step hwait hover hrest)
  | call program next ih =>
      by_cases hends : ∃ answer w₁, (runner program).Ends others w answer w₁
      · obtain ⟨answer, w₁, hcall⟩ := hends
        let c : Call H _ := ⟨program, w, answer, w₁⟩
        rcases ih answer (hgoes answer) w₁ with ⟨marks, outcome, w', hrest⟩ | hrest
        · exact .inl ⟨_, outcome, w', .call (c := c) .refl hcall hrest⟩
        · exact .inr (.call (c := c) .refl hcall hrest)
      · exact .inr (.here .refl fun answer w₁ hcall => hends ⟨answer, w₁, hcall⟩)

/-- A routine need not wait for its first step, and gets to its end or hangs after that. -/
theorem runs_or_hangs_step {pause : Pause H} {change : World H → World H}
    {next : World H → Routine H α} (hover : pause.isOver w = true)
    (hrest : (∃ marks outcome w', (next w).Runs others @runner (change w) marks outcome w') ∨
      (next w).Hangs others @runner (change w)) :
    (∃ marks outcome w', (step pause change next).Runs others @runner w marks outcome w') ∨
      (step pause change next).Hangs others @runner w := by
  rcases hrest with ⟨marks, outcome, w', hruns⟩ | hhangs
  · exact .inl ⟨_, outcome, w', .step .refl hover hruns⟩
  · exact .inr (.step .refl hover hhangs)

theorem runs_or_hangs_update_bind {f : World H → α × World H} {rest : α → Routine H β}
    (hrest : (∃ marks outcome w', (rest (f w).1).Runs others @runner (f w).2 marks outcome w') ∨
      (rest (f w).1).Hangs others @runner (f w).2) :
    (∃ marks outcome w', (update f >>= rest).Runs others @runner w marks outcome w') ∨
      (update f >>= rest).Hangs others @runner w :=
  runs_or_hangs_step rfl hrest

theorem not_hangs_ended {outcome : Outcome α} :
    ¬ (Routine.ended outcome : Routine H α).Hangs others @runner w :=
  fun hhangs => nomatch hhangs

theorem hangs_updateAfter_bind {pause : Pause H} {f : World H → α × World H}
    {rest : α → Routine H β} (hhangs : (updateAfter pause f >>= rest).Hangs others @runner w) :
    ∃ w₁, ReflTransGen others w w₁ ∧ pause.isOver w₁ = true ∧
      (rest (f w₁).1).Hangs others @runner (f w₁).2 := by
  cases hhangs with
  | step hwait hover hrest => exact ⟨_, hwait, hover, hrest⟩

theorem runs_ended_iff {outcome outcome' : Outcome α} :
    (Routine.ended outcome' : Routine H α).Runs others @runner w marks outcome w' ↔
      marks = [] ∧ outcome = outcome' ∧ ReflTransGen others w w' := by
  constructor
  · intro hruns
    cases hruns with
    | ended h => exact ⟨rfl, rfl, h⟩
  · rintro ⟨rfl, rfl, h⟩
    exact .ended h

theorem runs_pure_iff {a : α} {outcome : Outcome α} :
    (pure a : Routine H α).Runs others @runner w marks outcome w' ↔
      marks = [] ∧ outcome = .returned a ∧ ReflTransGen others w w' :=
  runs_ended_iff

/-- One routine after another leaves the marks of both, or only those of the first one if that
panics. -/
theorem runs_bind_iff {routine : Routine H α} {rest : α → Routine H β} {outcome : Outcome β} :
    (routine >>= rest).Runs others @runner w marks outcome w' ↔
      (∃ a w₁ first second, routine.Runs others @runner w first (.returned a) w₁ ∧
          (rest a).Runs others @runner w₁ second outcome w' ∧ marks = first ++ second) ∨
        ∃ payload, routine.Runs others @runner w marks (.panicked payload) w' ∧
          outcome = .panicked payload := by
  change (routine.andThen rest).Runs others @runner w marks outcome w' ↔ _
  induction routine generalizing w marks with
  | ended first =>
      cases first with
      | returned a =>
          constructor
          · intro hruns
            exact .inl ⟨a, w, [], marks, .ended .refl, hruns, rfl⟩
          · rintro (⟨_, w₁, _, second, hfirst, hsecond, rfl⟩ | ⟨_, hfirst, _⟩)
            · obtain ⟨rfl, heq, hwait⟩ := runs_ended_iff.mp hfirst
              cases heq
              exact hsecond.wait hwait
            · cases (runs_ended_iff.mp hfirst).2.1
      | panicked payload =>
          constructor
          · intro hruns
            obtain ⟨rfl, rfl, hwait⟩ := runs_ended_iff.mp hruns
            exact .inr ⟨payload, .ended hwait, rfl⟩
          · rintro (⟨_, _, _, _, hfirst, _, _⟩ | ⟨_, hfirst, rfl⟩)
            · cases (runs_ended_iff.mp hfirst).2.1
            · obtain ⟨rfl, heq, hwait⟩ := runs_ended_iff.mp hfirst
              cases heq
              exact .ended hwait
  | step pause change next ih =>
      constructor
      · intro hruns
        cases hruns with
        | step hwait hover hrest =>
            rcases (ih _).mp hrest with ⟨a, w₁, first, second, hfirst, hsecond, rfl⟩ |
              ⟨payload, hfirst, rfl⟩
            · exact .inl ⟨a, w₁, _, second, .step hwait hover hfirst, hsecond, by simp⟩
            · exact .inr ⟨payload, .step hwait hover hfirst, rfl⟩
      · rintro (⟨a, w₁, _, second, hfirst, hsecond, rfl⟩ | ⟨payload, hfirst, rfl⟩)
        · cases hfirst with
          | step hwait hover hrest =>
              rw [List.append_assoc]
              exact .step hwait hover ((ih _).mpr (.inl ⟨a, w₁, _, _, hrest, hsecond, rfl⟩))
        · cases hfirst with
          | step hwait hover hrest =>
              exact .step hwait hover ((ih _).mpr (.inr ⟨payload, hrest, rfl⟩))
  | call program next ih =>
      constructor
      · intro hruns
        cases hruns with
        | call hwait hcall hrest =>
            rcases (ih _).mp hrest with ⟨a, w₁, first, second, hfirst, hsecond, rfl⟩ |
              ⟨payload, hfirst, rfl⟩
            · exact .inl ⟨a, w₁, _, second, .call hwait hcall hfirst, hsecond, rfl⟩
            · exact .inr ⟨payload, .call hwait hcall hfirst, rfl⟩
      · rintro (⟨a, w₁, _, second, hfirst, hsecond, rfl⟩ | ⟨payload, hfirst, rfl⟩)
        · cases hfirst with
          | call hwait hcall hrest =>
              exact .call hwait hcall ((ih _).mpr (.inl ⟨a, w₁, _, _, hrest, hsecond, rfl⟩))
        · cases hfirst with
          | call hwait hcall hrest =>
              exact .call hwait hcall ((ih _).mpr (.inr ⟨payload, hrest, rfl⟩))

/-- A routine whose panic is caught leaves the same marks and returns how it ended. -/
theorem runs_attempt_iff {routine : Routine H α} {outcome : Outcome (Outcome α)} :
    routine.attempt.Runs others @runner w marks outcome w' ↔
      ∃ ending, outcome = .returned ending ∧ routine.Runs others @runner w marks ending w' := by
  induction routine generalizing w marks with
  | ended ending =>
      simp only [attempt, runs_pure_iff, runs_ended_iff]
      constructor
      · rintro ⟨rfl, rfl, hwait⟩
        exact ⟨ending, rfl, rfl, rfl, hwait⟩
      · rintro ⟨_, rfl, rfl, rfl, hwait⟩
        exact ⟨rfl, rfl, hwait⟩
  | step pause change next ih =>
      constructor
      · intro hruns
        cases hruns with
        | step hwait hover hrest =>
            obtain ⟨ending, rfl, hends⟩ := (ih _).mp hrest
            exact ⟨ending, rfl, .step hwait hover hends⟩
      · rintro ⟨ending, rfl, hruns⟩
        cases hruns with
        | step hwait hover hrest => exact .step hwait hover ((ih _).mpr ⟨ending, rfl, hrest⟩)
  | call program next ih =>
      constructor
      · intro hruns
        cases hruns with
        | call hwait hcall hrest =>
            obtain ⟨ending, rfl, hends⟩ := (ih _).mp hrest
            exact ⟨ending, rfl, .call hwait hcall hends⟩
      · rintro ⟨ending, rfl, hruns⟩
        cases hruns with
        | call hwait hcall hrest => exact .call hwait hcall ((ih _).mpr ⟨ending, rfl, hrest⟩)

theorem runs_updateAfter_iff {pause : Pause H} {f : World H → α × World H} {outcome : Outcome α} :
    (updateAfter pause f).Runs others @runner w marks outcome w' ↔
      ∃ w₁, ReflTransGen others w w₁ ∧ pause.isOver w₁ = true ∧ marks = w₁.noted (f w₁).2 ∧
        outcome = .returned (f w₁).1 ∧ ReflTransGen others (f w₁).2 w' := by
  constructor
  · intro hruns
    cases hruns with
    | step hwait hover hrest =>
        obtain ⟨rfl, rfl, hafter⟩ := runs_pure_iff.mp hrest
        exact ⟨_, hwait, hover, by simp, rfl, hafter⟩
  · rintro ⟨w₁, hwait, hover, rfl, rfl, hafter⟩
    have hend : (Pure.pure (f w₁).1 : Routine H α).Runs others @runner (f w₁).2 []
        (.returned (f w₁).1) w' := runs_pure_iff.mpr ⟨rfl, rfl, hafter⟩
    have hruns : (updateAfter pause f).Runs others @runner w (w₁.noted (f w₁).2 ++ []) _ w' :=
      .step hwait hover hend
    simpa using hruns

theorem runs_update_iff {f : World H → α × World H} {outcome : Outcome α} :
    (update f).Runs others @runner w marks outcome w' ↔
      ∃ w₁, ReflTransGen others w w₁ ∧ marks = w₁.noted (f w₁).2 ∧
        outcome = .returned (f w₁).1 ∧ ReflTransGen others (f w₁).2 w' := by
  have hupdate : update f = updateAfter .none f := rfl
  simp [hupdate, runs_updateAfter_iff, Pause.isOver, Pause.none]

theorem runs_viewAfter_iff {pause : Pause H} {f : World H → α} {outcome : Outcome α} :
    (viewAfter pause f).Runs others @runner w marks outcome w' ↔
      marks = [] ∧ ∃ w₁, ReflTransGen others w w₁ ∧ pause.isOver w₁ = true ∧
        outcome = .returned (f w₁) ∧ ReflTransGen others w₁ w' := by
  have hview : viewAfter pause f = updateAfter pause fun w => (f w, w) := rfl
  simp only [hview, runs_updateAfter_iff, World.noted_self]
  constructor
  · rintro ⟨w₁, hwait, hover, rfl, rfl, hafter⟩
    exact ⟨rfl, w₁, hwait, hover, rfl, hafter⟩
  · rintro ⟨rfl, w₁, hwait, hover, rfl, hafter⟩
    exact ⟨w₁, hwait, hover, rfl, rfl, hafter⟩

theorem runs_view_iff {f : World H → α} {outcome : Outcome α} :
    (view f).Runs others @runner w marks outcome w' ↔
      marks = [] ∧ ∃ w₁, ReflTransGen others w w₁ ∧ outcome = .returned (f w₁) ∧
        ReflTransGen others w₁ w' := by
  have hview : view f = viewAfter .none f := rfl
  simp [hview, runs_viewAfter_iff, Pause.isOver, Pause.none]

theorem runs_run_iff {r : Reply} {program : Program H r} {outcome : Outcome (r.Carrier H)} :
    (run program).Runs others @runner w marks outcome w' ↔
      ∃ c : Call H r, c.program = program ∧ ReflTransGen others w c.start ∧
        (runner c.program).Ends others c.start c.outcome c.finish ∧
        ReflTransGen others c.finish w' ∧ marks = [.called c] ∧ outcome = c.outcome := by
  constructor
  · intro hruns
    cases hruns with
    | call hwait hcall hrest =>
        obtain ⟨rfl, rfl, hafter⟩ := runs_ended_iff.mp hrest
        exact ⟨_, rfl, hwait, hcall, hafter, rfl, rfl⟩
  · rintro ⟨c, rfl, hwait, hcall, hafter, rfl, rfl⟩
    exact .call hwait hcall (runs_ended_iff.mpr ⟨rfl, rfl, hafter⟩)

section First

variable {outcome : Outcome β}

/-- A routine that starts with a change of the world. -/
theorem runs_updateAfter_bind {pause : Pause H} {f : World H → α × World H} {rest : α → Routine H β}
    (hruns : (updateAfter pause f >>= rest).Runs others @runner w marks outcome w') :
    ∃ w₁ later, ReflTransGen others w w₁ ∧ pause.isOver w₁ = true ∧
      marks = w₁.noted (f w₁).2 ++ later ∧
      (rest (f w₁).1).Runs others @runner (f w₁).2 later outcome w' := by
  cases hruns with
  | step hwait hover hrest => exact ⟨_, _, hwait, hover, rfl, hrest⟩

theorem runs_update_bind {f : World H → α × World H} {rest : α → Routine H β}
    (hruns : (update f >>= rest).Runs others @runner w marks outcome w') :
    ∃ w₁ later, ReflTransGen others w w₁ ∧ marks = w₁.noted (f w₁).2 ++ later ∧
      (rest (f w₁).1).Runs others @runner (f w₁).2 later outcome w' := by
  cases hruns with
  | step hwait _ hrest => exact ⟨_, _, hwait, rfl, hrest⟩

/-- A routine that starts with a change that records nothing. -/
theorem runs_silent_update_bind {f : World H → α × World H} {rest : α → Routine H β}
    (hruns : (update f >>= rest).Runs others @runner w marks outcome w')
    (htrace : ∀ w, (f w).2.trace = w.trace) :
    ∃ w₁, ReflTransGen others w w₁ ∧
      (rest (f w₁).1).Runs others @runner (f w₁).2 marks outcome w' := by
  obtain ⟨w₁, later, hwait, rfl, hrest⟩ := runs_update_bind hruns
  rw [World.noted_of_trace_eq (htrace w₁), List.nil_append]
  exact ⟨w₁, hwait, hrest⟩

theorem runs_silent_change_bind {f : World H → World H} {rest : Unit → Routine H β}
    (hruns : (change f >>= rest).Runs others @runner w marks outcome w')
    (htrace : ∀ w, (f w).trace = w.trace) :
    ∃ w₁, ReflTransGen others w w₁ ∧ (rest ()).Runs others @runner (f w₁) marks outcome w' := by
  cases hruns with
  | @step _ _ _ _ w₁ _ _ _ hwait _ hrest =>
      rw [World.noted_of_trace_eq (htrace w₁), List.nil_append]
      exact ⟨w₁, hwait, hrest⟩

theorem runs_viewAfter_bind {pause : Pause H} {f : World H → α} {rest : α → Routine H β}
    (hruns : (viewAfter pause f >>= rest).Runs others @runner w marks outcome w') :
    ∃ w₁, ReflTransGen others w w₁ ∧ pause.isOver w₁ = true ∧
      (rest (f w₁)).Runs others @runner w₁ marks outcome w' := by
  cases hruns with
  | @step _ _ _ _ w₁ _ _ _ hwait hover hrest =>
      have hnoted : w₁.noted (id w₁) = [] := World.noted_self
      rw [hnoted, List.nil_append]
      exact ⟨_, hwait, hover, hrest⟩

theorem runs_view_bind {f : World H → α} {rest : α → Routine H β}
    (hruns : (view f >>= rest).Runs others @runner w marks outcome w') :
    ∃ w₁, ReflTransGen others w w₁ ∧ (rest (f w₁)).Runs others @runner w₁ marks outcome w' := by
  obtain ⟨w₁, hwait, -, hrest⟩ := runs_viewAfter_bind hruns
  exact ⟨w₁, hwait, hrest⟩

theorem runs_log_bind {e : Event} {rest : Unit → Routine H β}
    (hruns : (log e >>= rest).Runs others @runner w marks outcome w') :
    ∃ w₁, ReflTransGen others w w₁ ∧
      (rest ()).Runs others @runner (w₁.logged e) marks outcome w' := by
  exact runs_silent_change_bind hruns fun _ => rfl

theorem runs_record_bind {o : Occurrence} {rest : Unit → Routine H β}
    (hruns : (record o >>= rest).Runs others @runner w marks outcome w') :
    ∃ w₁ later, ReflTransGen others w w₁ ∧ marks = .noted o :: later ∧
      (rest ()).Runs others @runner (w₁.recorded o) later outcome w' := by
  cases hruns with
  | step hwait _ hrest =>
      exact ⟨_, _, hwait, by rw [World.noted_of_trace_cons rfl]; rfl, hrest⟩

end First

end Routine

end TimedInvocation
