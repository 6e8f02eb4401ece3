import TimedInvocation.Proofs.Schedule

/-!
# Runs among workers

A caller goes through a routine while the threads of workers act and others change the world. Its run
consists of legs: steps of its own, each of which leads from one workforce to another, and calls of user
code. Seen from the world alone, it is a run among moves. The machine makes such runs for its first thread.
-/

namespace TimedInvocation

open Relation World

variable {H : Host} {α β : Type} {fuel : Nat} {caller : Option WorkerId}

/-- A step of a caller: the workforce that it found and the one that it left behind. -/
structure Stride (H : Host) where
  found : Workforce H
  left : Workforce H

namespace Stride

/-- The step changes the world, and the threads of workers other than the caller stay where they are. -/
def Makes (caller : Option WorkerId) (change : World H → World H) (s : Stride H) : Prop :=
  s.left.world = change s.found.world ∧ ∀ id, some id ≠ caller → s.left.place id = s.found.place id

/-- What the step records. -/
def noted (s : Stride H) : List (Mark H) :=
  s.found.world.noted s.left.world

end Stride

/-- An act of a caller that starts in one workforce ends with an outcome in another one. -/
inductive Act.EndsAmong (fuel : Nat) (caller : Option WorkerId) :
    Act H α → Workforce H → Outcome α → Workforce H → Prop where
  | ended {outcome : Outcome α} {x y : Workforce H} (hlater : x.Later fuel y) :
      EndsAmong fuel caller (.ended outcome) x outcome y
  | step {pause : Pause H} {change : World H → World H} {next : World H → Act H α}
      {x y : Workforce H} {s : Stride H} {outcome : Outcome α} (hlater : x.Later fuel s.found)
      (hover : pause.isOver s.found.world = true) (hmakes : s.Makes caller change)
      (hrest : EndsAmong fuel caller (next s.found.world) s.left outcome y) :
      EndsAmong fuel caller (.step pause change next) x outcome y

/-- A part of a run among workers: a step of the routine's own, or a call of user code. -/
inductive Leg (H : Host) where
  | own (s : Stride H)
  | called {r : Reply} (c : Call H r)

/-- The marks that a leg leaves. -/
def Leg.marks : Leg H → List (Mark H)
  | own s => s.noted
  | called c => [.called c]

/-- A routine that a caller starts in one workforce ends with an outcome in another one, while a runner
runs the user code that it calls. -/
inductive Routine.RunsAmong (fuel : Nat) (caller : Option WorkerId) (runner : Runner H) :
    Routine H α → Workforce H → List (Leg H) → Outcome α → Workforce H → Prop where
  | ended {outcome : Outcome α} {x y : Workforce H} (hlater : x.Later fuel y) :
      RunsAmong fuel caller @runner (.ended outcome) x [] outcome y
  | step {pause : Pause H} {change : World H → World H} {next : World H → Routine H α}
      {x y : Workforce H} {s : Stride H} {legs : List (Leg H)} {outcome : Outcome α}
      (hlater : x.Later fuel s.found) (hover : pause.isOver s.found.world = true)
      (hmakes : s.Makes caller change)
      (hrest : RunsAmong fuel caller @runner (next s.found.world) s.left legs outcome y) :
      RunsAmong fuel caller @runner (.step pause change next) x (.own s :: legs) outcome y
  | call {r : Reply} {c : Call H r} {next : Outcome (r.Carrier H) → Routine H α}
      {x start finish y : Workforce H} {legs : List (Leg H)} {outcome : Outcome α}
      (hlater : x.Later fuel start) (hstart : start.world = c.start)
      (hcall : (runner c.program).EndsAmong fuel caller start c.outcome finish)
      (hfinish : finish.world = c.finish)
      (hrest : RunsAmong fuel caller @runner (next c.outcome) finish legs outcome y) :
      RunsAmong fuel caller @runner (.call c.program next) x (.called c :: legs) outcome y

/-- A routine that a caller starts in a workforce may get to a call of user code that does not end. -/
inductive Routine.HangsAmong (fuel : Nat) (caller : Option WorkerId) (runner : Runner H) :
    Routine H α → Workforce H → Prop where
  | here {r : Reply} {program : Program H r} {next : Outcome (r.Carrier H) → Routine H α}
      {x start : Workforce H} (hlater : x.Later fuel start)
      (hnever : ∀ outcome finish, ¬ (runner program).EndsAmong fuel caller start outcome finish) :
      HangsAmong fuel caller @runner (.call program next) x
  | step {pause : Pause H} {change : World H → World H} {next : World H → Routine H α}
      {x : Workforce H} {s : Stride H} (hlater : x.Later fuel s.found)
      (hover : pause.isOver s.found.world = true) (hmakes : s.Makes caller change)
      (hrest : HangsAmong fuel caller @runner (next s.found.world) s.left) :
      HangsAmong fuel caller @runner (.step pause change next) x
  | call {r : Reply} {program : Program H r} {next : Outcome (r.Carrier H) → Routine H α}
      {x start finish : Workforce H} {outcome : Outcome (r.Carrier H)} (hlater : x.Later fuel start)
      (hcall : (runner program).EndsAmong fuel caller start outcome finish)
      (hrest : HangsAmong fuel caller @runner (next outcome) finish) :
      HangsAmong fuel caller @runner (.call program next) x

namespace Act

variable {act : Act H α} {x y z : Workforce H} {outcome : Outcome α}

/-- Seen from the world alone, an act among workers is one among moves. -/
theorem EndsAmong.ends (hends : act.EndsAmong fuel caller x outcome y) :
    act.Ends Move x.world outcome y.world := by
  induction hends with
  | ended hlater => exact .ended hlater.meanwhile
  | step hlater hover hmakes _ ih => exact .step hlater.meanwhile hover (hmakes.1 ▸ ih)

theorem EndsAmong.later (hlater : x.Later fuel y) (hends : act.EndsAmong fuel caller y outcome z) :
    act.EndsAmong fuel caller x outcome z := by
  cases hends with
  | ended h => exact .ended (hlater.trans h)
  | step h hover hmakes hrest => exact .step (hlater.trans h) hover hmakes hrest

/-- What comes after an act whose panic is caught. -/
theorem endsAmong_attempt_andThen {rest : Outcome α → Act H β} {outcome : Outcome β}
    (hends : (act.attempt.andThen rest).EndsAmong fuel caller x outcome z) :
    ∃ ending y, act.EndsAmong fuel caller x ending y ∧
      (rest ending).EndsAmong fuel caller y outcome z := by
  induction act generalizing x with
  | ended ending => exact ⟨ending, x, .ended .refl, hends⟩
  | step pause change next ih =>
      cases hends with
      | step hlater hover hmakes hrest =>
          obtain ⟨ending, y, hfirst, hsecond⟩ := ih _ hrest
          exact ⟨ending, y, .step hlater hover hmakes hfirst, hsecond⟩

end Act

namespace Routine

variable {runner : Runner H} {x y z : Workforce H} {legs : List (Leg H)}

theorem RunsAmong.later {routine : Routine H α} {outcome : Outcome α} (hlater : x.Later fuel y)
    (hruns : routine.RunsAmong fuel caller @runner y legs outcome z) :
    routine.RunsAmong fuel caller @runner x legs outcome z := by
  cases hruns with
  | ended h => exact .ended (hlater.trans h)
  | step h hover hmakes hrest => exact .step (hlater.trans h) hover hmakes hrest
  | call h hstart hcall hfinish hrest => exact .call (hlater.trans h) hstart hcall hfinish hrest

/-- Seen from the world alone, a run among workers is one among moves. -/
theorem RunsAmong.runs {routine : Routine H α} {outcome : Outcome α}
    (hruns : routine.RunsAmong fuel caller @runner x legs outcome y) :
    routine.Runs Move @runner x.world (legs.flatMap Leg.marks) outcome y.world := by
  induction hruns with
  | ended hlater => exact .ended hlater.meanwhile
  | step hlater hover hmakes _ ih =>
      rw [List.flatMap_cons, Leg.marks, Stride.noted]
      rw [hmakes.1] at ih ⊢
      exact .step hlater.meanwhile hover ih
  | call hlater hstart hcall hfinish _ ih =>
      have hends := hcall.ends
      rw [hstart, hfinish] at hends
      rw [hfinish] at ih
      exact .call (hstart ▸ hlater.meanwhile) hends ih

/-- A routine whose own steps are quiet gets to its end, unless it calls user code that does not end. -/
theorem Quiet.runs_or_hangs_among {routine : Routine H α} (hroutine : routine.Quiet)
    (fuel : Nat) (caller : Option WorkerId) (runner : Runner H) (x : Workforce H) :
    (∃ legs outcome y, routine.RunsAmong fuel caller @runner x legs outcome y) ∨
      routine.HangsAmong fuel caller @runner x := by
  induction routine generalizing x with
  | ended outcome => exact .inl ⟨[], outcome, x, .ended .refl⟩
  | step pause change next ih =>
      obtain ⟨w, hwait, hover⟩ := hroutine.1.2 x.world
      obtain ⟨y, hlater, rfl⟩ := Workforce.exists_later_of_quiet fuel hwait
      let s : Stride H := ⟨y, y.inWorld (change y.world) (hroutine.1.1 _ hover).2.workers.length_le⟩
      have hmakes : s.Makes caller change := ⟨rfl, fun _ _ => rfl⟩
      rcases ih y.world (hroutine.2 _) s.left with ⟨legs, outcome, z, hrest⟩ | hrest
      · exact .inl ⟨_, outcome, z, .step (s := s) hlater hover hmakes hrest⟩
      · exact .inr (.step (s := s) hlater hover hmakes hrest)
  | call program next ih =>
      by_cases hends : ∃ answer y, (runner program).EndsAmong fuel caller x answer y
      · obtain ⟨answer, y, hcall⟩ := hends
        let c : Call H _ := ⟨program, x.world, answer, y.world⟩
        rcases ih answer (hroutine answer) y with ⟨legs, outcome, z, hrest⟩ | hrest
        · exact .inl ⟨_, outcome, z, .call (c := c) .refl rfl hcall rfl hrest⟩
        · exact .inr (.call .refl hcall hrest)
      · exact .inr (.here .refl fun answer y hcall => hends ⟨answer, y, hcall⟩)

theorem runsAmong_ended {outcome outcome' : Outcome α}
    (hruns : (Routine.ended outcome' : Routine H α).RunsAmong fuel caller @runner x legs outcome y) :
    legs = [] ∧ outcome = outcome' ∧ x.Later fuel y := by
  cases hruns with
  | ended hlater => exact ⟨rfl, rfl, hlater⟩

theorem runsAmong_pure {a : α} {outcome : Outcome α}
    (hruns : (pure a : Routine H α).RunsAmong fuel caller @runner x legs outcome y) :
    legs = [] ∧ outcome = .returned a ∧ x.Later fuel y :=
  runsAmong_ended hruns

/-- One routine after another leaves the legs of both, or only those of the first one if that panics. -/
theorem runsAmong_bind {routine : Routine H α} {rest : α → Routine H β} {outcome : Outcome β}
    (hruns : (routine >>= rest).RunsAmong fuel caller @runner x legs outcome z) :
    (∃ a y first second, routine.RunsAmong fuel caller @runner x first (.returned a) y ∧
        (rest a).RunsAmong fuel caller @runner y second outcome z ∧ legs = first ++ second) ∨
      ∃ payload, routine.RunsAmong fuel caller @runner x legs (.panicked payload) z ∧
        outcome = .panicked payload := by
  change (routine.andThen rest).RunsAmong fuel caller @runner x legs outcome z at hruns
  induction routine generalizing x legs with
  | ended first =>
      cases first with
      | returned a => exact .inl ⟨a, x, [], legs, .ended .refl, hruns, rfl⟩
      | panicked payload =>
          obtain ⟨rfl, rfl, hlater⟩ := runsAmong_ended hruns
          exact .inr ⟨payload, .ended hlater, rfl⟩
  | step pause change next ih =>
      cases hruns with
      | step hlater hover hmakes hrest =>
          rcases ih _ hrest with ⟨a, y, first, second, hfirst, hsecond, rfl⟩ | ⟨payload, hfirst, rfl⟩
          · exact .inl ⟨a, y, _, second, .step hlater hover hmakes hfirst, hsecond, rfl⟩
          · exact .inr ⟨payload, .step hlater hover hmakes hfirst, rfl⟩
  | call program next ih =>
      cases hruns with
      | call hlater hstart hcall hfinish hrest =>
          rcases ih _ hrest with ⟨a, y, first, second, hfirst, hsecond, rfl⟩ | ⟨payload, hfirst, rfl⟩
          · exact .inl ⟨a, y, _, second, .call hlater hstart hcall hfinish hfirst, hsecond, rfl⟩
          · exact .inr ⟨payload, .call hlater hstart hcall hfinish hfirst, rfl⟩

/-- A routine whose panic is caught goes the same way and returns how it ended. -/
theorem runsAmong_attempt {routine : Routine H α} {outcome : Outcome (Outcome α)}
    (hruns : routine.attempt.RunsAmong fuel caller @runner x legs outcome y) :
    ∃ ending, outcome = .returned ending ∧
      routine.RunsAmong fuel caller @runner x legs ending y := by
  induction routine generalizing x legs with
  | ended ending =>
      obtain ⟨rfl, rfl, hlater⟩ := runsAmong_pure hruns
      exact ⟨ending, rfl, .ended hlater⟩
  | step pause change next ih =>
      cases hruns with
      | step hlater hover hmakes hrest =>
          obtain ⟨ending, rfl, hends⟩ := ih _ hrest
          exact ⟨ending, rfl, .step hlater hover hmakes hends⟩
  | call program next ih =>
      cases hruns with
      | call hlater hstart hcall hfinish hrest =>
          obtain ⟨ending, rfl, hends⟩ := ih _ hrest
          exact ⟨ending, rfl, .call hlater hstart hcall hfinish hends⟩

theorem runsAmong_run {r : Reply} {program : Program H r} {outcome : Outcome (r.Carrier H)}
    (hruns : (run program).RunsAmong fuel caller @runner x legs outcome y) :
    ∃ c : Call H r, c.program = program ∧ legs = [.called c] ∧ outcome = c.outcome ∧
      ∃ start finish, x.Later fuel start ∧ start.world = c.start ∧
        (runner c.program).EndsAmong fuel caller start c.outcome finish ∧ finish.world = c.finish ∧
        finish.Later fuel y := by
  cases hruns with
  | call hlater hstart hcall hfinish hrest =>
      obtain ⟨rfl, rfl, hafter⟩ := runsAmong_ended hrest
      exact ⟨_, rfl, rfl, rfl, _, _, hlater, hstart, hcall, hfinish, hafter⟩

section First

variable {outcome : Outcome β}

theorem runsAmong_update_bind {f : World H → α × World H} {rest : α → Routine H β}
    (hruns : (update f >>= rest).RunsAmong fuel caller @runner x legs outcome y) :
    ∃ s later, x.Later fuel s.found ∧ s.Makes caller (fun w => (f w).2) ∧ legs = .own s :: later ∧
      (rest (f s.found.world).1).RunsAmong fuel caller @runner s.left later outcome y := by
  cases hruns with
  | step hlater _ hmakes hrest => exact ⟨_, _, hlater, hmakes, rfl, hrest⟩

theorem runsAmong_change_bind {f : World H → World H} {rest : Unit → Routine H β}
    (hruns : (change f >>= rest).RunsAmong fuel caller @runner x legs outcome y) :
    ∃ s later, x.Later fuel s.found ∧ s.Makes caller f ∧ legs = .own s :: later ∧
      (rest ()).RunsAmong fuel caller @runner s.left later outcome y :=
  runsAmong_update_bind (f := fun w => ((), f w)) hruns

theorem runsAmong_view_bind {f : World H → α} {rest : α → Routine H β}
    (hruns : (view f >>= rest).RunsAmong fuel caller @runner x legs outcome y) :
    ∃ s later, x.Later fuel s.found ∧ s.Makes caller id ∧ legs = .own s :: later ∧
      (rest (f s.found.world)).RunsAmong fuel caller @runner s.left later outcome y :=
  runsAmong_update_bind (f := fun w => (f w, w)) hruns

end First

/-- What a caller does that plays a routine is a run of the routine. -/
theorem runsAmong_of_endsAmong {routine : Routine H α} {outcome : Outcome α}
    (hends : (routine.play @runner).EndsAmong fuel caller x outcome y) :
    ∃ legs, routine.RunsAmong fuel caller @runner x legs outcome y := by
  induction routine generalizing x with
  | ended outcome' =>
      cases hends with
      | ended hlater => exact ⟨[], .ended hlater⟩
  | step pause change next ih =>
      cases hends with
      | step hlater hover hmakes hrest =>
          obtain ⟨legs, hruns⟩ := ih _ hrest
          exact ⟨_, .step hlater hover hmakes hruns⟩
  | call program next ih =>
      obtain ⟨ending, z, hcall, hrest⟩ := Act.endsAmong_attempt_andThen hends
      obtain ⟨legs, hruns⟩ := ih ending hrest
      let c : Call H _ := ⟨program, x.world, ending, z.world⟩
      exact ⟨_, .call (c := c) .refl rfl hcall rfl hruns⟩

end Routine

namespace Machine

variable {m m' : Machine H} {x : Workforce H}

/-- The steps that the first thread takes without having to wait are among workers that stay where they
are. -/
theorem Embodies.advance_among (fuel : Nat) {act : Act H α} (hm : m.Embodies x)
    (hquiet : act.Quiet) :
    ∃ y, Embodies ⟨(act.advance m.world).2, m.threads, m.started⟩ y ∧
      ∀ outcome z, (act.advance m.world).1.EndsAmong fuel none y outcome z →
        act.EndsAmong fuel none x outcome z := by
  induction act generalizing m x with
  | ended outcome => exact ⟨x, hm, fun _ _ hends => hends⟩
  | step pause change next ih =>
      rw [Act.advance]
      by_cases hover : pause.isOver m.world = true
      · rw [if_pos hover]
        have hstep : x.world.Quiet (change m.world) := by
          rw [hm.world]
          exact hquiet.1 _ hover
        let s : Stride H := ⟨x, x.inWorld (change m.world) hstep.2.workers.length_le⟩
        have hmakes : s.Makes none change := ⟨by rw [hm.world]; rfl, fun _ _ => rfl⟩
        have hfound : s.found.world = m.world := hm.world
        obtain ⟨y, hy, hrest⟩ :=
          ih m.world (hm.inWorld hstep.2.workers.length_le) (hquiet.2 _)
        refine ⟨y, hy, fun outcome z hends => .step (s := s) .refl (hfound ▸ hover) hmakes ?_⟩
        rw [hfound]
        exact hrest outcome z hends
      · rw [if_neg hover]
        exact ⟨x, hm, fun _ _ hends => hends⟩

/-- What the machine does for its first thread is possible among workers. -/
theorem Embodies.endsAmong {act : Act H α} {rounds : Nat} {outcome : Outcome α} (hm : m.Embodies x)
    (hquiet : act.Quiet) (hdrive : drive fuel rounds act m = some (outcome, m')) :
    ∃ y, m'.Embodies y ∧ act.EndsAmong fuel none x outcome y := by
  induction rounds generalizing act m x with
  | zero => cases hdrive
  | succ rounds ih =>
      obtain ⟨y, hy, hrest⟩ := hm.advance_among fuel hquiet
      rcases drive_succ hdrive with ⟨hended, rfl⟩ | ⟨m₁, hdrive', hturns⟩
      · exact ⟨y, hy, hrest _ _ (hended ▸ .ended .refl)⟩
      · obtain ⟨z, hlater, hz⟩ := hturns y hy
        obtain ⟨last, hlast, hends⟩ := ih hz (hquiet.advance m.world) hdrive'
        exact ⟨last, hlast, hrest _ _ (hends.later hlater)⟩

/-- Seen from the world alone, it is possible among others who move the world. -/
theorem Embodies.runs {routine : Routine H α} {runner : Runner H} {rounds : Nat} {outcome : Outcome α}
    (hm : m.Embodies x) (hquiet : (routine.play @runner).Quiet)
    (hdrive : drive fuel rounds (routine.play @runner) m = some (outcome, m')) :
    ∃ marks, routine.Runs Move @runner m.world marks outcome m'.world := by
  obtain ⟨y, hy, hends⟩ := hm.endsAmong hquiet hdrive
  rw [← hm.world, ← hy.world]
  exact Routine.runs_of_ends hends.ends

/-- What the machine does for its first thread, when that plays a routine, is a run of the routine. -/
theorem Embodies.runsAmong {routine : Routine H α} {runner : Runner H} {rounds : Nat}
    {outcome : Outcome α} (hm : m.Embodies x) (hquiet : (routine.play @runner).Quiet)
    (hdrive : drive fuel rounds (routine.play @runner) m = some (outcome, m')) :
    ∃ legs y, m'.Embodies y ∧ routine.RunsAmong fuel none @runner x legs outcome y := by
  obtain ⟨y, hy, hends⟩ := hm.endsAmong hquiet hdrive
  obtain ⟨legs, hruns⟩ := Routine.runsAmong_of_endsAmong hends
  exact ⟨legs, y, hy, hruns⟩

end Machine

end TimedInvocation
