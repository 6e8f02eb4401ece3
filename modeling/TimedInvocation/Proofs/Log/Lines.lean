import TimedInvocation.Log.Filter
import TimedInvocation.Proofs.Log.Entries
import TimedInvocation.Proofs.Log.Reporting
import TimedInvocation.Proofs.Schedule

/-!
# Lines of the log

Whatever programs do, and in whatever order the threads take their steps, the log consists of notices of the
library. Under a filter each of them is written as one line, apart from the complaints about a mode, which take
one line more, and from line feeds in the texts of others that are shown as they are.
-/

namespace TimedInvocation

open Text

variable {H : Host} {α : Type}

/-- What may be left of an act after some of its steps, whatever worlds these find. -/
inductive Act.Leaves (act : Act H α) : Act H α → Prop where
  | all : Leaves act act
  | after {pause : Pause H} {change : World H → World H} {next : World H → Act H α} (w : World H)
      (hleft : Leaves act (.step pause change next)) : Leaves act (next w)

theorem Act.Reporting.leaves {act left : Act H α} (hact : act.Reporting) (hleft : act.Leaves left) :
    left.Reporting := by
  induction hleft with
  | all => exact hact
  | after w _ ih => exact ih.2 w

/-- The worlds that programs lead to. At first nothing has been made. Then threads that run programs take
their steps in any order, results of workers are delivered, and the clock moves. -/
inductive World.Produced : World H → Prop where
  | initial (state : H.State) : Produced (initial state)
  | acted {w : World H} {fuel : Nat} {worker : Option Nat} {r : Reply} {program : Program H r}
      {pause : Pause H} {change : World H → World H} {next : World H → Act H (r.Carrier H)}
      (hw : Produced w) (hleft : (program.exec fuel worker).Leaves (.step pause change next))
      (hover : pause.isOver w = true) : Produced (change w)
  | delivered {w : World H} (hw : Produced w) (id : WorkerId)
      (result : Outcome (Except Failure H.Result)) : Produced (w.deliver id result)
  | moved {w : World H} (hw : Produced w) (time : Nat) : Produced (w.moveTo time)

/-- All that is in the log are notices. -/
theorem World.Produced.reported {w : World H} (hw : w.Produced) : Reported H [] w.log := by
  induction hw with
  | initial state => exact .refl
  | acted _ hleft _ ih => exact ih.trans (((Program.reporting_exec _ _ _).leaves hleft).1 _)
  | delivered _ id result ih => exact ih
  | moved _ time ih => exact ih.trans (World.reports_moveTo _ time)

section Machine

variable {fuel : Nat}

theorem World.Produced.advance {worker : Option Nat} {r : Reply} {program : Program H r}
    {act : Act H (r.Carrier H)} {w : World H} (hw : w.Produced)
    (hleft : (program.exec fuel worker).Leaves act) :
    (act.advance w).2.Produced ∧ (program.exec fuel worker).Leaves (act.advance w).1 := by
  induction act generalizing w with
  | ended outcome => exact ⟨hw, hleft⟩
  | step pause change next ih =>
      rw [Act.advance]
      split
      · next hover => exact ih w (.acted hw hleft hover) (.after w hleft)
      · exact ⟨hw, hleft⟩

/-- The thread is in the middle of a program. -/
def Thread.Runs (fuel : Nat) (thread : Thread H) : Prop :=
  ∃ (worker : Option Nat) (body : Program H .result), (body.exec fuel worker).Leaves thread.act

theorem World.Produced.turn {w : World H} (hw : w.Produced) {thread : Thread H}
    (hthread : thread.Runs fuel) :
    (thread.turn w).2.Produced ∧ ∀ left ∈ (thread.turn w).1, left.Runs fuel := by
  obtain ⟨worker, body, hleft⟩ := hthread
  obtain ⟨hworld, hrest⟩ := hw.advance hleft
  rw [Thread.turn]
  cases hadvance : thread.act.advance w with
  | mk act w' =>
      rw [hadvance] at hworld hrest
      cases act with
      | ended outcome => exact ⟨hworld.delivered _ _, by simp⟩
      | step pause change next =>
          refine ⟨hworld, fun left hmem => ?_⟩
          obtain rfl := Option.mem_some_iff.mp hmem
          exact ⟨worker, body, hrest⟩

/-- The world is one that programs lead to, and the threads are in the middle of programs. -/
structure Machine.Produced (fuel : Nat) (m : Machine H) : Prop where
  world : m.world.Produced
  threads : ∀ thread ∈ m.threads, thread.Runs fuel

namespace Machine.Produced

variable {m m' : Machine H}

theorem startThreads (hm : m.Produced fuel) : (m.startThreads fuel).Produced fuel := by
  refine ⟨hm.world, fun thread hmem => ?_⟩
  rcases List.mem_append.mp hmem with hold | hnew
  · exact hm.threads thread hold
  · obtain ⟨⟨worker, id⟩, _, rfl⟩ := List.mem_map.mp hnew
    exact ⟨some worker.number, worker.body, .all⟩

theorem turn? (hm : m.Produced fuel) (hturn : m.turn? = some m') : m'.Produced fuel := by
  obtain ⟨⟨left, w⟩, hfirst, rfl⟩ := Option.map_eq_some_iff.mp hturn
  obtain ⟨before, thread, after, hthreads, rfl, rfl⟩ := turnOfFirst_cases hfirst
  obtain ⟨hworld, hrest⟩ := hm.world.turn (hm.threads thread (by simp [hthreads]))
  refine ⟨hworld, fun t hmem => ?_⟩
  simp only [List.mem_append, Option.mem_toList] at hmem
  rcases hmem with hbefore | hturned | hafter
  · exact hm.threads t (by simp [hthreads, hbefore])
  · exact hrest t hturned
  · exact hm.threads t (by simp [hthreads, hafter])

theorem drive {worker : Option Nat} {r : Reply} {program : Program H r} {act : Act H (r.Carrier H)}
    {rounds : Nat} {outcome : Outcome (r.Carrier H)} (hm : m.Produced fuel)
    (hleft : (program.exec fuel worker).Leaves act)
    (hdrive : Machine.drive fuel rounds act m = some (outcome, m')) : m'.Produced fuel := by
  induction rounds generalizing act m with
  | zero => cases hdrive
  | succ rounds ih =>
      obtain ⟨hworld, hrest⟩ := hm.world.advance hleft
      rw [Machine.drive] at hdrive
      cases hadvance : act.advance m.world with
      | mk left w =>
          rw [hadvance] at hworld hrest hdrive
          cases left with
          | ended outcome' =>
              obtain ⟨rfl, rfl⟩ := Prod.mk.inj (Option.some.inj hdrive)
              exact ⟨hworld, hm.threads⟩
          | step pause change next =>
              have hstarted : (Machine.startThreads fuel ⟨w, m.threads, m.started⟩).Produced fuel :=
                startThreads ⟨hworld, hm.threads⟩
              simp only at hdrive
              split at hdrive
              · next m₁ hturn => exact ih (hstarted.turn? hturn) hrest hdrive
              · split at hdrive
                · cases hdrive
                · refine ih ?_ hrest hdrive
                  exact ⟨hstarted.world.moved _, hstarted.threads⟩

end Machine.Produced

/-- What the machine leaves behind when it has run a program is a world that programs lead to. -/
theorem Machine.produced_run {r : Reply} {program : Program H r} {state : H.State}
    {outcome : Outcome (r.Carrier H)} {m : Machine H}
    (hrun : Machine.run fuel program (.initial state) = some (outcome, m)) : m.world.Produced :=
  (Machine.Produced.drive ⟨.initial state, by simp [Machine.initial]⟩ .all hrun).world

end Machine

theorem Notice.one_line_iff (n : Notice H) :
    '\n' ∉ n.event.body.toList ↔ n.listsValues = false ∧ ∀ text ∈ n.texts, '\n' ∉ text.toList := by
  rw [← lineFeeds_eq_zero, n.lineFeeds_body, Nat.add_eq_zero_iff, lineFeedsIn_eq_zero, Bool.toNat_eq_zero]

/-- The notices that a filter lets through. -/
def Notice.admitted (f : Filter) (notices : List (Notice H)) : List (Notice H) :=
  notices.filter fun n => f.admits n.event

/-- What is written for some notices has a line feed for each of them that is let through, and beyond these
only the line feeds in lists of known values and in the texts of others. -/
theorem Notice.lineFeeds_writeLog (f : Filter) (notices : List (Notice H)) :
    lineFeeds (writeLog f (notices.map event)) =
      (admitted f notices).length + (admitted f notices).countP listsValues +
        lineFeedsIn ((admitted f notices).flatMap texts) := by
  have hentries (list : List (Notice H)) : lineFeedsIn (list.map fun n => n.event.entry) =
      list.length + list.countP listsValues + lineFeedsIn (list.flatMap texts) := by
    induction list with
    | nil => rfl
    | cons n rest ih =>
        simp only [List.map_cons, lineFeedsIn, Event.lineFeeds_entry, n.lineFeeds_body, ih, List.length_cons,
          List.countP_cons, List.flatMap_cons, lineFeedsIn_append]
        cases n.listsValues <;> simp <;> omega
  rw [writeLog, lineFeeds_join, List.filter_map, List.map_map]
  exact hentries _

/-- A unique id with a line feed can forge any entry. -/
theorem Notice.entry_forged (uniqueId : String) (n : Notice H) :
    (closingScope (uniqueId ++ "\n" ++ n.event.body) : Notice H).event.entry =
      (closingScope uniqueId : Notice H).event.entry ++ n.event.entry := by
  simp [event, Event.entry, Event.body, FieldValue.write, String.append_assoc]

/-- Everything that is logged is written as an entry of one line, in the order of the log, unless it complains
about an unknown mode, which takes a line of its own for the known values, or is about a text that has line
feeds itself and is shown as it is. So what is written under a filter has a line for each notice that is let
through, and no others but those that come from these two causes. -/
theorem World.Produced.written_in_lines {w : World H} (hw : w.Produced) :
    ∃ notices : List (Notice H), w.log.reverse = notices.map Notice.event ∧
      (∀ n ∈ notices, n.event.entry = n.event.body ++ "\n" ∧
        ('\n' ∉ n.event.body.toList ↔
          n.listsValues = false ∧ ∀ text ∈ n.texts, '\n' ∉ text.toList)) ∧
      ∀ f : Filter, lineFeeds (writeLog f w.log.reverse) =
        (Notice.admitted f notices).length + (Notice.admitted f notices).countP Notice.listsValues +
          lineFeedsIn ((Notice.admitted f notices).flatMap Notice.texts) := by
  obtain ⟨notices, hlog⟩ := hw.reported
  rw [List.append_nil] at hlog
  have hreverse : w.log.reverse = notices.reverse.map Notice.event := by rw [hlog, List.map_reverse]
  refine ⟨notices.reverse, hreverse, fun n _ => ⟨rfl, n.one_line_iff⟩, fun f => ?_⟩
  rw [hreverse, Notice.lineFeeds_writeLog]

namespace Complaint

/-- An embedder whose sources answer whatever they are asked for with a word that is no mode. -/
def host : Host where
  State := Unit
  Result := Unit
  Source := Unit
  read _ _ _ := (some "fast", ())
  debugger _ := (false, ())
  spawn _ := (none, ())

def program : Program host .done :=
  .call (.newConfiguration () fun _ => (false, ())) fun _ => .finish (.ok ())

/-- The world in which the mode has been read. -/
def world : World host :=
  ((World.initial ()).newConfiguration () fun _ => (false, ())).2

theorem run_program :
    Machine.run 2 program (.initial ()) = some (.returned (.ok ()), ⟨world, [], 0⟩) :=
  rfl

theorem log_world : world.log.reverse =
    [Notice.unknownMode "fast", .modeRead .enabled false].map (Notice.event (H := host)) := by
  have hread : TimeoutMode.read? "fast" = none := by decide
  have hmode : TimeoutConfiguration.modeOfValue (some "fast") =
      (.enabled, [(Notice.unknownMode "fast" : Notice host).event]) := by
    unfold TimeoutConfiguration.modeOfValue
    dsimp only
    rw [hread]
    rfl
  simp only [world, World.newConfiguration, TimeoutConfiguration.new, host, hmode]
  rfl

theorem produced_world : world.Produced :=
  Machine.produced_run run_program

end Complaint

open Complaint in
/-- Both events of a run with an unknown mode are written as the law says. -/
theorem World.Produced.written_in_lines_with_complaint :
    world.Produced ∧ ∃ notices : List (Notice host), world.log.reverse = notices.map Notice.event ∧
      (∀ n ∈ notices, n.event.entry = n.event.body ++ "\n" ∧
        ('\n' ∉ n.event.body.toList ↔
          n.listsValues = false ∧ ∀ text ∈ n.texts, '\n' ∉ text.toList)) ∧
      ∀ f : Filter, lineFeeds (writeLog f world.log.reverse) =
        (Notice.admitted f notices).length + (Notice.admitted f notices).countP Notice.listsValues +
          lineFeedsIn ((Notice.admitted f notices).flatMap Notice.texts) :=
  ⟨produced_world, World.Produced.written_in_lines produced_world⟩

open Complaint in
/-- A run of a program logs the complaint about an unknown mode. Under the standard filter it is the only event
that is written, and what is written for it has two lines. -/
theorem complaint_takes_two_lines :
    Machine.run 2 program (.initial ()) = some (.returned (.ok ()), ⟨world, [], 0⟩) ∧
      (∃ e ∈ world.log.reverse, '\n' ∈ e.body.toList) ∧
      (world.log.reverse.filter Filter.standard.admits).length = 1 ∧
      lineFeeds (writeLog .standard world.log.reverse) = 2 := by
  have hcomplaint : '\n' ∈ (Notice.unknownMode "fast" : Notice host).event.body.toList := by
    by_contra hnone
    exact absurd ((Notice.one_line_iff _).mp hnone).1 (by decide)
  rw [log_world]
  exact ⟨run_program, ⟨_, List.mem_cons_self, hcomplaint⟩, rfl, Notice.lineFeeds_writeLog _ _⟩

end TimedInvocation
