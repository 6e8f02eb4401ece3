import TimedInvocation.Proofs.Bodies

/-!
# Prompt bodies

A body that comes to its end in time keeps its outcome, whichever way it is run. Only a body that is
still running at its deadline is reported to have timed out, with one exception: on the caller's thread
a cancelled token counts as an overrun, whoever has cancelled it, and that may be the body itself.
-/

namespace TimedInvocation

open Relation World

variable {H : Host}

section Alarms

variable {w : World H} {t : TokenId}

theorem World.isCancelled_foldl_cancel {tokens : List TokenId} (hother : t ∉ tokens) :
    (tokens.foldl cancel w).isCancelled t = w.isCancelled t := by
  induction tokens generalizing w with
  | nil => rfl
  | cons t' rest ih =>
      rw [List.mem_cons, not_or] at hother
      rw [List.foldl_cons, ih hother.2]
      simp [isCancelled, cancel, List.getElem?_set_ne (Ne.symm hother.1)]

/-- An alarm cancels its token at its time and not before. -/
theorem World.isCancelled_moveTo {time : Nat}
    (hlater : ∀ alarm ∈ w.alarms, alarm.token = t → max w.clock time < alarm.time) :
    (w.moveTo time).isCancelled t = w.isCancelled t := by
  rw [moveTo, isCancelled_foldl_cancel]
  · rfl
  · intro hmem
    obtain ⟨alarm, hdue, htoken⟩ := List.mem_map.mp hmem
    simp only [List.partition_eq_filter_filter, List.mem_filter, decide_eq_true_eq] at hdue
    exact absurd (hlater alarm hdue.1 htoken) (Nat.not_lt.mpr hdue.2)

end Alarms

section Watch

variable {fuel : Nat} {caller : Option WorkerId} {kind : Kind} {duration : Duration}
  {legs : List (Leg H)} {outcome : Outcome (Except InvocationError H.Result)}

/-- A caller makes a token and then reads the clock, and in all its own steps sets no alarm but one for that
token, at the time at which the limit will have passed. -/
def Watched (limit : Nat) (token : TokenId) (legs : List (Leg H)) : Prop :=
  ∃ (logged made read : Stride H) (later : List (Leg H)),
    legs = .own logged :: .own made :: .own read :: later ∧ token = made.found.world.newToken.1 ∧
      ∀ s, .own s ∈ legs → ∀ alarm ∈ s.left.world.alarms, alarm ∈ s.found.world.alarms ∨
        alarm = ⟨read.found.world.clock + limit, token⟩

theorem Stride.Makes.alarms_eq {change : World H → World H} {s : Stride H}
    (hmakes : s.Makes caller change) (hchange : ∀ w, (change w).alarms = w.alarms) :
    s.left.world.alarms = s.found.world.alarms :=
  hmakes.1 ▸ hchange _

/-- Once the body has ended its caller sets no alarm. -/
theorem Judged.alarms_eq {token : TokenId} {start : Nat} {ending : Outcome (Except Failure H.Result)}
    (hjudged : Judged caller kind duration token start ending legs outcome) {s : Stride H}
    (hs : .own s ∈ legs) : s.left.world.alarms = s.found.world.alarms := by
  cases hjudged with
  | panicked => cases hs
  | inTime htimed hlooked =>
      simp only [List.mem_cons, Leg.own.injEq, List.not_mem_nil, or_false] at hs
      rcases hs with rfl | rfl
      · exact htimed.alarms_eq fun _ => rfl
      · exact hlooked.alarms_eq fun _ => rfl
  | overran htimed hlooked hreported =>
      simp only [List.mem_cons, Leg.own.injEq, List.not_mem_nil, or_false] at hs
      rcases hs with rfl | rfl | rfl
      · exact htimed.alarms_eq fun _ => rfl
      · exact hlooked.alarms_eq fun _ => rfl
      · exact hreported.alarms_eq fun _ => rfl

/-- On the caller's thread a body is watched by one alarm, which is set for when the limit has passed. -/
theorem Routine.runWithTimeout_watched {e : EnforcerId} {body : TokenId → Program H .result}
    {mode : ThreadMode} {runner : Runner H} {x y : Workforce H} (hmode : mode ≠ .separateThread)
    (hruns : (Routine.runWithTimeout e kind (some ⟨duration, mode⟩) body).RunsAmong fuel caller @runner x
      legs outcome y) :
    ∃ (token : TokenId) (call : Call H .result), call.program = body token ∧ .called call ∈ legs ∧
      Watched duration.toSpan.toNanos token legs := by
  obtain ⟨logged, later, -, hlogged, rfl, honCaller⟩ := runsAmong_change_bind hruns
  cases mode with
  | separateThread => exact absurd rfl hmode
  | sameThread | inferred =>
      obtain ⟨made, read, alarmed, recorded, cleared, call, later, hmade, hread, halarmed, hrecorded,
        hprogram, hcleared, rfl, hjudged⟩ := runOnCaller_runsAmong honCaller
      refine ⟨_, call, hprogram, by simp, logged, made, read, _, rfl, rfl, fun s hs alarm hset => ?_⟩
      simp only [List.mem_cons, Leg.own.injEq, reduceCtorEq, false_or] at hs
      rcases hs with rfl | rfl | rfl | rfl | rfl | rfl | hlater
      · exact .inl (hlogged.alarms_eq (fun _ => rfl) ▸ hset)
      · exact .inl (hmade.alarms_eq (fun _ => rfl) ▸ hset)
      · exact .inl (hread.alarms_eq (fun _ => rfl) ▸ hset)
      · rw [halarmed.1] at hset
        simpa [World.setAlarm] using hset
      · exact .inl (hrecorded.alarms_eq (fun _ => rfl) ▸ hset)
      · rw [hcleared.1] at hset
        exact .inl (List.mem_filter.mp hset).1
      · exact .inl (hjudged.alarms_eq hlater ▸ hset)

end Watch

/-- What the caller of a worker is told. Unless it is the outcome of the body, there is a reason: there
is no worker to be had, a stop is requested, or the worker has not come to its end once the limit has
passed. -/
inductive Prompt (fuel : Nat) (e : EnforcerId) (kind : Kind) (duration : Duration)
    (body : TokenId → Program H .result) (x : Workforce H) (own : List (Stride H)) :
    Outcome (Except InvocationError H.Result) → Workforce H → Prop where
  | kept {launch : Launch H} {start : Nat} {ending : Outcome (Except Failure H.Result)} {w : World H}
      {last : Workforce H} (hlaunched : Launched body x own launch start)
      (hends : (launch.act fuel).Ends Move launch.after ending w) :
      Prompt fuel e kind duration body x own (bodyOutcome ending) last
  | unspawned {s : Stride H} {message : String} {last : Workforce H} (hmem : s ∈ own)
      (hspawn : s.Spawns (some message)) :
      Prompt fuel e kind duration body x own
        (.returned (.error (.workerSpawn (.single message)))) last
  | stopped {s : Stride H} {last : Workforce H} (hmem : s ∈ own)
      (hstop : s.found.world.stopRequested e = true) :
      Prompt fuel e kind duration body x own (.returned (.error (.cancelled kind))) last
  | late {s : Stride H} {launch : Launch H} {start : Nat} {error : TimeoutError} {last : Workforce H}
      (hmem : s ∈ own) (hlaunched : Launched body x own launch start)
      (hlimit : start + duration.toSpan.toNanos ≤ s.found.world.clock)
      (hrunning : s.found.place launch.id ≠ .gone) :
      Prompt fuel e kind duration body x own (.returned (.error (.timeout error))) last

theorem Supervised.prompt {fuel : Nat} {e : EnforcerId} {kind : Kind} {duration : Duration}
    {body : TokenId → Program H .result} {x last : Workforce H} {own : List (Stride H)}
    {outcome : Outcome (Except InvocationError H.Result)}
    (hlaw : Supervised fuel e kind duration body x own outcome last) :
    Prompt fuel e kind duration body x own outcome last := by
  cases hlaw with
  | unspawned hmem hspawn _ => exact .unspawned hmem hspawn
  | spawned _ _ hlaunched hnext _ hreported hverdict =>
      cases hverdict with
      | finished _ hends _ _ => exact .kept hlaunched hends
      | stopped _ hstop _ => exact .stopped (hnext.subset (by simp)) hstop
      | timedOut hresult _ hdeadline _ _ =>
          refine .late (hnext.subset (by simp)) hlaunched hdeadline ?_
          simp [hreported, hresult]

/-- A body keeps its outcome if it comes to its end in time. Without a timeout it always does. On the
caller's thread it does unless the caller finds that the limit has passed or that the token is
cancelled; the only alarm that the caller sets is for when the limit has passed, and an alarm does not
cancel the token before its time. On a worker it does unless the worker has not come to its end when the
limit has passed, or a stop is requested. -/
theorem prompt_body_keeps_outcome (fuel : Nat) (e : EnforcerId) (kind : Kind) (duration : Duration)
    (body : TokenId → Program H .result) :
    (∀ runner : Runner H, Runner.Moves @runner →
      ∀ (w w' : World H) marks outcome,
      (Routine.runWithTimeout e kind none body).Runs Move @runner w marks outcome w' →
      ∃ (token : TokenId) (call : Call H .result), call.program = body token ∧
        marks = call.marks (.body token) ∧ outcome = bodyOutcome call.outcome) ∧
    (∀ runner : Runner H, Runner.Moves @runner → ∀ mode, mode ≠ .separateThread →
      ∀ (w w' : World H) marks outcome,
      (Routine.runWithTimeout e kind (some ⟨duration, mode⟩) body).Runs Move @runner w marks outcome w' →
      ∃ (token : TokenId) (call : Call H .result), call.program = body token ∧
        marks = call.marks (.body token) ∧
        (outcome = bodyOutcome call.outcome ∨ ∃ result error seen,
          call.outcome = .returned result ∧ error.actionError = actionError result ∧
          outcome = .returned (.error (.timeout error)) ∧ Meanwhile call.finish seen ∧
          (w.clock + duration.toSpan.toNanos < seen.clock ∨ seen.isCancelled token = true))) ∧
    (∀ (w : World H) (t : TokenId) (time : Nat),
      (∀ alarm ∈ w.alarms, alarm.token = t → max w.clock time < alarm.time) →
      (w.moveTo time).isCancelled t = w.isCancelled t) ∧
    (∀ (runner : Runner H) (caller : Option WorkerId) mode, mode ≠ .separateThread →
      ∀ (x y : Workforce H) legs outcome,
      (Routine.runWithTimeout e kind (some ⟨duration, mode⟩) body).RunsAmong fuel caller @runner x legs
        outcome y →
      ∃ (token : TokenId) (call : Call H .result), call.program = body token ∧ .called call ∈ legs ∧
        Watched duration.toSpan.toNanos token legs) ∧
    ∀ (x : Workforce H) (caller : Option WorkerId), (∀ c ∈ caller, c < x.world.workers.length) →
      (Routine.runWithTimeout e kind (some ⟨duration, .separateThread⟩) body).Guarantees fuel caller
        (Unsettled e duration body x) (Prompt fuel e kind duration body x) [] x := by
  refine ⟨?_, ?_, fun w t time hlater => isCancelled_moveTo hlater, ?_, ?_⟩
  · intro runner hrunner w w' marks outcome hruns
    exact Routine.runWithoutTimeout_runs hruns
  · intro runner hrunner mode hmode w w' marks outcome hruns
    obtain ⟨w₁, hwait, hlogged⟩ := Routine.runs_log_bind hruns
    have hclock : w.clock ≤ w₁.clock := World.Meanwhile.clock_le hwait
    cases mode with
    | separateThread => exact absurd rfl hmode
    | sameThread | inferred =>
        obtain ⟨token, call, hprogram, hmarks, houtcome⟩ := Routine.runOnCaller_runs hlogged
        refine ⟨token, call, hprogram, hmarks, houtcome.imp id ?_⟩
        rintro ⟨result, error, seen, hreturned, hkept, hlate, hseen, hreason⟩
        exact ⟨result, error, seen, hreturned, hkept, hlate, hseen,
          hreason.imp (Nat.lt_of_le_of_lt (Nat.add_le_add_right hclock _)) id⟩
  · intro runner caller mode hmode x y legs outcome hruns
    exact Routine.runWithTimeout_watched hmode hruns
  · intro x caller hcaller
    exact (Routine.runWithTimeout_guarantees hcaller).mono fun _ _ _ hlaw => hlaw.prompt

namespace Prompt

/-- A machine with an enforcer whose stop is not requested. -/
def machine : Machine Host.bare :=
  ⟨((World.initial ()).newToken.2.newEnforcer 0 false).2, [], 0⟩

def runner : Runner Host.bare := fun program => program.exec 3 none

def hour : Duration :=
  ⟨1, .hours, by decide, by decide⟩

/-- One of the ways to run a body: what comes of it, and the machine after that. -/
def run (timeout : Option EffectiveTimeout) (body : TokenId → Program Host.bare .result) :
    Option (Outcome (Except InvocationError Unit) × Machine Host.bare) :=
  Machine.drive 3 9 ((Routine.runWithTimeout 0 .test timeout body).play @runner) machine

/-- A body that fails at once. -/
def failing : TokenId → Program Host.bare .result := fun _ =>
  .finish (.error (.plain (.single "broken")))

end Prompt

open Prompt in
theorem prompt_body_keeps_outcome_failing :
    let failure : Outcome (Except InvocationError Unit) :=
      .returned (.error (.action (.single "broken")))
    let sameThread : EffectiveTimeout := ⟨hour, .sameThread⟩
    let separateThread : EffectiveTimeout := ⟨hour, .separateThread⟩
    ∃ m₁ m₂ x, machine.Embodies x ∧
      Prompt.run none failing = some (failure, m₁) ∧
      Prompt.run (some sameThread) failing = some (failure, m₂) ∧
      (∃ (token : TokenId) (call : Call Host.bare .result), call.program = failing token ∧
        failure = bodyOutcome call.outcome) ∧
      (∃ (token : TokenId) (call : Call Host.bare .result), call.program = failing token ∧
        (failure = bodyOutcome call.outcome ∨ ∃ error seen,
          failure = .returned (.error (.timeout error)) ∧ Meanwhile call.finish seen ∧
          (machine.world.clock + hour.toSpan.toNanos < seen.clock ∨
            seen.isCancelled token = true))) ∧
      ((machine.world.setAlarm 0 7).moveTo 6).isCancelled 0 = false ∧
      (∃ (legs : List (Leg Host.bare)) (token : TokenId) (call : Call Host.bare .result),
        call.program = failing token ∧ .called call ∈ legs ∧ Watched hour.toSpan.toNanos token legs) ∧
      (Routine.runWithTimeout 0 .test (some separateThread) failing).Guarantees 3 none
        (Unsettled 0 hour failing x) (Prompt 3 0 .test hour failing x) [] x := by
  intro failure sameThread separateThread
  obtain ⟨x, hx⟩ := Machine.embodies_of_no_threads machine.world
  have hrunner : Runner.Moves @runner := Program.moves_exec 3 none
  have hplay (timeout : Option EffectiveTimeout) :
      ((Routine.runWithTimeout 0 .test timeout failing).play @runner).Quiet :=
    (Routine.compositional_composed.runWithTimeout _ _ _ _).quiet.play
      fun program => program.quiet_exec 3 none
  have hnone : Prompt.run none failing = some (failure, ((Prompt.run none failing).get rfl).2) := rfl
  have hsame : Prompt.run (some sameThread) failing =
      some (failure, ((Prompt.run (some sameThread) failing).get rfl).2) := rfl
  have hlaw := prompt_body_keeps_outcome 3 0 .test hour failing
  obtain ⟨marks₁, hruns₁⟩ := hx.runs (hplay none) hnone
  obtain ⟨token₁, call₁, hprogram₁, -, houtcome₁⟩ := hlaw.1 @runner hrunner _ _ _ _ hruns₁
  obtain ⟨marks₂, hruns₂⟩ := hx.runs (hplay (some sameThread)) hsame
  obtain ⟨token₂, call₂, hprogram₂, -, houtcome₂⟩ :=
    hlaw.2.1 @runner hrunner .sameThread (by decide) _ _ _ _ hruns₂
  obtain ⟨legs, y, -, hruns₃⟩ := hx.runsAmong (hplay (some sameThread)) hsame
  have hwatched := hlaw.2.2.2.1 @runner none .sameThread (by decide) x y legs _ hruns₃
  refine ⟨_, _, x, hx, hnone, hsame, ⟨token₁, call₁, hprogram₁, houtcome₁⟩,
    ⟨token₂, call₂, hprogram₂, houtcome₂.imp id ?_⟩,
    hlaw.2.2.1 (machine.world.setAlarm 0 7) 0 6 (by decide), ⟨legs, hwatched⟩,
    hlaw.2.2.2.2 x none (by simp)⟩
  rintro ⟨result, error, seen, -, -, hlate, hseen, hreason⟩
  exact ⟨error, seen, hlate, hseen, hreason⟩

open Prompt in
/-- A body that cancels its token and returns at once keeps its outcome without a timeout and on a
worker. On the caller's thread it is reported to have timed out, although no time has passed and no stop
is requested. -/
theorem prompt_body_reported_late :
    let body : TokenId → Program Host.bare .result := fun token =>
      .call (.cancel token) fun _ => .finish (.ok ())
    let report (timeout : Option EffectiveTimeout) := (Prompt.run timeout body).map fun (outcome, m) =>
      (outcome, m.world.clock, m.world.stopRequested 0)
    let late : TimeoutError := ⟨.test, hour, 0, .sameThread, none⟩
    report none = some (.returned (.ok ()), 0, false) ∧
    report (some ⟨hour, .separateThread⟩) = some (.returned (.ok ()), 0, false) ∧
    report (some ⟨hour, .sameThread⟩) = some (.returned (.error (.timeout late)), 0, false) ∧
    report (some ⟨hour, .inferred⟩) = some (.returned (.error (.timeout late)), 0, false) :=
  ⟨rfl, rfl, rfl, rfl⟩

end TimedInvocation
