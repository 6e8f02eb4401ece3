import TimedInvocation.Proofs.Supervision

/-!
# Bodies among workers

A body that is run under a timeout or without one is started once, on the caller's thread or on a worker,
unless there is no worker to be had. What the caller reports is decided by what it finds: without a timeout
how the body has ended, on its own thread how much time has passed and whether the token is cancelled once
the body has ended, and on a worker what is there at the poll that ends its wait.
-/

namespace TimedInvocation

open Relation World

variable {H : Host} {fuel : Nat} {caller : Option WorkerId} {e : EnforcerId} {kind : Kind}
  {duration : Duration} {body : TokenId → Program H .result}

theorem Harmless.setAlarm (t : TokenId) (time : Nat) : Harmless fun w : World H => w.setAlarm t time :=
  ⟨fun w => .alarmSet w t time, fun _ => rfl, fun _ _ => rfl⟩

theorem Harmless.clearAlarm (t : TokenId) : Harmless fun w : World H => w.clearAlarm t :=
  ⟨fun w => .alarmsCleared w t, fun _ => rfl, fun _ _ => rfl⟩

/-- What a caller reports of a body that it has run on its own thread since a point of time, and the steps
in which it has found that out. A panic goes on at once. Otherwise the caller looks at the clock and then at
the token. -/
inductive Judged (caller : Option WorkerId) (kind : Kind) (duration : Duration) (token : TokenId)
    (start : Nat) : Outcome (Except Failure H.Result) → List (Leg H) →
      Outcome (Except InvocationError H.Result) → Prop where
  | panicked {payload : Panic} :
      Judged caller kind duration token start (.panicked payload) [] (.panicked payload)
  | inTime {result : Except Failure H.Result} {timed looked : Stride H} (htimed : timed.Makes caller id)
      (hlooked : looked.Makes caller id)
      (htime : timed.found.world.clock - start ≤ duration.toSpan.toNanos)
      (htoken : looked.found.world.isCancelled token = false) :
      Judged caller kind duration token start (.returned result) [.own timed, .own looked]
        (.returned (actionResult result))
  | overran {result : Except Failure H.Result} {timed looked reported : Stride H} {event : Event}
      (htimed : timed.Makes caller id) (hlooked : looked.Makes caller id)
      (hreported : reported.Makes caller fun w => w.logged event)
      (hlate : looked.found.world.isCancelled token = true ∨
        duration.toSpan.toNanos < timed.found.world.clock - start) :
      Judged caller kind duration token start (.returned result)
        [.own timed, .own looked, .own reported]
        (.returned (.error (.timeout
          ⟨kind, duration, timed.found.world.clock - start, .sameThread, actionError result⟩)))

/-- Everything that a caller does to run a body, with what it comes to. Without a timeout, and on the
caller's thread, the body is called with a new token. Under a timeout an alarm is set for the token before,
and cleared afterwards. -/
inductive BodyLaw (fuel : Nat) (caller : Option WorkerId) (e : EnforcerId) (kind : Kind)
    (body : TokenId → Program H .result) (x : Workforce H) :
    Option EffectiveTimeout → List (Leg H) → Outcome (Except InvocationError H.Result) → Workforce H →
      Prop where
  | untimed {logged made recorded : Stride H} {event : Event} {call : Call H .result} {y : Workforce H}
      (hlogged : logged.Makes caller fun w => w.logged event)
      (hmade : made.Makes caller fun w => w.newToken.2)
      (hrecorded : recorded.Makes caller fun w => w.recorded (.body made.found.world.newToken.1))
      (hprogram : call.program = body made.found.world.newToken.1) :
      BodyLaw fuel caller e kind body x none [.own logged, .own made, .own recorded, .called call]
        (bodyOutcome call.outcome) y
  | onCaller {timeout : EffectiveTimeout} {logged made read alarmed recorded cleared : Stride H}
      {event : Event} {call : Call H .result} {later : List (Leg H)}
      {outcome : Outcome (Except InvocationError H.Result)} {y : Workforce H}
      (hmode : timeout.threadMode ≠ .separateThread)
      (hlogged : logged.Makes caller fun w => w.logged event)
      (hmade : made.Makes caller fun w => w.newToken.2) (hread : read.Makes caller id)
      (halarmed : alarmed.Makes caller fun w => w.setAlarm made.found.world.newToken.1
        (read.found.world.clock + timeout.duration.toSpan.toNanos))
      (hrecorded : recorded.Makes caller fun w => w.recorded (.body made.found.world.newToken.1))
      (hprogram : call.program = body made.found.world.newToken.1)
      (hcleared : cleared.Makes caller fun w => w.clearAlarm made.found.world.newToken.1)
      (hjudged : Judged caller kind timeout.duration made.found.world.newToken.1 read.found.world.clock
        call.outcome later outcome) :
      BodyLaw fuel caller e kind body x (some timeout)
        (.own logged :: .own made :: .own read :: .own alarmed :: .own recorded :: .called call ::
          .own cleared :: later) outcome y
  | onWorker {duration : Duration} {own : List (Stride H)}
      {outcome : Outcome (Except InvocationError H.Result)} {y : Workforce H}
      (hlaw : Supervised fuel e kind duration body x own outcome y) :
      BodyLaw fuel caller e kind body x (some ⟨duration, .separateThread⟩) (own.map .own) outcome y

section Marks

variable {x y : Workforce H} {timeout : Option EffectiveTimeout} {legs : List (Leg H)}
  {outcome : Outcome (Except InvocationError H.Result)}

theorem Stride.Makes.noted_recorded {o : Occurrence} {s : Stride H}
    (hmakes : s.Makes caller fun w => w.recorded o) : s.noted = [.noted o] :=
  noted_of_trace_cons (hmakes.1 ▸ rfl)

/-- Nothing is recorded once the body has ended, and the report never is that there was no worker. -/
theorem Judged.silent {token : TokenId} {start : Nat} {ending : Outcome (Except Failure H.Result)}
    (hjudged : Judged caller kind duration token start ending legs outcome) :
    legs.flatMap Leg.marks = [] ∧ ¬ Unspawned outcome := by
  cases hjudged with
  | panicked => exact ⟨rfl, not_unspawned_bodyOutcome (.panicked _)⟩
  | @inTime result _ _ htimed hlooked =>
      refine ⟨?_, not_unspawned_bodyOutcome (.returned result)⟩
      simp [Leg.marks, htimed.noted_eq_nil .id, hlooked.noted_eq_nil .id]
  | overran htimed hlooked hreported =>
      refine ⟨?_, by simp [Unspawned]⟩
      simp [Leg.marks, htimed.noted_eq_nil .id, hlooked.noted_eq_nil .id,
        hreported.noted_eq_nil (.logged _)]

theorem flatMap_marks_map_own (own : List (Stride H)) :
    (own.map Leg.own).flatMap Leg.marks = own.flatMap Stride.noted := by
  rw [List.flatMap_map]
  rfl

theorem Verdict.not_unspawned {launch : Launch H} {start : Nat} {own : List (Stride H)}
    (hverdict : Verdict fuel e kind duration launch start own x y outcome) : ¬ Unspawned outcome := by
  cases hverdict with
  | finished => exact not_unspawned_bodyOutcome _
  | stopped => simp [Unspawned]
  | timedOut => simp [Unspawned]

/-- A body is started exactly once, unless there was no worker to be had. -/
theorem BodyLaw.countP_startsBody (hlaw : BodyLaw fuel caller e kind body x timeout legs outcome y) :
    (Unspawned outcome → (legs.flatMap Leg.marks).countP Mark.startsBody = 0) ∧
      (¬ Unspawned outcome → (legs.flatMap Leg.marks).countP Mark.startsBody = 1) := by
  cases hlaw with
  | untimed hlogged hmade hrecorded hprogram =>
      refine ⟨fun hunspawned => absurd hunspawned (not_unspawned_bodyOutcome _), fun _ => ?_⟩
      simp [Leg.marks, hlogged.noted_eq_nil (.logged _), hmade.noted_eq_nil .newToken,
        hrecorded.noted_recorded]
      rfl
  | onCaller hmode hlogged hmade hread halarmed hrecorded hprogram hcleared hjudged =>
      obtain ⟨hsilent, hspawned⟩ := hjudged.silent
      refine ⟨fun hunspawned => absurd hunspawned hspawned, fun _ => ?_⟩
      simp [Leg.marks, hlogged.noted_eq_nil (.logged _), hmade.noted_eq_nil .newToken,
        hread.noted_eq_nil .id, halarmed.noted_eq_nil (.setAlarm _ _), hrecorded.noted_recorded,
        hcleared.noted_eq_nil (.clearAlarm _), hsilent]
      rfl
  | onWorker hlaw =>
      rw [flatMap_marks_map_own]
      cases hlaw with
      | unspawned _ _ hsilent =>
          rw [hsilent]
          exact ⟨fun _ => rfl, fun hspawned => absurd ⟨_, rfl⟩ hspawned⟩
      | spawned _ _ hlaunched _ _ _ hverdict =>
          rw [hlaunched.once]
          exact ⟨fun hunspawned => absurd hunspawned hverdict.not_unspawned, fun _ => rfl⟩

end Marks

section Run

variable {runner : Runner H} {x y : Workforce H} {legs : List (Leg H)}
  {outcome : Outcome (Except InvocationError H.Result)}

theorem Routine.runHere_runsAmong {token : TokenId} {outcome : Outcome (Except Failure H.Result)}
    (hruns : (Routine.runHere token body).RunsAmong fuel caller @runner x legs outcome y) :
    ∃ (recorded : Stride H) (call : Call H .result),
      recorded.Makes caller (fun w => w.recorded (.body token)) ∧ call.program = body token ∧
        legs = [.own recorded, .called call] ∧ outcome = call.outcome := by
  obtain ⟨recorded, later, -, hrecorded, rfl, hrun⟩ := runsAmong_change_bind hruns
  obtain ⟨call, hprogram, rfl, rfl, -⟩ := runsAmong_run hrun
  exact ⟨recorded, call, hrecorded, hprogram, rfl, rfl⟩

/-- On the caller's thread a body is called under an alarm, and judged after that. -/
theorem Routine.runOnCaller_runsAmong
    (hruns : (Routine.runOnCaller kind duration body).RunsAmong fuel caller @runner x legs outcome y) :
    ∃ (made read alarmed recorded cleared : Stride H) (call : Call H .result) (later : List (Leg H)),
      made.Makes caller (fun w => w.newToken.2) ∧ read.Makes caller id ∧
      alarmed.Makes caller (fun w => w.setAlarm made.found.world.newToken.1
        (read.found.world.clock + duration.toSpan.toNanos)) ∧
      recorded.Makes caller (fun w => w.recorded (.body made.found.world.newToken.1)) ∧
      call.program = body made.found.world.newToken.1 ∧
      cleared.Makes caller (fun w => w.clearAlarm made.found.world.newToken.1) ∧
      legs = .own made :: .own read :: .own alarmed :: .own recorded :: .called call ::
        .own cleared :: later ∧
      Judged caller kind duration made.found.world.newToken.1 read.found.world.clock call.outcome later
        outcome := by
  obtain ⟨made, later, -, hmade, rfl, hclock⟩ := runsAmong_update_bind hruns
  obtain ⟨read, later, -, hread, rfl, halarm⟩ := runsAmong_view_bind hclock
  obtain ⟨alarmed, later, -, halarmed, rfl, hrest⟩ := runsAmong_change_bind halarm
  rcases runsAmong_bind hrest with ⟨ending, z, first, second, hattempt, hclear, rfl⟩ |
    ⟨payload, hattempt, -⟩
  case inr =>
    obtain ⟨ending, hending, -⟩ := runsAmong_attempt hattempt
    cases hending
  obtain ⟨ending', hending, hbody⟩ := runsAmong_attempt hattempt
  cases hending
  obtain ⟨recorded, call, hrecorded, hprogram, rfl, rfl⟩ := runHere_runsAmong hbody
  obtain ⟨cleared, later, -, hcleared, rfl, hreport⟩ := runsAmong_change_bind hclear
  refine ⟨made, read, alarmed, recorded, cleared, call, later, hmade, hread, halarmed, hrecorded,
    hprogram, hcleared, rfl, ?_⟩
  cases hcall : call.outcome with
  | panicked payload =>
      rw [hcall] at hreport
      obtain ⟨rfl, rfl, -⟩ := runsAmong_ended hreport
      exact .panicked
  | returned result =>
      rw [hcall] at hreport
      obtain ⟨timed, later, -, htimed, rfl, hlook⟩ := runsAmong_view_bind hreport
      obtain ⟨looked, later, -, hlooked, rfl, hend⟩ := runsAmong_view_bind hlook
      split at hend
      · next hlate =>
        obtain ⟨reported, later, -, hreported, rfl, hlast⟩ := runsAmong_change_bind hend
        obtain ⟨rfl, rfl, -⟩ := runsAmong_pure hlast
        exact .overran htimed hlooked hreported
          ((Bool.or_eq_true_iff.mp hlate).imp id of_decide_eq_true)
      · next hprompt =>
        obtain ⟨rfl, rfl, -⟩ := runsAmong_pure hend
        rw [Bool.not_eq_true, Bool.or_eq_false_iff] at hprompt
        exact .inTime htimed hlooked (Nat.le_of_not_lt (of_decide_eq_false hprompt.2)) hprompt.1

/-- Running a body among workers follows the law, under every timeout and without one. -/
theorem Routine.runWithTimeout_runsAmong {timeout : Option EffectiveTimeout}
    (hcaller : ∀ c ∈ caller, c < x.world.workers.length)
    (hruns : (Routine.runWithTimeout e kind timeout body).RunsAmong fuel caller @runner x legs outcome
      y) : BodyLaw fuel caller e kind body x timeout legs outcome y := by
  cases timeout with
  | none =>
      obtain ⟨logged, later, -, hlogged, rfl, htoken⟩ := runsAmong_change_bind hruns
      obtain ⟨made, later, -, hmade, rfl, hhere⟩ := runsAmong_update_bind htoken
      rcases runsAmong_bind hhere with ⟨result, z, first, second, hbody, hend, rfl⟩ |
        ⟨payload, hbody, rfl⟩
      · obtain ⟨recorded, call, hrecorded, hprogram, rfl, hreturned⟩ := runHere_runsAmong hbody
        obtain ⟨rfl, rfl, -⟩ := runsAmong_pure hend
        have hlaw : BodyLaw fuel caller e kind body x none _ _ y :=
          .untimed hlogged hmade hrecorded hprogram
        rwa [← hreturned] at hlaw
      · obtain ⟨recorded, call, hrecorded, hprogram, rfl, hpanicked⟩ := runHere_runsAmong hbody
        have hlaw : BodyLaw fuel caller e kind body x none _ _ y :=
          .untimed hlogged hmade hrecorded hprogram
        rwa [← hpanicked] at hlaw
  | some timeout =>
      rcases timeout with ⟨duration, mode⟩
      cases mode with
      | separateThread =>
          obtain ⟨own, rfl, hlaw⟩ := (runWithTimeout_guarantees hcaller).runsAmong hruns
          exact .onWorker hlaw
      | sameThread | inferred =>
          obtain ⟨logged, later, -, hlogged, rfl, hmode⟩ := runsAmong_change_bind hruns
          obtain ⟨made, read, alarmed, recorded, cleared, call, later, hmade, hread, halarmed,
            hrecorded, hprogram, hcleared, rfl, hjudged⟩ := runOnCaller_runsAmong hmode
          exact .onCaller (by simp) hlogged hmade hread halarmed hrecorded hprogram hcleared hjudged

end Run

end TimedInvocation
