import TimedInvocation.Proofs.Bodies
import TimedInvocation.Proofs.Resolution

/-!
# Invocations

An invocation goes through its stages in order: the callbacks before a test, the resolution of the
arguments, the timeout configuration, the body, and the callbacks after a test. What is shown here is
which of them are reached, which user code they run, and which failure is reported, for all ways in
which the user code may end.
-/

namespace TimedInvocation

open Relation World

variable {H : Host}

/-- A callback together with the extension that it belongs to. -/
abbrev Callback (H : Host) : Type :=
  Extension (Program H) × (ScopeId → Program H .done)

/-- The first error of several callbacks after a test. -/
def firstError (callbacks : List (Callback H)) (calls : List (Call H .done)) :
    Option InvocationError :=
  (callbacks.zip calls).findSome? fun p => match p.2.outcome with
    | .returned (.error e) => some (callbackError .afterEach p.1.1.name e)
    | _ => none

theorem firstError_cons (callback : Callback H) (callbacks : List (Callback H))
    (call : Call H .done) (calls : List (Call H .done)) :
    firstError (callback :: callbacks) (call :: calls) =
      (firstError [callback] [call]).or (firstError callbacks calls) := by
  simp only [firstError, List.zip_cons_cons, List.zip_nil_right, List.findSome?_cons]
  split <;> rfl

/-- The result of a test after the callbacks that follow it: an error of theirs counts only if there
was none before. -/
def settle {ρ : Type} (result : Except InvocationError ρ) (error : Option InvocationError) :
    Except InvocationError ρ :=
  match error, result with
  | some error, .ok _ => .error error
  | _, _ => result

section Callbacks

variable {others : World H → World H → Prop} {runner : Runner H} {w w' : World H}
variable {marks : List (Mark H)} {scope : ScopeId}

/-- The callbacks before a test run in order up to the first that fails. -/
theorem Routine.runBefore_runs {callbacks : List (Callback H)}
    {outcome : Outcome (Except InvocationError Unit)}
    (hruns : (Routine.runBefore scope callbacks).Runs others @runner w marks outcome w') :
    ∃ calls : List (Call H .done),
      UpToFirst Call.program (fun call : Call H .done => call.outcome.Succeeds)
        (callbacks.map fun callback => callback.2 scope) calls ∧
      marks = (callbacks.zip calls).flatMap (fun p => p.2.marks (.beforeEach p.1.1.id)) ∧
      (∀ call ∈ calls, ∀ payload, call.outcome = .panicked payload →
        outcome = .panicked payload) ∧
      (∀ p ∈ callbacks.zip calls, ∀ e, p.2.outcome = .returned (.error e) →
        outcome = .returned (.error (callbackError .beforeEach p.1.1.name e))) ∧
      (outcome = .returned (.ok ()) ↔ ∀ call ∈ calls, call.outcome.Succeeds) := by
  induction callbacks generalizing w w' marks outcome with
  | nil =>
      obtain ⟨rfl, rfl, -⟩ := runs_pure_iff.mp hruns
      exact ⟨[], .nil, rfl, by simp, by simp, by simp⟩
  | cons callback rest ih =>
      obtain ⟨call, hprogram, hrest⟩ := runs_recorded_call hruns
      have hplan : (callback :: rest).map (fun callback => callback.2 scope) =
          call.program :: rest.map fun callback => callback.2 scope := by
        rw [hprogram, List.map_cons]
      rw [hplan]
      rcases hrest with ⟨answer, later, w₁, hreturned, rfl, hrest⟩ | ⟨payload, hpanic, rfl, rfl⟩
      · rcases answer with e | ⟨⟨⟩⟩
        · obtain ⟨rfl, rfl, -⟩ := runs_pure_iff.mp hrest
          refine ⟨[call], .stop ?_, ?_, ?_, ?_, ?_⟩
          all_goals simp [Outcome.Succeeds, hreturned]
        · obtain ⟨calls, hcalls, rfl, hpanicked, hfailed, hdone⟩ := ih hrest
          have hsucceeds : call.outcome.Succeeds := ⟨(), hreturned⟩
          refine ⟨call :: calls, .cons hsucceeds hcalls, by simp, ?_, ?_, ?_⟩
          · simpa [hreturned] using hpanicked
          · simpa [hreturned] using hfailed
          · simp [hdone, hsucceeds]
      · refine ⟨[call], .stop ?_, ?_, ?_, ?_, ?_⟩
        all_goals simp [Outcome.Succeeds, hpanic]

/-- The callbacks after a test run in order, past every error, and the first error is kept. -/
theorem Routine.runAfter_runs {callbacks : List (Callback H)} {first : Option InvocationError}
    {outcome : Outcome (Option InvocationError)}
    (hruns : (Routine.runAfter scope first callbacks).Runs others @runner w marks outcome w') :
    ∃ calls : List (Call H .done),
      UpToFirst Call.program (fun call : Call H .done => call.outcome.Returns)
        (callbacks.map fun callback => callback.2 scope) calls ∧
      marks = (callbacks.zip calls).flatMap (fun p => p.2.marks (.afterEach p.1.1.id)) ∧
      (∀ call ∈ calls, ∀ payload, call.outcome = .panicked payload →
        outcome = .panicked payload) ∧
      ((∀ call ∈ calls, call.outcome.Returns) →
        outcome = .returned (first.or (firstError callbacks calls))) := by
  induction callbacks generalizing w w' marks first with
  | nil =>
      obtain ⟨rfl, rfl, -⟩ := runs_pure_iff.mp hruns
      exact ⟨[], .nil, rfl, by simp, fun _ => by simp [firstError]⟩
  | cons callback rest ih =>
      obtain ⟨call, hprogram, hrest⟩ := runs_recorded_call hruns
      have hplan : (callback :: rest).map (fun callback => callback.2 scope) =
          call.program :: rest.map fun callback => callback.2 scope := by
        rw [hprogram, List.map_cons]
      rw [hplan]
      rcases hrest with ⟨answer, later, w₁, hreturned, rfl, hrest⟩ | ⟨payload, hpanic, rfl, rfl⟩
      · have hreturns : call.outcome.Returns := ⟨answer, hreturned⟩
        -- Whatever the callback returned, the next ones run with the error that counts so far.
        obtain ⟨so, w₂, hso, hnext⟩ : ∃ so w₂,
            so = first.or (firstError [callback] [call]) ∧
            (Routine.runAfter scope so rest).Runs others @runner w₂ later outcome w' := by
          rcases answer with e | ⟨⟨⟩⟩
          · cases first with
            | none => exact ⟨_, w₁, by simp [firstError, hreturned], hrest⟩
            | some error =>
                obtain ⟨w₂, -, hlog⟩ := runs_view_bind hrest
                obtain ⟨w₃, -, hnext⟩ := runs_log_bind hlog
                exact ⟨_, _, by simp, hnext⟩
          · exact ⟨_, w₁, by simp [firstError, hreturned], hrest⟩
        obtain ⟨calls, hcalls, rfl, hpanicked, hdone⟩ := ih hnext
        refine ⟨call :: calls, .cons hreturns hcalls, by simp, ?_, fun hall => ?_⟩
        · simpa [hreturned] using hpanicked
        · rw [hdone fun other hother => hall other (List.mem_cons_of_mem call hother), hso]
          rw [firstError_cons callback rest, Option.or_assoc]
      · refine ⟨[call], .stop ?_, ?_, ?_, ?_⟩
        all_goals simp [Outcome.Returns, hpanic]

theorem Routine.afterResult_runs {ρ : Type} {result : Except InvocationError ρ}
    {error : Option InvocationError} {outcome : Outcome (Except InvocationError ρ)}
    (hruns : (Routine.afterResult scope result error).Runs others @runner w marks outcome w') :
    marks = [] ∧ outcome = .returned (settle result error) := by
  cases error with
  | none =>
      obtain ⟨rfl, rfl, -⟩ := runs_pure_iff.mp hruns
      exact ⟨rfl, rfl⟩
  | some error =>
      cases result with
      | ok _ =>
          obtain ⟨rfl, rfl, -⟩ := runs_pure_iff.mp hruns
          exact ⟨rfl, rfl⟩
      | error earlier =>
          obtain ⟨w₁, -, hlog⟩ := runs_view_bind hruns
          obtain ⟨w₂, -, hend⟩ := runs_log_bind hlog
          obtain ⟨rfl, rfl, -⟩ := runs_pure_iff.mp hend
          exact ⟨rfl, rfl⟩

/-- After a test that ended with a result, all callbacks that follow it run in order unless one of them
panics. -/
theorem Routine.finishTest_runs {ρ : Type} {result : Except InvocationError ρ}
    {callbacks : List (Callback H)} {outcome : Outcome (Except InvocationError ρ)}
    (hcallbacks : ∀ w₁, ReflTransGen others w w₁ →
      w₁.afterCallbacks (w₁.registryOf scope) = callbacks)
    (hruns : (Routine.finishTest scope result).Runs others @runner w marks outcome w') :
    ∃ calls : List (Call H .done),
      UpToFirst Call.program (fun call : Call H .done => call.outcome.Returns)
        (callbacks.reverse.map fun callback => callback.2 scope) calls ∧
      marks = (callbacks.reverse.zip calls).flatMap (fun p => p.2.marks (.afterEach p.1.1.id)) ∧
      (∀ call ∈ calls, ∀ payload, call.outcome = .panicked payload →
        outcome = .panicked payload) ∧
      ((∀ call ∈ calls, call.outcome.Returns) →
        outcome = .returned (settle result (firstError callbacks.reverse calls))) := by
  obtain ⟨w₁, hwait, hafter⟩ := runs_view_bind hruns
  rw [hcallbacks w₁ hwait] at hafter
  rcases runs_bind_iff.mp hafter with ⟨error, w₂, first, second, hcalls, hend, rfl⟩ |
    ⟨payload, hcalls, rfl⟩
  · obtain ⟨calls, hplan, rfl, hpanicked, hdone⟩ := Routine.runAfter_runs hcalls
    obtain ⟨rfl, rfl⟩ := Routine.afterResult_runs hend
    refine ⟨calls, hplan, by simp, fun call hcall payload hpanic => ?_, fun hall => ?_⟩
    · simpa using hpanicked call hcall payload hpanic
    · obtain rfl : error = firstError callbacks.reverse calls := by simpa using hdone hall
      rfl
  · obtain ⟨calls, hplan, rfl, hpanicked, hdone⟩ := Routine.runAfter_runs hcalls
    refine ⟨calls, hplan, rfl, fun call hcall payload' hpanic => ?_, fun hall => ?_⟩
    · simpa using hpanicked call hcall payload' hpanic
    · simpa using hdone hall

end Callbacks

/-- How a body was run: the world in which its timeout was asked for, the workforce that its caller found
then, the legs of the run, its result, and the workforce that it left behind. -/
structure BodyRun (H : Host) where
  asked : World H
  found : Workforce H
  legs : List (Leg H)
  outcome : Outcome (Except InvocationError H.Result)
  left : Workforce H

/-- What happened between the callbacks of an invocation: the parameters that were handled and what
that came to, the timeout configuration with the marks that it left, the body, and the result. A stage
that was not reached is missing. -/
structure Attempt (H : Host) where
  handlings : List (Handling H)
  resolution : Outcome (Except ResolutionError Arguments)
  configuration : Option (List (Mark H) × Outcome (Except StoreError ConfigurationId))
  body : Option (BodyRun H)
  outcome : Outcome (Except InvocationError H.Result)

namespace Attempt

/-- All marks of the stages, in order. -/
def marks (candidates : List (Candidate H)) (a : Attempt H) : List (Mark H) :=
  a.handlings.flatMap (Handling.marks candidates) ++ (a.configuration.map Prod.fst).getD [] ++
    (a.body.map fun run => run.legs.flatMap Leg.marks).getD []

/-- The configuration is obtained once the arguments are resolved, the body is run with them, under the
timeout that the configuration gives, once the configuration is obtained, and the first stage that fails
decides the result. -/
structure Lawful (fuel : Nat) (caller : Option WorkerId) (runner : Runner H) (e : EnforcerId)
    (q : InvocationRequest) (body : Arguments → TokenId → Program H .result)
    (candidates : List (Candidate H)) (a : Attempt H) : Prop where
  resolved : ResolutionLaw q.scope candidates (outerSlots q.executable q.outer)
    (openContexts q.executable q.target q.outer) a.handlings
    (a.handlings.flatMap (Handling.marks candidates)) a.resolution
  configured : a.configuration.isSome ↔ a.resolution.Succeeds
  cleanups : ∀ stage ∈ a.configuration, ∀ mark ∈ stage.1, ∃ c : Call H .done, mark = .called c
  reached : a.body.isSome ↔ ∃ stage ∈ a.configuration, stage.2.Succeeds
  ran : ∀ run ∈ a.body, ∀ arguments c, a.resolution = .returned (.ok arguments) →
    a.configuration.map Prod.snd = some (.returned (.ok c)) → ∃ timeout,
      (Routine.timeoutOf c q.kind q.declared).Runs Move @runner run.asked [] (.returned timeout)
        run.found.world ∧
      BodyLaw fuel caller e q.kind (body arguments) run.found timeout run.legs run.outcome run.left
  unresolved : (∀ e, a.resolution = .returned (.error e) →
      a.outcome = .returned (.error (.resolution e))) ∧
    ∀ payload, a.resolution = .panicked payload → a.outcome = .panicked payload
  unconfigured : ∀ stage ∈ a.configuration,
    (∀ e, stage.2 = .returned (.error e) → a.outcome = .returned (.error (.store e))) ∧
      ∀ payload, stage.2 = .panicked payload → a.outcome = .panicked payload
  decided : ∀ run ∈ a.body, a.outcome = run.outcome

/-- The body is run in some of the legs of a run that leads from one world to another. -/
def Within (a : Attempt H) (w : World H) (legs : List (Leg H)) (w' : World H) : Prop :=
  ∀ run ∈ a.body, Meanwhile w run.asked ∧ run.legs <:+: legs ∧ Meanwhile run.left.world w'

theorem Within.mono {a : Attempt H} {w₀ w w' w₁ : World H} {legs legs' : List (Leg H)}
    (hwithin : a.Within w legs w') (hbefore : Meanwhile w₀ w) (hlegs : legs <:+: legs')
    (hafter : Meanwhile w' w₁) : a.Within w₀ legs' w₁ := by
  intro run hrun
  obtain ⟨hasked, hinfix, hleft⟩ := hwithin run hrun
  exact ⟨hbefore.trans hasked, hinfix.trans hlegs, hleft.trans hafter⟩

/-- The body is run and there is a thread for it. -/
def Started (a : Attempt H) : Prop :=
  ∃ run ∈ a.body, ¬ Unspawned run.outcome

/-- The body is started once if it is run and there is a thread for it, and not at all otherwise. -/
theorem Lawful.countP_startsBody {fuel : Nat} {caller : Option WorkerId} {runner : Runner H}
    {e : EnforcerId} {q : InvocationRequest} {body : Arguments → TokenId → Program H .result}
    {candidates : List (Candidate H)} {a : Attempt H}
    (hlaw : a.Lawful fuel caller @runner e q body candidates) :
    (a.Started → (a.marks candidates).countP Mark.startsBody = 1) ∧
      (¬ a.Started → (a.marks candidates).countP Mark.startsBody = 0) := by
  have hresolving : (a.handlings.flatMap (Handling.marks candidates)).countP Mark.startsBody = 0 := by
    refine List.countP_eq_zero.mpr fun mark hmark => ?_
    obtain ⟨h, -, hmark⟩ := List.mem_flatMap.mp hmark
    rcases List.mem_append.mp hmark with hmark | hmark
    all_goals
      obtain ⟨c, -, hmark⟩ := List.mem_flatMap.mp hmark
      rcases List.mem_pair.mp hmark with rfl | rfl <;> simp [Mark.startsBody]
  have hconfiguring : ((a.configuration.map Prod.fst).getD []).countP Mark.startsBody = 0 := by
    refine List.countP_eq_zero.mpr fun mark hmark => ?_
    cases hstage : a.configuration with
    | none => simp [hstage] at hmark
    | some stage =>
        obtain ⟨c, rfl⟩ := hlaw.cleanups stage hstage mark (by simpa [hstage] using hmark)
        simp [Mark.startsBody]
  simp only [marks, List.countP_append, hresolving, hconfiguring, Nat.zero_add]
  cases hrun : a.body with
  | none => simp [Started, hrun]
  | some run =>
      obtain ⟨configuration, hconfiguration, c, hc⟩ := hlaw.reached.mp (by simp [hrun])
      rw [Option.mem_def] at hconfiguration
      obtain ⟨arguments, harguments⟩ := hlaw.configured.mp (by simp [hconfiguration])
      obtain ⟨timeout, -, hbody⟩ :=
        hlaw.ran run hrun arguments c harguments (by simp [hconfiguration, hc])
      have hcount := hbody.countP_startsBody
      simp only [Started, hrun, Option.mem_def, Option.some.injEq, exists_eq_left', not_not,
        Option.map_some, Option.getD_some]
      exact ⟨hcount.2, hcount.1⟩

end Attempt

/-- What happened up to the end of the body: the calls of the callbacks before it, what came after them
unless one of them failed, and the result. -/
structure Preparation (H : Host) where
  before : List (Call H .done)
  attempt : Option (Attempt H)
  outcome : Outcome (Except InvocationError H.Result)

namespace Preparation

/-- All marks of the stages, in order. -/
def marks (before : List (Callback H)) (candidates : List (Candidate H)) (p : Preparation H) :
    List (Mark H) :=
  (before.zip p.before).flatMap (fun c => c.2.marks (.beforeEach c.1.1.id)) ++
    (p.attempt.map (Attempt.marks candidates)).getD []

/-- The callbacks run in order, up to the first one that fails, which decides the result. If none
fails, the arguments are resolved and the body is run. -/
structure Lawful (fuel : Nat) (caller : Option WorkerId) (runner : Runner H) (e : EnforcerId)
    (q : InvocationRequest) (body : Arguments → TokenId → Program H .result)
    (before : List (Callback H)) (candidates : List (Candidate H)) (p : Preparation H) : Prop where
  prepare : UpToFirst Call.program (fun call : Call H .done => call.outcome.Succeeds)
    (before.map fun callback => callback.2 q.scope) p.before
  panicked : ∀ call ∈ p.before, ∀ payload, call.outcome = .panicked payload →
    p.outcome = .panicked payload
  failed : ∀ c ∈ before.zip p.before, ∀ e, c.2.outcome = .returned (.error e) →
    p.outcome = .returned (.error (callbackError .beforeEach c.1.1.name e))
  attempted : p.attempt.isSome ↔ ∀ call ∈ p.before, call.outcome.Succeeds
  lawful : ∀ a ∈ p.attempt,
    a.Lawful fuel caller @runner e q body candidates ∧ p.outcome = a.outcome

/-- The body is run in some of the legs of a run that leads from one world to another. -/
def Within (p : Preparation H) (w : World H) (legs : List (Leg H)) (w' : World H) : Prop :=
  ∀ a ∈ p.attempt, a.Within w legs w'

theorem Within.mono {p : Preparation H} {w₀ w w' w₁ : World H} {legs legs' : List (Leg H)}
    (hwithin : p.Within w legs w') (hbefore : Meanwhile w₀ w) (hlegs : legs <:+: legs')
    (hafter : Meanwhile w' w₁) : p.Within w₀ legs' w₁ :=
  fun a ha => (hwithin a ha).mono hbefore hlegs hafter

end Preparation

/-- What happened in an invocation: everything up to the end of the body, the calls of the callbacks
after it, and the result. -/
structure Stages (H : Host) where
  preparation : Preparation H
  after : List (Call H .done)
  outcome : Outcome (Except InvocationError H.Result)

namespace Stages

/-- All marks of the stages, in order. -/
def marks (before after : List (Callback H)) (candidates : List (Candidate H)) (t : Stages H) :
    List (Mark H) :=
  t.preparation.marks before candidates ++
    (after.reverse.zip t.after).flatMap fun c => c.2.marks (.afterEach c.1.1.id)

/-- Whatever failed, all callbacks after the body run in the opposite order, unless something panics.
Their first error is the result if there was none before. -/
structure Lawful (fuel : Nat) (caller : Option WorkerId) (runner : Runner H) (e : EnforcerId)
    (q : InvocationRequest) (body : Arguments → TokenId → Program H .result)
    (before after : List (Callback H)) (candidates : List (Candidate H)) (t : Stages H) : Prop where
  prepared : t.preparation.Lawful fuel caller @runner e q body before candidates
  finish : t.preparation.outcome.Returns → UpToFirst Call.program
    (fun call : Call H .done => call.outcome.Returns)
    (after.reverse.map fun callback => callback.2 q.scope) t.after
  unfinished : ∀ payload, t.preparation.outcome = .panicked payload →
    t.after = [] ∧ t.outcome = .panicked payload
  panicked : ∀ call ∈ t.after, ∀ payload, call.outcome = .panicked payload →
    t.outcome = .panicked payload
  settled : ∀ result, t.preparation.outcome = .returned result →
    (∀ call ∈ t.after, call.outcome.Returns) →
      t.outcome = .returned (settle result (firstError after.reverse t.after))

/-- The body is run in some of the legs of a run that leads from one world to another. -/
def Within (t : Stages H) (w : World H) (legs : List (Leg H)) (w' : World H) : Prop :=
  t.preparation.Within w legs w'

/-- No callback before the body fails, the arguments are resolved, the timeout configuration is
obtained, and there is a thread for the body. -/
def Started (t : Stages H) : Prop :=
  ∃ a ∈ t.preparation.attempt, a.Started

theorem countP_startsBody_callbacks (o : ExtensionId → Occurrence)
    (ho : ∀ e, Mark.startsBody (.noted (o e) : Mark H) = false) (callbacks : List (Callback H))
    (calls : List (Call H .done)) :
    ((callbacks.zip calls).flatMap fun c => c.2.marks (o c.1.1.id)).countP Mark.startsBody = 0 := by
  refine List.countP_eq_zero.mpr fun mark hmark => ?_
  obtain ⟨c, -, hmark⟩ := List.mem_flatMap.mp hmark
  rcases List.mem_pair.mp hmark with rfl | rfl
  · simp [ho]
  · simp [Mark.startsBody]

/-- The body of an invocation is started at most once, and exactly if no stage before it fails. -/
theorem Lawful.countP_startsBody {fuel : Nat} {caller : Option WorkerId} {runner : Runner H}
    {e : EnforcerId} {q : InvocationRequest} {body : Arguments → TokenId → Program H .result}
    {before after : List (Callback H)} {candidates : List (Candidate H)} {t : Stages H}
    (hlaw : t.Lawful fuel caller @runner e q body before after candidates) :
    (t.Started → (t.marks before after candidates).countP Mark.startsBody = 1) ∧
      (¬ t.Started → (t.marks before after candidates).countP Mark.startsBody = 0) := by
  simp only [marks, Preparation.marks, List.countP_append,
    countP_startsBody_callbacks .beforeEach (fun _ => rfl),
    countP_startsBody_callbacks .afterEach (fun _ => rfl), Nat.zero_add, Nat.add_zero]
  cases hattempt : t.preparation.attempt with
  | none => simp [Started, hattempt]
  | some a =>
      simpa [Started, hattempt] using (hlaw.prepared.lawful a hattempt).1.countP_startsBody

end Stages

section Run

variable {fuel : Nat} {caller : Option WorkerId} {runner : Runner H} {x y : Workforce H}
  {legs : List (Leg H)} {e : EnforcerId} {q : InvocationRequest}
  {body : Arguments → TokenId → Program H .result} {outcome : Outcome (Except InvocationError H.Result)}

theorem Routine.timeoutOf_runs {others : World H → World H → Prop} {c : ConfigurationId} {kind : Kind}
    {declared : Option DeclaredTimeout} {w w' : World H} {marks : List (Mark H)}
    {outcome : Outcome (Option EffectiveTimeout)}
    (hruns : (Routine.timeoutOf c kind declared).Runs others @runner w marks outcome w') :
    marks = [] ∧ ∃ timeout, outcome = .returned timeout := by
  refine ⟨(Discreet.timeoutOf c kind declared).marks_eq_nil hruns, ?_⟩
  obtain ⟨w₁, -, htimeout⟩ := runs_view_bind hruns
  split at htimeout
  · exact ⟨_, (runs_pure_iff.mp htimeout).2.1⟩
  · obtain ⟨w₂, -, -, houtcome, -⟩ := runs_update_iff.mp htimeout
    exact ⟨_, houtcome⟩

/-- Obtaining the timeout configuration leaves no marks but calls of cleanups. -/
theorem Routine.configurationOf_called {scope : ScopeId} {w w' : World H} {marks : List (Mark H)}
    {configuration : Outcome (Except StoreError ConfigurationId)}
    (hruns : (Routine.configurationOf scope).Runs Move @runner w marks configuration w') :
    ∀ mark ∈ marks, ∃ c : Call H .done, mark = .called c := by
  have hdiscreet : (Routine.configurationOf scope : Routine H _).Discreet (· = .done) :=
    .configurationOf (by rfl) scope
  intro mark hmark
  obtain ⟨_, c, rfl, rfl⟩ := hdiscreet.marks_called hruns mark hmark
  exact ⟨c, rfl⟩

/-- What happens between the callbacks of an invocation. -/
theorem Routine.runBody_runsAmong {candidates : List (Candidate H)} (hrunner : Runner.Moves @runner)
    (hcaller : ∀ c ∈ caller, c < x.world.workers.length)
    (hcandidates : ∀ w, Meanwhile x.world w → w.resolvers (w.registryOf q.scope) = candidates)
    (hruns : (Routine.runBody e q body).RunsAmong fuel caller @runner x legs outcome y) :
    ∃ a : Attempt H, a.Lawful fuel caller @runner e q body candidates ∧
      a.Within x.world legs y.world ∧ legs.flatMap Leg.marks = a.marks candidates ∧
      outcome = a.outcome := by
  rcases runsAmong_bind hruns with ⟨resolution, x₁, first, later, hfirst, hrest, rfl⟩ |
    ⟨payload, hfirst, rfl⟩
  case inr =>
    obtain ⟨handlings, hlaw⟩ := Routine.resolveArguments_runs hrunner hcandidates hfirst.runs
    have hleft := hlaw.left
    rw [hleft] at hlaw
    refine ⟨⟨handlings, _, none, none, _⟩, ⟨hlaw, ?_, ?_, ?_, ?_, ?_, ?_, ?_⟩, ?_, ?_, rfl⟩
    all_goals simp [Outcome.Succeeds, Attempt.Within, Attempt.marks, hleft]
  obtain ⟨handlings, hlaw⟩ := Routine.resolveArguments_runs hrunner hcandidates hfirst.runs
  have hleft := hlaw.left
  rw [hleft] at hlaw
  have hresolving : Meanwhile x.world x₁.world :=
    (Routine.compositional_composed.announcing.resolveArguments _ _ _ _).moves.meanwhile hrunner
      hfirst.runs
  cases resolution with
  | error error =>
      obtain ⟨rfl, rfl, -⟩ := runsAmong_pure hrest
      refine ⟨⟨handlings, _, none, none, _⟩, ⟨hlaw, ?_, ?_, ?_, ?_, ?_, ?_, ?_⟩, ?_, ?_, rfl⟩
      all_goals simp [Outcome.Succeeds, Attempt.Within, Attempt.marks, hleft]
  | ok arguments =>
      rcases runsAmong_bind hrest with ⟨configuration, x₂, second, later, hsecond, hrest, rfl⟩ |
        ⟨payload, hsecond, rfl⟩
      case inr =>
        have hcleanups := Routine.configurationOf_called hsecond.runs
        refine ⟨⟨handlings, _, some (later.flatMap Leg.marks, .panicked payload), none, _⟩,
          ⟨hlaw, ?_, ?_, ?_, ?_, ?_, ?_, ?_⟩, ?_, ?_, rfl⟩
        case refine_2 => simpa using hcleanups
        all_goals simp [Outcome.Succeeds, Attempt.Within, Attempt.marks, hleft]
      have hcleanups := Routine.configurationOf_called hsecond.runs
      have hconfiguring : Meanwhile x₁.world x₂.world :=
        (Routine.compositional_composed.configurationOf _).moves.meanwhile hrunner hsecond.runs
      cases configuration with
      | error error =>
          obtain ⟨rfl, rfl, -⟩ := runsAmong_pure hrest
          refine ⟨⟨handlings, _, some (second.flatMap Leg.marks, .returned (.error error)), none, _⟩,
            ⟨hlaw, ?_, ?_, ?_, ?_, ?_, ?_, ?_⟩, ?_, ?_, rfl⟩
          case refine_2 => simpa using hcleanups
          all_goals simp [Outcome.Succeeds, Attempt.Within, Attempt.marks, hleft]
      | ok c =>
          rcases runsAmong_bind hrest with ⟨timeout, x₃, quiet, last, htimeout, hlast, rfl⟩ |
            ⟨payload, htimeout, rfl⟩
          case inr =>
            obtain ⟨-, timeout, hreturned⟩ := Routine.timeoutOf_runs htimeout.runs
            cases hreturned
          obtain ⟨hquiet, -⟩ := Routine.timeoutOf_runs htimeout.runs
          have hasking : Meanwhile x₂.world x₃.world :=
            (Routine.compositional_composed.timeoutOf _ _ _).moves.meanwhile hrunner htimeout.runs
          have hbody := Routine.runWithTimeout_runsAmong (fun w hw => lt_workers_of_meanwhile
            (hresolving.trans (hconfiguring.trans hasking)) (hcaller w hw)) hlast
          refine ⟨⟨handlings, _, some (second.flatMap Leg.marks, .returned (.ok c)),
            some ⟨x₂.world, x₃, last, outcome, y⟩, outcome⟩,
            ⟨hlaw, ?_, ?_, ?_, ?_, ?_, ?_, ?_⟩, ?_, ?_, rfl⟩
          case refine_2 => simpa using hcleanups
          case refine_4 => simpa using ⟨timeout, hquiet ▸ htimeout.runs, hbody⟩
          case refine_8 =>
            rintro run ⟨rfl⟩
            exact ⟨hresolving.trans hconfiguring, ⟨first ++ (second ++ quiet), [], by simp⟩, .refl⟩
          all_goals simp [Outcome.Succeeds, Attempt.marks, hleft, hquiet]

/-- What happens in an invocation without callbacks. -/
theorem Routine.runBody_stages {candidates : List (Candidate H)} (hrunner : Runner.Moves @runner)
    (hcaller : ∀ c ∈ caller, c < x.world.workers.length)
    (hcandidates : ∀ w, Meanwhile x.world w → w.resolvers (w.registryOf q.scope) = candidates)
    (hruns : (Routine.runBody e q body).RunsAmong fuel caller @runner x legs outcome y) :
    ∃ t : Stages H, t.Lawful fuel caller @runner e q body [] [] candidates ∧
      t.Within x.world legs y.world ∧ legs.flatMap Leg.marks = t.marks [] [] candidates ∧
      outcome = t.outcome := by
  obtain ⟨a, hlaw, hwithin, hmarks, rfl⟩ :=
    Routine.runBody_runsAmong hrunner hcaller hcandidates hruns
  refine ⟨⟨⟨[], some a, a.outcome⟩, [], a.outcome⟩,
    ⟨⟨.nil, by simp, by simp, by simp, by simpa using hlaw⟩, fun _ => .nil, by simp, by simp, ?_⟩,
    by simpa [Stages.Within, Preparation.Within] using hwithin,
    by simp [hmarks, Stages.marks, Preparation.marks], rfl⟩
  intro result hresult _
  simpa [firstError, settle] using hresult

/-- What happens in an invocation of a test up to the end of its body. -/
theorem Routine.runPrepared_runsAmong {before : List (Callback H)} {candidates : List (Candidate H)}
    (hrunner : Runner.Moves @runner) (hcaller : ∀ c ∈ caller, c < x.world.workers.length)
    (hbefore : ∀ w, Meanwhile x.world w → w.beforeCallbacks (w.registryOf q.scope) = before)
    (hcandidates : ∀ w, Meanwhile x.world w → w.resolvers (w.registryOf q.scope) = candidates)
    (hruns : (Routine.runPrepared e q body).RunsAmong fuel caller @runner x legs outcome y) :
    ∃ p : Preparation H, p.Lawful fuel caller @runner e q body before candidates ∧
      p.Within x.world legs y.world ∧ legs.flatMap Leg.marks = p.marks before candidates ∧
      outcome = p.outcome := by
  obtain ⟨s, later, hwait, hmakes, rfl, hprepare⟩ := runsAmong_view_bind hruns
  have hsilent : Leg.marks (.own s) = [] := hmakes.noted_eq_nil .id
  have hleft : Meanwhile x.world s.left.world := hwait.meanwhile.trans (hmakes.meanwhile .id)
  rw [hbefore s.found.world hwait.meanwhile] at hprepare
  rcases runsAmong_bind hprepare with ⟨answer, z, first, second, hcalls, hrest, rfl⟩ |
    ⟨payload, hcalls, rfl⟩
  · obtain ⟨calls, hplan, hfirst, hpanicked, hfailed, hdone⟩ := Routine.runBefore_runs hcalls.runs
    have hmoves : Meanwhile s.left.world z.world :=
      (Routine.compositional_composed.announcing.runBefore _ _).moves.meanwhile hrunner hcalls.runs
    rcases answer with error | ⟨⟨⟩⟩
    · obtain ⟨rfl, rfl, -⟩ := runsAmong_pure hrest
      have hnot : ¬ ∀ call ∈ calls, call.outcome.Succeeds := by simp [← hdone]
      refine ⟨⟨calls, none, _⟩, ⟨hplan, fun call hcall payload hpanic => ?_, fun c hc e hfail => ?_,
        by simpa using hnot, by simp⟩, by simp [Preparation.Within],
        by simp [hsilent, hfirst, Preparation.marks], rfl⟩
      · simpa using hpanicked call hcall payload hpanic
      · simpa using hfailed c hc e hfail
    · have hall : ∀ call ∈ calls, call.outcome.Succeeds := hdone.mp rfl
      have hstart : Meanwhile x.world z.world := hleft.trans hmoves
      obtain ⟨a, hlaw, hwithin, hmarks, rfl⟩ := Routine.runBody_runsAmong hrunner
        (fun c hc => lt_workers_of_meanwhile hstart (hcaller c hc))
        (fun w hmore => hcandidates w (hstart.trans hmore)) hrest
      have hlegs : second <:+: .own s :: (first ++ second) := ⟨.own s :: first, [], by simp⟩
      refine ⟨⟨calls, some a, a.outcome⟩, ⟨hplan, fun call hcall payload hpanic => ?_,
        fun c hc e hfail => ?_, by simpa using hall, by simpa using hlaw⟩,
        by simpa [Preparation.Within] using hwithin.mono hstart hlegs .refl,
        by simp [hsilent, hfirst, hmarks, Preparation.marks], rfl⟩
      · obtain ⟨u, hok⟩ := hall call hcall
        simp [hok] at hpanic
      · obtain ⟨u, hok⟩ := hall c.2 (List.of_mem_zip hc).2
        simp [hok] at hfail
  · obtain ⟨calls, hplan, hfirst, hpanicked, hfailed, hdone⟩ := Routine.runBefore_runs hcalls.runs
    have hnot : ¬ ∀ call ∈ calls, call.outcome.Succeeds := by simp [← hdone]
    refine ⟨⟨calls, none, _⟩, ⟨hplan, fun call hcall payload hpanic => ?_, fun c hc e hfail => ?_,
      by simpa using hnot, by simp⟩, by simp [Preparation.Within],
      by simp [hsilent, hfirst, Preparation.marks], rfl⟩
    · simpa using hpanicked call hcall payload hpanic
    · simpa using hfailed c hc e hfail

/-- What happens in an invocation of a test. -/
theorem Routine.runTest_stages {before after : List (Callback H)} {candidates : List (Candidate H)}
    (hrunner : Runner.Moves @runner) (hcaller : ∀ c ∈ caller, c < x.world.workers.length)
    (hbefore : ∀ w, Meanwhile x.world w → w.beforeCallbacks (w.registryOf q.scope) = before)
    (hafter : ∀ w, Meanwhile x.world w → w.afterCallbacks (w.registryOf q.scope) = after)
    (hcandidates : ∀ w, Meanwhile x.world w → w.resolvers (w.registryOf q.scope) = candidates)
    (hruns : (Routine.runTest e q body).RunsAmong fuel caller @runner x legs outcome y) :
    ∃ t : Stages H, t.Lawful fuel caller @runner e q body before after candidates ∧
      t.Within x.world legs y.world ∧ legs.flatMap Leg.marks = t.marks before after candidates ∧
      outcome = t.outcome := by
  rcases runsAmong_bind hruns with ⟨result, z, first, second, hprepared, hfinish, rfl⟩ |
    ⟨payload, hprepared, rfl⟩
  · obtain ⟨p, hlaw, hwithin, hfirst, hresult⟩ :=
      Routine.runPrepared_runsAmong hrunner hcaller hbefore hcandidates hprepared
    have hmoves : Meanwhile x.world z.world :=
      (Routine.compositional_composed.runPrepared _ _ _).moves.meanwhile hrunner hprepared.runs
    have hmore : Meanwhile z.world y.world :=
      (Routine.compositional_composed.announcing.finishTest _ _).moves.meanwhile hrunner hfinish.runs
    obtain ⟨calls, hcalls, hsecond, hpanicked, hdone⟩ := Routine.finishTest_runs
      (fun w hlater => hafter w (hmoves.trans hlater)) hfinish.runs
    refine ⟨⟨p, calls, outcome⟩, ⟨hlaw, fun _ => hcalls, fun payload hpanic => ?_, hpanicked,
      fun result' hresult' hall => ?_⟩, hwithin.mono .refl (List.infix_append' [] first second) hmore,
      by simp [hfirst, hsecond, Stages.marks], rfl⟩
    · simp [← hresult] at hpanic
    · obtain rfl : result = result' := by simpa [← hresult] using hresult'
      exact hdone hall
  · obtain ⟨p, hlaw, hwithin, hmarks, hpanic⟩ :=
      Routine.runPrepared_runsAmong hrunner hcaller hbefore hcandidates hprepared
    refine ⟨⟨p, [], .panicked payload⟩, ⟨hlaw, fun hreturns => ?_, fun payload' hpanic' => ?_, by simp,
      fun result hresult => ?_⟩, hwithin, by simp [hmarks, Stages.marks], rfl⟩
    · simp [← hpanic, Outcome.Returns] at hreturns
    · exact ⟨rfl, hpanic.trans hpanic'⟩
    · simp [← hpanic] at hresult

end Run

/-- The callbacks that an invocation runs: none unless it is one of a test. -/
def InvocationRequest.callbacks (q : InvocationRequest) (visible : List (Callback H)) :
    List (Callback H) :=
  match q.kind.category with
  | .testable => visible
  | .lifecycle => []

/-- An invocation that ended with a result reports it, and it panics if it ended with a panic. -/
def InvocationRequest.Reports (q : InvocationRequest) (outcome : Outcome (Report H.Result)) :
    Outcome (Except InvocationError H.Result) → Prop
  | .returned result => ∃ duration,
      outcome = .returned ⟨q.kind, q.executable.signature, duration, .ofResult result⟩
  | .panicked payload => outcome = .panicked payload

section Invoke

variable {fuel : Nat} {caller : Option WorkerId} {runner : Runner H} {x y : Workforce H}
  {legs : List (Leg H)} {e : EnforcerId} {q : InvocationRequest}
  {body : Arguments → TokenId → Program H .result}

/-- An invocation is cancelled if a stop was requested by then, and goes through its stages
otherwise. -/
theorem Routine.invocationResult_runsAmong {before after : List (Callback H)}
    {candidates : List (Candidate H)} {outcome : Outcome (Except InvocationError H.Result)}
    (hrunner : Runner.Moves @runner) (hcaller : ∀ c ∈ caller, c < x.world.workers.length)
    (hbefore : ∀ w, Meanwhile x.world w → w.beforeCallbacks (w.registryOf q.scope) = before)
    (hafter : ∀ w, Meanwhile x.world w → w.afterCallbacks (w.registryOf q.scope) = after)
    (hcandidates : ∀ w, Meanwhile x.world w → w.resolvers (w.registryOf q.scope) = candidates)
    (hruns : (Routine.invocationResult e q body).RunsAmong fuel caller @runner x legs outcome y) :
    (legs.flatMap Leg.marks = [] ∧ outcome = .returned (.error (.cancelled q.kind)) ∧
        y.world.stopRequested e = true) ∨
      x.world.stopRequested e = false ∧ ∃ t : Stages H,
        t.Lawful fuel caller @runner e q body (q.callbacks before) (q.callbacks after) candidates ∧
        t.Within x.world legs y.world ∧
        legs.flatMap Leg.marks = t.marks (q.callbacks before) (q.callbacks after) candidates ∧
        outcome = t.outcome := by
  obtain ⟨s, later, hwait, hmakes, rfl, hrest⟩ := runsAmong_view_bind hruns
  have hsilent : Leg.marks (.own s) = [] := hmakes.noted_eq_nil .id
  have hleft : Meanwhile x.world s.left.world := hwait.meanwhile.trans (hmakes.meanwhile .id)
  cases hstop : s.found.world.stopRequested e with
  | true =>
      simp only [hstop, ↓reduceIte] at hrest
      obtain ⟨rfl, rfl, hmore⟩ := runsAmong_pure hrest
      refine .inl ⟨by simp [hsilent], rfl, ?_⟩
      exact stopRequested_of_meanwhile ((hmakes.meanwhile .id).trans hmore.meanwhile) hstop
  | false =>
      have hcaller' (c : WorkerId) (hc : c ∈ caller) := lt_workers_of_meanwhile hleft (hcaller c hc)
      have hbefore' (w : World H) (hmore : Meanwhile s.left.world w) :=
        hbefore w (hleft.trans hmore)
      have hafter' (w : World H) (hmore : Meanwhile s.left.world w) := hafter w (hleft.trans hmore)
      have hcandidates' (w : World H) (hmore : Meanwhile s.left.world w) :=
        hcandidates w (hleft.trans hmore)
      have hentry : x.world.stopRequested e = false := by
        by_contra hrequested
        simp [stopRequested_of_meanwhile hwait.meanwhile (by simpa using hrequested)] at hstop
      refine .inr ⟨hentry, ?_⟩
      simp only [hstop, Bool.false_eq_true, ↓reduceIte] at hrest
      obtain ⟨t, hlaw, hwithin, hmarks, rfl⟩ : ∃ t : Stages H,
          t.Lawful fuel caller @runner e q body (q.callbacks before) (q.callbacks after) candidates ∧
          t.Within s.left.world later y.world ∧
          later.flatMap Leg.marks = t.marks (q.callbacks before) (q.callbacks after) candidates ∧
          outcome = t.outcome := by
        cases hcategory : q.kind.category with
        | testable =>
            simp only [hcategory] at hrest
            simpa [InvocationRequest.callbacks, hcategory] using
              Routine.runTest_stages hrunner hcaller' hbefore' hafter' hcandidates' hrest
        | lifecycle =>
            simp only [hcategory] at hrest
            simpa [InvocationRequest.callbacks, hcategory] using
              Routine.runBody_stages hrunner hcaller' hcandidates' hrest
      refine ⟨t, hlaw, ?_, by simpa [hsilent] using hmarks, rfl⟩
      exact Preparation.Within.mono hwithin hleft (List.infix_cons List.infix_rfl) .refl

/-- An invocation reports the result that it comes to. -/
theorem Routine.invoke_runsAmong {outcome : Outcome (Report H.Result)}
    (hruns : (Routine.invoke e q body).RunsAmong fuel caller @runner x legs outcome y) :
    ∃ result x₁ x₂ inner, Meanwhile x.world x₁.world ∧
      (Routine.invocationResult e q body).RunsAmong fuel caller @runner x₁ inner result x₂ ∧
      Meanwhile x₂.world y.world ∧ inner <:+: legs ∧
      legs.flatMap Leg.marks = inner.flatMap Leg.marks ∧ q.Reports outcome result := by
  obtain ⟨s, later, hwait, hmakes, rfl, hrest⟩ := runsAmong_view_bind hruns
  have hsilent : Leg.marks (.own s) = [] := hmakes.noted_eq_nil .id
  have hleft : Meanwhile x.world s.left.world := hwait.meanwhile.trans (hmakes.meanwhile .id)
  rcases runsAmong_bind hrest with ⟨result, x₂, first, second, hresult, hreport, rfl⟩ |
    ⟨payload, hresult, rfl⟩
  · obtain ⟨timed, last, hfirst, htimed, rfl, hname⟩ := runsAmong_view_bind hreport
    obtain ⟨named, last, hsecond, hnamed, rfl, hlog⟩ := runsAmong_view_bind hname
    obtain ⟨logged, last, hthird, hlogged, rfl, hend⟩ := runsAmong_change_bind hlog
    obtain ⟨rfl, rfl, hlast⟩ := runsAmong_pure hend
    refine ⟨.returned result, s.left, x₂, first, hleft, hresult, ?_, ?_, ?_, _, rfl⟩
    · have hbetween : Meanwhile x₂.world logged.found.world :=
        ((hfirst.meanwhile.trans (htimed.meanwhile .id)).trans
          (hsecond.meanwhile.trans (hnamed.meanwhile .id))).trans hthird.meanwhile
      exact hbetween.trans ((hlogged.meanwhile (.logged _)).trans hlast.meanwhile)
    · exact ⟨[.own s], [.own timed, .own named, .own logged], by simp⟩
    · simp [Leg.marks, hmakes.noted_eq_nil .id, htimed.noted_eq_nil .id, hnamed.noted_eq_nil .id,
        hlogged.noted_eq_nil (.logged _)]
  · refine ⟨.panicked payload, s.left, y, later, hleft, hresult, .refl, ?_, ?_, rfl⟩
    · exact List.infix_cons List.infix_rfl
    · simp [hsilent]

end Invoke

/-- Whatever callbacks, resolvers and the body do, and whatever happens in the meantime, an invocation
goes through its stages. If a stop was requested before, nothing is run and the invocation is
cancelled. Otherwise the callbacks visible from the scope surround the resolution of the arguments and
the body, or none do if this is no test; the body is started once, unless an earlier stage fails, and
its caller reports what it finds in the steps that it takes; and the first failure is reported. The
invocation comes to its end unless user code does not. -/
theorem invoke_goes_through_stages (fuel : Nat) {x : Workforce H} (hx : x.world.Reachable)
    {caller : Option WorkerId} (hcaller : ∀ c ∈ caller, c < x.world.workers.length)
    (e : EnforcerId) (q : InvocationRequest) {found : Scope H.Source}
    (hscope : x.world.scope? q.scope = some found)
    (body : Arguments → TokenId → Program H .result) :
    let runner : Runner H := fun program => program.exec fuel caller
    let invocation : Routine H _ := Routine.invoke e q body
    let before := q.callbacks (x.world.beforeCallbacks (x.world.registryOf q.scope))
    let after := q.callbacks (x.world.afterCallbacks (x.world.registryOf q.scope))
    let candidates := x.world.resolvers (x.world.registryOf q.scope)
    (∀ legs outcome y, invocation.RunsAmong fuel caller @runner x legs outcome y →
      (legs.flatMap Leg.marks = [] ∧
          q.Reports outcome (.returned (.error (.cancelled q.kind))) ∧
          y.world.stopRequested e = true) ∨
        x.world.stopRequested e = false ∧ ∃ t : Stages H,
          t.Lawful fuel caller @runner e q body before after candidates ∧
          t.Within x.world legs y.world ∧
          legs.flatMap Leg.marks = t.marks before after candidates ∧
          (t.Started → (legs.flatMap Leg.marks).countP Mark.startsBody = 1) ∧
          (¬ t.Started → (legs.flatMap Leg.marks).countP Mark.startsBody = 0) ∧
          q.Reports outcome t.outcome) ∧
    ((∃ legs outcome y, invocation.RunsAmong fuel caller @runner x legs outcome y) ∨
      invocation.HangsAmong fuel caller @runner x) := by
  intro runner invocation before after candidates
  refine ⟨fun legs outcome y hruns => ?_, ?_⟩
  · have hrunner : Runner.Moves @runner := Program.moves_exec fuel caller
    obtain ⟨result, x₁, x₂, inner, hwait, hresult, hlater, hinner, hmarks, hreports⟩ :=
      Routine.invoke_runsAmong hruns
    rcases Routine.invocationResult_runsAmong hrunner
        (fun c hc => lt_workers_of_meanwhile hwait (hcaller c hc))
        (fun w hmore => beforeCallbacks_registryOf_eq hx (hwait.trans hmore) hscope)
        (fun w hmore => afterCallbacks_registryOf_eq hx (hwait.trans hmore) hscope)
        (fun w hmore => resolvers_registryOf_eq hx (hwait.trans hmore) hscope) hresult with
      ⟨hsilent, rfl, hstop⟩ | ⟨hopen, t, hlaw, hwithin, hstages, rfl⟩
    · exact .inl ⟨hmarks.trans hsilent, hreports, stopRequested_of_meanwhile hlater hstop⟩
    · have hentry : x.world.stopRequested e = false := by
        by_contra hrequested
        simp [stopRequested_of_meanwhile hwait (by simpa using hrequested)] at hopen
      have hcount := hlaw.countP_startsBody
      rw [← hstages, ← hmarks] at hcount
      exact .inr ⟨hentry, t, hlaw, Preparation.Within.mono hwithin hwait hinner hlater,
        hmarks.trans hstages, hcount.1, hcount.2, hreports⟩
  · exact (Routine.compositional_composed.invoke e q body).quiet.runs_or_hangs_among fuel caller _ x

namespace OneTest

/-- How the callback after a test fails. -/
def broken : Failure :=
  .plain (.single "broken")

/-- A world with an enforcer and one scope, in which an extension surrounds tests with callbacks, the
later of which fails. -/
def world : World Host.bare :=
  let plan : ExtensionPlan (Program Host.bare) :=
    ((ExtensionPlan.named "around").withBeforeEach fun _ => .finish (.ok ())).withAfterEach
      fun _ => .finish (.error broken)
  let (stop, w) := (World.initial ()).newToken
  let w := ((w.newEnforcer stop false).2.newExtension plan).2
  (w.newScope (.root "root" ()) none [0]).2

def request : InvocationRequest :=
  ⟨0, .test, .method "Type" "method" [], none, none, none⟩

def body : Arguments → TokenId → Program Host.bare .result := fun _ _ =>
  .finish (.ok ())

def runner : Runner Host.bare := fun program => program.exec 1 none

def invocation : Routine Host.bare (Report Unit) :=
  .invoke 0 request body

/-- The report that the callback after the test has failed. -/
def report : Outcome (Report Unit) :=
  .returned ⟨.test, request.executable.signature, .ofNanos 0,
    .ofResult (.error (callbackError .afterEach "around" broken))⟩

end OneTest

open OneTest in
theorem invoke_goes_through_stages_oneTest :
    let before := world.beforeCallbacks 0
    let after := world.afterCallbacks 0
    ∃ m x legs y, Machine.Embodies ⟨world, [], 0⟩ x ∧
      Machine.drive 1 9 (invocation.play @runner) ⟨world, [], 0⟩ = some (report, m) ∧
      invocation.RunsAmong 1 none @runner x legs report y ∧ before.length = 1 ∧ after.length = 1 ∧
      ∃ t : Stages Host.bare, t.Lawful 1 none @runner 0 request body before after [] ∧
        t.Within world legs y.world ∧ legs.flatMap Leg.marks = t.marks before after [] ∧
        (t.Started → (legs.flatMap Leg.marks).countP Mark.startsBody = 1) ∧
        (¬ t.Started → (legs.flatMap Leg.marks).countP Mark.startsBody = 0) ∧
        request.Reports report t.outcome := by
  intro before after
  have hdrive : Machine.drive 1 9 (invocation.play @runner) ⟨world, [], 0⟩ = some (report,
      ((Machine.drive 1 9 (invocation.play @runner) ⟨world, [], 0⟩).get rfl).2) := rfl
  obtain ⟨x, hx⟩ := Machine.embodies_of_no_threads world
  have hquiet : (invocation.play @runner).Quiet :=
    (Routine.compositional_composed.invoke _ _ _).quiet.play fun program => program.quiet_exec 1 none
  obtain ⟨legs, y, -, hruns⟩ := hx.runsAmong hquiet hdrive
  have hworld : x.world = world := hx.world
  have hreachable : x.world.Reachable := by
    rw [hworld]
    exact ⟨(), .tail (.tail (.tail (.single (.plain (.tokenMade _))) (.plain (.enforcerMade _ _ _)))
      (.plain (.extensionMade _ _))) (.plain (.scopeMade _ _ _ _))⟩
  have hcaller : ∀ c ∈ (none : Option WorkerId), c < x.world.workers.length := by simp
  have hlaw := (invoke_goes_through_stages 1 hreachable hcaller 0 request (by rw [hworld]; rfl)
    body).1 legs report y hruns
  rw [hworld] at hlaw
  rcases hlaw with ⟨-, ⟨duration, hcancelled⟩, -⟩ | ⟨-, t, hlaw⟩
  · cases hcancelled
  · exact ⟨_, x, legs, y, hx, hdrive, hruns, rfl, rfl, t, hlaw⟩

end TimedInvocation
