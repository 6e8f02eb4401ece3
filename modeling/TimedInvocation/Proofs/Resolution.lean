import TimedInvocation.Proofs.Legs
import TimedInvocation.Proofs.Transcripts

/-!
# Resolution of arguments

What resolving the arguments of an executable does, read off the answers of the resolvers: which of
them are asked, in which order, which one resolves a parameter, and which failure is reported. The
answers may depend on everything that happened before, since the calls are those of an actual run.
-/

namespace TimedInvocation

open Relation World

variable {H : Host}

/-- What was done about one parameter: the calls that asked whether resolvers support it, the call that
resolved it, and how that ended. -/
structure Handling (H : Host) where
  context : ParameterContext
  asked : List (Call H .verdict)
  resolved : Option (Call H .value)
  outcome : Outcome (Except ResolutionError (Option Value))

/-- Whether a resolver that was asked claims the parameter. -/
def Call.claims (call : Call H .verdict) : Bool :=
  match call.outcome with
  | .returned (.ok claimed) => claimed
  | _ => false

/-- What the answer of the resolver of a parameter comes to. -/
def ParameterContext.judge (c : ParameterContext) (resolver : String) :
    Outcome (Except Failure (Option Value)) → Outcome (Except ResolutionError (Option Value))
  | .panicked payload => .panicked payload
  | .returned (.error e) => .returned (.error (c.wrap e))
  | .returned (.ok value) =>
    if c.parameter.type.accepts value then .returned (.ok value)
    else .returned (.error (c.misfit resolver value))

/-- The candidates among those that were asked that claim the parameter. -/
def claimants (candidates : List (Candidate H)) (asked : List (Call H .verdict)) :
    List (Candidate H) :=
  ((candidates.zip asked).filter fun p => p.2.claims).map Prod.fst

namespace Handling

/-- The marks that are left when candidates are asked and one of them resolves the parameter. -/
def marks (candidates : List (Candidate H)) (h : Handling H) : List (Mark H) :=
  (candidates.zip h.asked).flatMap
      (fun p => p.2.marks (.supports p.1.1.id h.context.index)) ++
    ((claimants candidates h.asked).zip h.resolved.toList).flatMap
      fun p => p.2.marks (.resolve p.1.1.id h.context.index)

/-- Every candidate is asked once, in order, until one fails. If none does and exactly one claims the
parameter, that one resolves it. In all other cases nothing is resolved. -/
structure Lawful (scope : ScopeId) (candidates : List (Candidate H)) (h : Handling H) : Prop where
  asked : UpToFirst Call.program (fun call : Call H .verdict => call.outcome.Succeeds)
    (candidates.map fun candidate => candidate.2.supports h.context scope) h.asked
  panicked : ∀ call ∈ h.asked, ∀ payload, call.outcome = .panicked payload →
    h.resolved = none ∧ h.outcome = .panicked payload
  failed : ∀ call ∈ h.asked, ∀ e, call.outcome = .returned (.error e) →
    h.resolved = none ∧ h.outcome = .returned (.error (h.context.wrap e))
  unclaimed : (∀ call ∈ h.asked, call.outcome.Succeeds) → claimants candidates h.asked = [] →
    h.resolved = none ∧ h.outcome = .returned (.error ⟨h.context.summary, .noResolver⟩)
  claimed : (∀ call ∈ h.asked, call.outcome.Succeeds) →
    ∀ candidate, claimants candidates h.asked = [candidate] →
      ∃ call, h.resolved = some call ∧ call.program = candidate.2.resolve h.context scope ∧
        h.outcome = h.context.judge candidate.1.describe call.outcome
  contested : (∀ call ∈ h.asked, call.outcome.Succeeds) →
    2 ≤ (claimants candidates h.asked).length →
      h.resolved = none ∧ h.outcome = .returned (.error ⟨h.context.summary, .ambiguousResolvers
        ((claimants candidates h.asked).map fun candidate => candidate.1.describe)⟩)

/-- If all candidates answer, only the number of claims matters. -/
theorem Lawful.of_answered {scope : ScopeId} {candidates : List (Candidate H)} {h : Handling H}
    (hasked : UpToFirst Call.program (fun call : Call H .verdict => call.outcome.Succeeds)
      (candidates.map fun candidate => candidate.2.supports h.context scope) h.asked)
    (hall : ∀ call ∈ h.asked, call.outcome.Succeeds)
    (hunclaimed : claimants candidates h.asked = [] →
      h.resolved = none ∧ h.outcome = .returned (.error ⟨h.context.summary, .noResolver⟩))
    (hclaimed : ∀ candidate, claimants candidates h.asked = [candidate] →
      ∃ call, h.resolved = some call ∧ call.program = candidate.2.resolve h.context scope ∧
        h.outcome = h.context.judge candidate.1.describe call.outcome)
    (hcontested : 2 ≤ (claimants candidates h.asked).length →
      h.resolved = none ∧ h.outcome = .returned (.error ⟨h.context.summary, .ambiguousResolvers
        ((claimants candidates h.asked).map fun candidate => candidate.1.describe)⟩)) :
    h.Lawful scope candidates := by
  refine ⟨hasked, fun call hcall payload hpanic => ?_, fun call hcall e hfail => ?_,
    fun _ => hunclaimed, fun _ => hclaimed, fun _ => hcontested⟩
  · obtain ⟨a, hok⟩ := hall call hcall
    simp [hok] at hpanic
  · obtain ⟨a, hok⟩ := hall call hcall
    simp [hok] at hfail

end Handling

section Parameter

variable {others : World H → World H → Prop} {runner : Runner H} {w w' : World H}
variable {marks : List (Mark H)} {scope : ScopeId} {c : ParameterContext}

/-- The resolvers are asked in order until one fails. -/
theorem Routine.claims_runs {candidates : List (Candidate H)}
    {outcome : Outcome (Except Failure (List (Candidate H)))}
    (hruns : (Routine.claims scope c candidates).Runs others @runner w marks outcome w') :
    ∃ asked : List (Call H .verdict),
      UpToFirst Call.program (fun call : Call H .verdict => call.outcome.Succeeds)
        (candidates.map fun candidate => candidate.2.supports c scope) asked ∧
      marks = (candidates.zip asked).flatMap (fun p => p.2.marks (.supports p.1.1.id c.index)) ∧
      (∀ call ∈ asked, ∀ payload, call.outcome = .panicked payload →
        outcome = .panicked payload) ∧
      (∀ call ∈ asked, ∀ e, call.outcome = .returned (.error e) →
        outcome = .returned (.error e)) ∧
      ((∀ call ∈ asked, call.outcome.Succeeds) →
        outcome = .returned (.ok (claimants candidates asked))) := by
  induction candidates generalizing w w' marks outcome with
  | nil =>
      obtain ⟨rfl, rfl, -⟩ := Routine.runs_pure_iff.mp hruns
      exact ⟨[], .nil, rfl, by simp, by simp, fun _ => rfl⟩
  | cons candidate rest ih =>
      obtain ⟨call, hprogram, hrest⟩ := Routine.runs_recorded_call hruns
      have hplan : (candidate :: rest).map (fun candidate => candidate.2.supports c scope) =
          call.program :: rest.map fun candidate => candidate.2.supports c scope := by
        rw [hprogram, List.map_cons]
      rw [hplan]
      rcases hrest with ⟨verdict, later, w₁, hreturned, rfl, hrest⟩ | ⟨payload, hpanic, rfl, rfl⟩
      · cases verdict with
        | error e =>
            obtain ⟨rfl, rfl, -⟩ := Routine.runs_pure_iff.mp hrest
            refine ⟨[call], .stop ?_, ?_, ?_, ?_, ?_⟩
            all_goals simp [Outcome.Succeeds, hreturned]
        | ok claimed =>
            have hsucceeds : call.outcome.Succeeds := ⟨claimed, hreturned⟩
            obtain ⟨answer, w₂, hothers, rfl⟩ := Routine.runs_mapOk hrest
              (fun others => if claimed then candidate :: others else others)
              fun answer => by cases answer <;> rfl
            obtain ⟨asked, hasked, rfl, hpanicked, hfailed, hanswered⟩ := ih hothers
            refine ⟨call :: asked, .cons hsucceeds hasked, by simp, ?_, ?_, ?_⟩
            · intro other hother payload hpanic
              rcases List.mem_cons.mp hother with rfl | hother
              · simp [hreturned] at hpanic
              · simp [hpanicked other hother payload hpanic, Outcome.mapOk]
            · intro other hother e hfail
              rcases List.mem_cons.mp hother with rfl | hother
              · simp [hreturned] at hfail
              · simp [hfailed other hother e hfail, Outcome.mapOk]
            · intro hall
              rw [hanswered fun other hother => hall other (List.mem_cons_of_mem call hother)]
              have hclaims : call.claims = claimed := by
                simp [Call.claims, hreturned]
              cases claimed <;> simp [Outcome.mapOk, claimants, hclaims]
      · refine ⟨[call], .stop ?_, ?_, ?_, ?_, ?_⟩
        all_goals simp [Outcome.Succeeds, hpanic]

/-- The resolver of a parameter is called once, and its answer is judged by the declared type. -/
theorem Routine.resolveBy_runs {candidate : Candidate H}
    {outcome : Outcome (Except ResolutionError (Option Value))}
    (hruns : (Routine.resolveBy scope c candidate).Runs others @runner w marks outcome w') :
    ∃ call : Call H .value, call.program = candidate.2.resolve c scope ∧
      marks = call.marks (.resolve candidate.1.id c.index) ∧
      outcome = c.judge candidate.1.describe call.outcome := by
  obtain ⟨call, hprogram, hrest⟩ := Routine.runs_recorded_call hruns
  refine ⟨call, hprogram, ?_⟩
  rcases hrest with ⟨answer, later, w₁, hreturned, rfl, hrest⟩ | ⟨payload, hpanic, rfl, rfl⟩
  · rw [hreturned]
    cases answer with
    | error e =>
        obtain ⟨rfl, rfl, -⟩ := Routine.runs_pure_iff.mp hrest
        exact ⟨by simp, rfl⟩
    | ok value =>
        simp only at hrest
        split at hrest
        case isTrue haccepts =>
          obtain ⟨w₂, -, hend⟩ := Routine.runs_log_bind hrest
          obtain ⟨rfl, rfl, -⟩ := Routine.runs_pure_iff.mp hend
          simp [ParameterContext.judge, haccepts]
        case isFalse hrejects =>
          obtain ⟨rfl, rfl, -⟩ := Routine.runs_pure_iff.mp hrest
          simp [ParameterContext.judge, hrejects]
  · rw [hpanic]
    exact ⟨rfl, rfl⟩

/-- What is done about one parameter, when the resolvers do not change in the meantime. -/
theorem Routine.resolveParameter_runs {candidates : List (Candidate H)}
    {outcome : Outcome (Except ResolutionError (Option Value))}
    (hcandidates : ∀ w₁, ReflTransGen others w w₁ →
      w₁.resolvers (w₁.registryOf scope) = candidates)
    (hruns : (Routine.resolveParameter scope c).Runs others @runner w marks outcome w') :
    ∃ h : Handling H, h.context = c ∧ h.Lawful scope candidates ∧
      marks = h.marks candidates ∧ outcome = h.outcome := by
  obtain ⟨w₁, hwait, hrest⟩ := Routine.runs_view_bind hruns
  rw [hcandidates w₁ hwait] at hrest
  rcases Routine.runs_bind_iff.mp hrest with ⟨answer, w₂, first, second, hclaims, hrest, rfl⟩ |
    ⟨payload, hclaims, rfl⟩
  · obtain ⟨asked, hasked, rfl, hpanicked, hfailed, hanswered⟩ := Routine.claims_runs hclaims
    cases answer with
    | error e =>
        obtain ⟨rfl, rfl, -⟩ := Routine.runs_pure_iff.mp hrest
        have hnot : ¬ ∀ call ∈ asked, call.outcome.Succeeds := fun hall => by
          simpa using hanswered hall
        refine ⟨⟨c, asked, none, .returned (.error (c.wrap e))⟩, rfl, ⟨hasked, ?_, ?_, ?_, ?_, ?_⟩,
          by simp [Handling.marks], rfl⟩
        · intro call hcall payload hpanic
          simpa using hpanicked call hcall payload hpanic
        · intro call hcall e' hfail
          have hsame : e = e' := by simpa using hfailed call hcall e' hfail
          simp [hsame]
        all_goals exact fun hall => absurd hall hnot
    | ok claimed =>
        have hall : ∀ call ∈ asked, call.outcome.Succeeds := by
          intro call hcall
          rcases call.outcome.succeeds_or with hok | ⟨e, hfail⟩ | ⟨payload, hpanic⟩
          · exact hok
          · simpa using hfailed call hcall e hfail
          · simpa using hpanicked call hcall payload hpanic
        have hclaimed : claimants candidates asked = claimed := by
          simpa using (hanswered hall).symm
        rcases claimed with _ | ⟨candidate, _ | ⟨second, others⟩⟩
        · obtain ⟨rfl, rfl, -⟩ := Routine.runs_pure_iff.mp hrest
          refine ⟨⟨c, asked, none, _⟩, rfl, .of_answered hasked hall ?_ ?_ ?_,
            by simp [Handling.marks], rfl⟩
          · exact fun _ => ⟨rfl, rfl⟩
          · simp [hclaimed]
          · simp [hclaimed]
        · obtain ⟨call, hprogram, rfl, rfl⟩ := Routine.resolveBy_runs hrest
          refine ⟨⟨c, asked, some call, _⟩, rfl, .of_answered hasked hall ?_ ?_ ?_,
            by simp [Handling.marks, hclaimed], rfl⟩
          · simp [hclaimed]
          · intro only honly
            obtain rfl : candidate = only := by simpa [hclaimed] using honly
            exact ⟨call, rfl, hprogram, rfl⟩
          · simp [hclaimed]
        · obtain ⟨rfl, rfl, -⟩ := Routine.runs_pure_iff.mp hrest
          refine ⟨⟨c, asked, none, _⟩, rfl, .of_answered hasked hall ?_ ?_ ?_,
            by simp [Handling.marks], rfl⟩
          · simp [hclaimed]
          · simp [hclaimed]
          · exact fun _ => ⟨rfl, by rw [hclaimed]⟩
  · obtain ⟨asked, hasked, rfl, hpanicked, hfailed, hanswered⟩ := Routine.claims_runs hclaims
    have hnot : ¬ ∀ call ∈ asked, call.outcome.Succeeds := fun hall => by
      simpa using hanswered hall
    refine ⟨⟨c, asked, none, .panicked payload⟩, rfl, ⟨hasked, ?_, ?_, ?_, ?_, ?_⟩,
      by simp [Handling.marks], rfl⟩
    · intro call hcall payload' hpanic
      simpa using hpanicked call hcall payload' hpanic
    · intro call hcall e hfail
      simpa using hfailed call hcall e hfail
    all_goals exact fun hall => absurd hall hnot

end Parameter

/-- The contexts of parameters, counted from an index. -/
def contextsFrom (x : Executable) (target : Option Value) (index : Nat)
    (parameters : List Parameter) : List ParameterContext :=
  (parameters.zipIdx index).map fun p => ⟨x, p.1, p.2, target⟩

/-- The slots that an outer instance takes: the first one, if there is any. -/
def outerSlots (x : Executable) (outer : Option Value) : Arguments :=
  (outer.toList.map some).take x.parameters.length

/-- The contexts of the parameters that are left to the resolvers. -/
def openContexts (x : Executable) (target outer : Option Value) : List ParameterContext :=
  (contextsFrom x target 0 x.parameters).drop (outerSlots x outer).length

/-- What the candidates make of several parameters: they are handled in order, up to the first one that
fails, which decides the outcome. If none fails, there is one more slot for each of them. -/
structure ResolutionLaw (scope : ScopeId) (candidates : List (Candidate H)) (slots : Arguments)
    (contexts : List ParameterContext) (handlings : List (Handling H)) (marks : List (Mark H))
    (outcome : Outcome (Except ResolutionError Arguments)) : Prop where
  handled : UpToFirst Handling.context (fun h => h.outcome.Succeeds) contexts handlings
  lawful : ∀ h ∈ handlings, h.Lawful scope candidates
  left : marks = handlings.flatMap (Handling.marks candidates)
  panicked : ∀ h ∈ handlings, ∀ payload, h.outcome = .panicked payload →
    outcome = .panicked payload
  failed : ∀ h ∈ handlings, ∀ e, h.outcome = .returned (.error e) → outcome = .returned (.error e)
  succeeded : ∀ values : Arguments,
    (handlings.map Handling.outcome = values.map fun value => .returned (.ok value)) →
      outcome = .returned (.ok (slots ++ values))

namespace ResolutionLaw

variable {scope : ScopeId} {candidates : List (Candidate H)} {slots : Arguments}
variable {contexts : List ParameterContext} {handlings : List (Handling H)} {marks : List (Mark H)}
variable {outcome : Outcome (Except ResolutionError Arguments)}

theorem nil : ResolutionLaw scope candidates [] [] [] [] (.returned (.ok [])) :=
  ⟨.nil, by simp, rfl, by simp, by simp, fun values hvalues => by simp_all⟩

/-- The first parameter fails. -/
theorem stop {h : Handling H} (hlawful : h.Lawful scope candidates) (hstop : ¬ h.outcome.Succeeds) :
    ResolutionLaw scope candidates [] (h.context :: contexts) [h] (h.marks candidates)
      (h.outcome.mapOk fun value => [value]) := by
  refine ⟨.stop hstop, by simpa using hlawful, by simp, ?_, ?_, fun values hvalues => ?_⟩
  · simp +contextual [Outcome.mapOk]
  · simp +contextual [Outcome.mapOk]
  · cases values with
    | nil => simp at hvalues
    | cons value rest =>
        have hok : h.outcome = .returned (.ok value) := by
          simp only [List.map_cons, List.map_nil, List.cons.injEq] at hvalues
          exact hvalues.1
        exact absurd ⟨value, hok⟩ hstop

/-- The first parameter is resolved and the others follow. -/
theorem cons {h : Handling H} {value : Option Value} (hlawful : h.Lawful scope candidates)
    (hok : h.outcome = .returned (.ok value))
    (hrest : ResolutionLaw scope candidates [] contexts handlings marks outcome) :
    ResolutionLaw scope candidates [] (h.context :: contexts) (h :: handlings)
      (h.marks candidates ++ marks) (outcome.mapOk fun values => value :: values) := by
  have hsucceeds : h.outcome.Succeeds := ⟨value, hok⟩
  refine ⟨.cons hsucceeds hrest.handled, ?_, by simp [hrest.left], ?_, ?_, ?_⟩
  · simpa using ⟨hlawful, hrest.lawful⟩
  · intro other hother payload hpanic
    rcases List.mem_cons.mp hother with rfl | hother
    · simp [hok] at hpanic
    · simp [hrest.panicked other hother payload hpanic, Outcome.mapOk]
  · intro other hother e hfail
    rcases List.mem_cons.mp hother with rfl | hother
    · simp [hok] at hfail
    · simp [hrest.failed other hother e hfail, Outcome.mapOk]
  · intro values hvalues
    cases values with
    | nil => simp at hvalues
    | cons first others =>
        simp only [List.map_cons, List.cons.injEq, hok, Outcome.returned.injEq, Except.ok.injEq]
          at hvalues
        obtain ⟨rfl, hothers⟩ := hvalues
        simp [hrest.succeeded others hothers, Outcome.mapOk]

/-- A slot in front of those that are resolved. -/
theorem prepend (slot : Option Value)
    (hlaw : ResolutionLaw scope candidates [] contexts handlings marks outcome) :
    ResolutionLaw scope candidates [slot] contexts handlings marks
      (outcome.mapOk fun values => slot :: values) := by
  refine ⟨hlaw.handled, hlaw.lawful, hlaw.left, fun h hh payload hpanic => ?_, fun h hh e hfail => ?_,
    fun values hvalues => ?_⟩
  · simp [hlaw.panicked h hh payload hpanic, Outcome.mapOk]
  · simp [hlaw.failed h hh e hfail, Outcome.mapOk]
  · simp [hlaw.succeeded values hvalues, Outcome.mapOk]

/-- There is one slot for each parameter if no failure is reported. -/
theorem length_eq {arguments : Arguments}
    (hlaw : ResolutionLaw scope candidates slots contexts handlings marks outcome)
    (hok : outcome = .returned (.ok arguments)) :
    arguments.length = slots.length + contexts.length := by
  have hall : ∀ h ∈ handlings, h.outcome.Succeeds := by
    intro h hh
    rcases h.outcome.succeeds_or with hsucceeds | ⟨e, hfail⟩ | ⟨payload, hpanic⟩
    · exact hsucceeds
    · simp [hlaw.failed h hh e hfail] at hok
    · simp [hlaw.panicked h hh payload hpanic] at hok
  obtain ⟨values, hvalues⟩ : ∃ values : Arguments,
      handlings.map Handling.outcome = values.map fun value => .returned (.ok value) := by
    clear hlaw
    induction handlings with
    | nil => exact ⟨[], rfl⟩
    | cons h rest ih =>
        obtain ⟨value, hvalue⟩ := hall h List.mem_cons_self
        obtain ⟨values, hvalues⟩ := ih fun other hother => hall other (List.mem_cons_of_mem h hother)
        exact ⟨value :: values, by simp [hvalue, hvalues]⟩
  have hslots : arguments = slots ++ values := by
    simpa [hok] using hlaw.succeeded values hvalues
  have hvalues_length : handlings.length = values.length := by
    simpa using congrArg List.length hvalues
  have hcontexts_length : handlings.length = contexts.length := by
    simpa using congrArg List.length (hlaw.handled.complete hall)
  simp [hslots, ← hvalues_length, hcontexts_length]

end ResolutionLaw

section Run

variable {runner : Runner H} {w w' : World H} {marks : List (Mark H)} {scope : ScopeId}
variable {candidates : List (Candidate H)}
variable {outcome : Outcome (Except ResolutionError Arguments)}

/-- What is done about several parameters, as long as the resolvers remain the same. -/
theorem Routine.resolveFrom_runs (hrunner : Runner.Moves @runner)
    (hcandidates : ∀ w₁, Meanwhile w w₁ → w₁.resolvers (w₁.registryOf scope) = candidates)
    {x : Executable} {target : Option Value} {index : Nat} {parameters : List Parameter}
    (hruns : (Routine.resolveFrom scope x target index parameters).Runs Move @runner w marks
      outcome w') :
    ∃ handlings, ResolutionLaw scope candidates [] (contextsFrom x target index parameters)
      handlings marks outcome := by
  induction parameters generalizing index w w' marks outcome with
  | nil =>
      obtain ⟨rfl, rfl, -⟩ := Routine.runs_pure_iff.mp hruns
      exact ⟨[], .nil⟩
  | cons parameter rest ih =>
      rcases Routine.runs_bind_iff.mp hruns with ⟨answer, w₁, first, second, hfirst, hrest, rfl⟩ |
        ⟨payload, hfirst, rfl⟩
      · obtain ⟨h, hcontext, hlawful, rfl, hanswer⟩ :=
          Routine.resolveParameter_runs hcandidates hfirst
        have hmoves : Meanwhile w w₁ :=
          (Routine.compositional_composed.announcing.resolveParameter _ _).moves.meanwhile hrunner hfirst
        cases answer with
        | error e =>
            obtain ⟨rfl, rfl, -⟩ := Routine.runs_pure_iff.mp hrest
            have hstop : ¬ h.outcome.Succeeds := by simp [← hanswer, Outcome.Succeeds]
            refine ⟨[h], ?_⟩
            simpa [contextsFrom, ← hcontext, ← hanswer, Outcome.mapOk] using
              ResolutionLaw.stop hlawful hstop
        | ok value =>
            obtain ⟨later, w₂, hlater, rfl⟩ := Routine.runs_mapOk hrest
              (fun values => value :: values) fun answer => by cases answer <;> rfl
            obtain ⟨handlings, hlaw⟩ := ih
              (fun w₂ hmore => hcandidates w₂ (hmoves.trans hmore)) hlater
            refine ⟨h :: handlings, ?_⟩
            simp only [contextsFrom, List.zipIdx_cons, List.map_cons, ← hcontext]
            exact .cons hlawful hanswer.symm hlaw
      · obtain ⟨h, hcontext, hlawful, rfl, hanswer⟩ :=
          Routine.resolveParameter_runs hcandidates hfirst
        have hstop : ¬ h.outcome.Succeeds := by simp [← hanswer, Outcome.Succeeds]
        refine ⟨[h], ?_⟩
        simpa [contextsFrom, ← hcontext, ← hanswer, Outcome.mapOk] using
          ResolutionLaw.stop hlawful hstop

/-- Resolving the arguments of an executable follows the law, with the resolvers that are visible
from the scope. -/
theorem Routine.resolveArguments_runs (hrunner : Runner.Moves @runner)
    (hcandidates : ∀ w₁, Meanwhile w w₁ → w₁.resolvers (w₁.registryOf scope) = candidates)
    {x : Executable} {target outer : Option Value}
    (hruns : (Routine.resolveArguments scope x target outer).Runs Move @runner w marks outcome w') :
    ∃ handlings, ResolutionLaw scope candidates (outerSlots x outer) (openContexts x target outer)
      handlings marks outcome := by
  cases outer with
  | none =>
      obtain ⟨handlings, hlaw⟩ := Routine.resolveFrom_runs hrunner hcandidates hruns
      exact ⟨handlings, by simpa [openContexts, outerSlots] using hlaw⟩
  | some instance_ =>
      simp only [Routine.resolveArguments] at hruns
      cases hparameters : x.parameters with
      | nil =>
          rw [hparameters] at hruns
          obtain ⟨handlings, hlaw⟩ := Routine.resolveFrom_runs hrunner hcandidates hruns
          exact ⟨handlings, by simpa [openContexts, outerSlots, hparameters] using hlaw⟩
      | cons first rest =>
          rw [hparameters] at hruns
          obtain ⟨later, w₁, hlater, rfl⟩ := Routine.runs_mapOk hruns
            (fun values => some instance_ :: values) fun answer => by cases answer <;> rfl
          obtain ⟨handlings, hlaw⟩ := Routine.resolveFrom_runs hrunner hcandidates hlater
          refine ⟨handlings, ?_⟩
          simpa [outerSlots, openContexts, contextsFrom, hparameters] using
            hlaw.prepend (some instance_)

end Run

/-- Whatever the resolvers do and whatever happens in the meantime, resolving the arguments of an
executable follows the law: the parameters that no outer instance fills are handled in ascending
order, every visible resolver is asked about each of them, and the first failure is the outcome. The
resolution comes to its end unless a resolver does not. -/
theorem resolveArguments_follows_law (fuel : Nat) (worker : Option Nat) {w : World H}
    (hw : w.Reachable) {scope : ScopeId} {found : Scope H.Source}
    (hscope : w.scope? scope = some found) (x : Executable) (target outer : Option Value) :
    let runner : Runner H := fun program => program.exec fuel worker
    let resolution : Routine H _ := Routine.resolveArguments scope x target outer
    (∀ marks outcome w', resolution.Runs Move @runner w marks outcome w' →
      (∃ handlings, ResolutionLaw scope (w.resolvers (w.registryOf scope)) (outerSlots x outer)
        (openContexts x target outer) handlings marks outcome) ∧
      ∀ arguments, outcome = .returned (.ok arguments) →
        arguments.length = x.parameters.length) ∧
    ((∃ marks outcome w', resolution.Runs Move @runner w marks outcome w') ∨
      resolution.Hangs Move @runner w) := by
  intro runner resolution
  refine ⟨fun marks outcome w' hruns => ?_, ?_⟩
  · obtain ⟨handlings, hlaw⟩ := Routine.resolveArguments_runs (Program.moves_exec fuel worker)
      (fun w₁ hmoves => World.resolvers_registryOf_eq hw hmoves hscope) hruns
    refine ⟨⟨handlings, hlaw⟩, fun arguments hok => ?_⟩
    have hcount := hlaw.length_eq hok
    have hslots : (outerSlots x outer).length ≤ x.parameters.length :=
      List.length_take_le _ _
    simp only [openContexts, contextsFrom, List.length_drop, List.length_map,
      List.length_zipIdx] at hcount
    omega
  · exact (Routine.compositional_composed.announcing.resolveArguments scope x target outer).moves.runs_or_hangs w

/-- A world with one scope, in which an extension resolves every parameter to nothing. -/
def oneResolver : World Host.bare :=
  let plan : ExtensionPlan (Program Host.bare) := (ExtensionPlan.named "nothing").withResolver
    ⟨fun _ _ => .finish (.ok true), fun _ _ => .finish (.ok none)⟩
  (((World.initial ()).newExtension plan).2.newScope (.root "root" ()) none [0]).2

theorem resolveArguments_follows_law_oneResolver :
    let x : Executable := .method "Type" "method" [⟨"first", .any, []⟩, ⟨"second", .any, []⟩]
    let runner : Runner Host.bare := fun program => program.exec 1 none
    let resolution : Routine Host.bare _ := Routine.resolveArguments 0 x none (some ⟨0, .unit⟩)
    let arguments : Arguments := [some ⟨0, .unit⟩, none]
    ∃ m marks,
      Machine.drive 1 9 (resolution.play @runner) ⟨oneResolver, [], 0⟩ =
        some (.returned (.ok arguments), m) ∧
      resolution.Runs Move @runner oneResolver marks (.returned (.ok arguments)) m.world ∧
      (∃ handlings, ResolutionLaw 0 (oneResolver.resolvers 0) [some ⟨0, .unit⟩]
        [⟨x, ⟨"second", .any, []⟩, 1, none⟩] handlings marks (.returned (.ok arguments))) ∧
      arguments.length = x.parameters.length := by
  intro x runner resolution arguments
  have hreachable : oneResolver.Reachable :=
    ⟨(), .tail (.single (.plain (.extensionMade _ _))) (.plain (.scopeMade _ _ _ _))⟩
  have hquiet : (resolution.play @runner).Quiet :=
    (Routine.compositional_composed.announcing.resolveArguments 0 x none _).quiet.play
      fun program => program.quiet_exec 1 none
  have hdrive : Machine.drive 1 9 (resolution.play @runner) ⟨oneResolver, [], 0⟩ =
      some (.returned (.ok arguments),
        ((Machine.drive 1 9 (resolution.play @runner) ⟨oneResolver, [], 0⟩).get rfl).2) := rfl
  obtain ⟨y, hy⟩ := Machine.embodies_of_no_threads oneResolver
  obtain ⟨marks, hruns⟩ := hy.runs hquiet hdrive
  obtain ⟨hlaw, hlength⟩ :=
    (resolveArguments_follows_law 1 none hreachable rfl x none (some ⟨0, .unit⟩)).1 _ _ _ hruns
  exact ⟨_, marks, hdrive, hruns, hlaw, hlength arguments rfl⟩

end TimedInvocation
