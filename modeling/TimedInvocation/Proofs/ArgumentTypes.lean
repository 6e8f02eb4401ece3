import Mathlib.Data.List.Forall2
import TimedInvocation.Proofs.Resolution

/-!
# Types of resolved arguments

What the declared types of parameters say about the arguments that a resolution returns. Whatever the
resolvers do, an argument that one of them supplies has the declared type. An outer instance takes its
slot as it is: nothing compares it with the type of the parameter, so the arguments are well typed
exactly if the outer instance is.
-/

namespace TimedInvocation

open Relation

variable {H : Host}

/-- What a declared type says about a slot: it is not empty if the type is primitive, and a value in it
has the type that values are restricted to. -/
structure ParameterType.Holds (p : ParameterType) (slot : Option Value) : Prop where
  present : p.isPrimitive = true → slot ≠ none
  typed : ∀ t, p.ty? = some t → ∀ v, slot = some v → v.ty = t

theorem ParameterType.accepts_iff_holds (p : ParameterType) (slot : Option Value) :
    p.accepts slot = true ↔ p.Holds slot := by
  constructor
  · intro haccepts
    constructor
    case present =>
      rintro hprimitive rfl
      cases p <;> cases haccepts <;> cases hprimitive
    case typed =>
      rintro t hrestricted v rfl
      cases p with
      | any => cases hrestricted
      | primitive | reference =>
          cases hrestricted
          exact of_decide_eq_true haccepts
  · rintro ⟨hpresent, htyped⟩
    cases p with
    | any => rfl
    | primitive t =>
        cases slot with
        | none => exact absurd rfl (hpresent rfl)
        | some v => exact decide_eq_true (htyped t rfl v rfl)
    | reference t =>
        cases slot with
        | none => rfl
        | some v => exact decide_eq_true (htyped t rfl v rfl)

theorem ParameterContext.holds_of_judge (c : ParameterContext) {resolver : String}
    {answer : Outcome (Except Failure (Option Value))} {value : Option Value}
    (hjudged : c.judge resolver answer = .returned (.ok value)) : c.parameter.type.Holds value := by
  rcases answer with (failure | resolved) | payload
  case returned.ok =>
    rw [judge] at hjudged
    split at hjudged
    case isTrue haccepts =>
      cases hjudged
      exact (c.parameter.type.accepts_iff_holds value).mp haccepts
    case isFalse => cases hjudged
  all_goals cases hjudged

/-- One slot for each parameter, of which the declared type holds. -/
def WellTyped (parameters : List Parameter) (arguments : Arguments) : Prop :=
  List.Forall₂ (fun parameter slot => parameter.type.Holds slot) parameters arguments

namespace Routine

variable {others : World H → World H → Prop} {runner : Runner H} {w w' : World H}
variable {marks : List (Mark H)} {scope : ScopeId} {x : Executable} {target : Option Value}

/-- What is resolved for a parameter has been compared with its type. -/
theorem resolveParameter_holds {c : ParameterContext} {value : Option Value}
    (hruns : (resolveParameter scope c).Runs others @runner w marks (.returned (.ok value)) w') :
    c.parameter.type.Holds value := by
  obtain ⟨w₁, -, hrest⟩ := runs_view_bind hruns
  rcases runs_bind_iff.mp hrest with ⟨answer, w₂, first, second, -, hrest, -⟩ | ⟨payload, -, hpanic⟩
  case inr => cases hpanic
  rcases answer with failure | _ | ⟨candidate, _ | ⟨second, others⟩⟩
  case ok.cons.nil =>
    obtain ⟨call, -, -, hjudged⟩ := resolveBy_runs hrest
    exact c.holds_of_judge hjudged.symm
  all_goals cases (runs_pure_iff.mp hrest).2.1

/-- Every parameter that is left to the resolvers gets a slot of its type. -/
theorem resolveFrom_wellTyped {index : Nat} {parameters : List Parameter} {arguments : Arguments}
    (hruns : (resolveFrom scope x target index parameters).Runs others @runner w marks
      (.returned (.ok arguments)) w') : WellTyped parameters arguments := by
  induction parameters generalizing index w w' marks arguments with
  | nil =>
      obtain ⟨-, hended, -⟩ := runs_pure_iff.mp hruns
      cases hended
      exact .nil
  | cons parameter rest ih =>
      rcases runs_bind_iff.mp hruns with ⟨answer, w₁, first, second, hfirst, hrest, -⟩ |
        ⟨payload, -, hpanic⟩
      case inr => cases hpanic
      cases answer with
      | error e => cases (runs_pure_iff.mp hrest).2.1
      | ok value =>
          obtain ⟨later, w₂, hlater, hended⟩ := runs_mapOk hrest (fun values => value :: values)
            fun answer => by cases answer <;> rfl
          rcases later with (e | values) | payload
          case returned.ok =>
            cases hended
            exact .cons (resolveParameter_holds hfirst) (ih hlater)
          all_goals cases hended

/-- The outer instance comes first, as it is, and the resolvers fill the slots after it. -/
theorem resolveArguments_slots {outer : Option Value} {arguments : Arguments}
    (hruns : (resolveArguments scope x target outer).Runs others @runner w marks
      (.returned (.ok arguments)) w') :
    ∃ resolved, arguments = outerSlots x outer ++ resolved ∧
      WellTyped (x.parameters.drop (outerSlots x outer).length) resolved := by
  cases outer with
  | none =>
      refine ⟨arguments, ?_, ?_⟩
      · simp [outerSlots]
      · simpa [outerSlots] using resolveFrom_wellTyped hruns
  | some instance_ =>
      simp only [resolveArguments] at hruns
      cases hparameters : x.parameters with
      | nil =>
          rw [hparameters] at hruns
          refine ⟨arguments, ?_, ?_⟩
          · simp [outerSlots, hparameters]
          · simpa using resolveFrom_wellTyped hruns
      | cons first rest =>
          rw [hparameters] at hruns
          obtain ⟨later, w₂, hlater, hended⟩ := runs_mapOk hruns
            (fun values => some instance_ :: values) fun answer => by cases answer <;> rfl
          rcases later with (e | values) | payload
          case returned.ok =>
            cases hended
            refine ⟨values, ?_, ?_⟩
            · simp [outerSlots, hparameters]
            · simpa [outerSlots, hparameters] using resolveFrom_wellTyped hlater
          all_goals cases hended

end Routine

/-- With well typed slots behind it, only the outer instance decides. -/
theorem wellTyped_outerSlots_append_iff (x : Executable) (outer : Option Value) {resolved : Arguments}
    (hresolved : WellTyped (x.parameters.drop (outerSlots x outer).length) resolved) :
    WellTyped x.parameters (outerSlots x outer ++ resolved) ↔
      ∀ first ∈ x.parameters.head?, ∀ v ∈ outer, first.type.Holds (some v) := by
  cases outer with
  | none => simpa [outerSlots] using hresolved
  | some instance_ =>
      cases hparameters : x.parameters with
      | nil => simpa [outerSlots, hparameters] using hresolved
      | cons first rest =>
          have hrest : WellTyped rest resolved := by simpa [outerSlots, hparameters] using hresolved
          have hslots : outerSlots x (some instance_) = [some instance_] := by
            simp [outerSlots, hparameters]
          rw [hslots]
          constructor
          · rintro (_ | ⟨hfirst, -⟩)
            simpa using hfirst
          · intro hfits
            exact .cons (hfits first rfl instance_ rfl) hrest

/-- Whatever the resolvers do and whatever happens in the meantime, a resolution that returns arguments
returns one for each parameter, and those behind the slot of an outer instance have the declared types. The
outer instance is not looked at, so all arguments have the declared types exactly if it fits the first
parameter. -/
theorem resolved_arguments_wellTyped_behind_outer {others : World H → World H → Prop}
    {runner : Runner H} {w w' : World H} {marks : List (Mark H)} {scope : ScopeId} {x : Executable}
    {target outer : Option Value} {arguments : Arguments}
    (hruns : (Routine.resolveArguments scope x target outer).Runs others @runner w marks
      (.returned (.ok arguments)) w') :
    arguments.length = x.parameters.length ∧
      (∃ resolved, arguments = outerSlots x outer ++ resolved ∧
        WellTyped (x.parameters.drop (outerSlots x outer).length) resolved) ∧
      (WellTyped x.parameters arguments ↔
        ∀ first ∈ x.parameters.head?, ∀ v ∈ outer, first.type.Holds (some v)) := by
  obtain ⟨resolved, rfl, hresolved⟩ := Routine.resolveArguments_slots hruns
  refine ⟨?_, ⟨resolved, rfl, hresolved⟩, wellTyped_outerSlots_append_iff x outer hresolved⟩
  have hlength := List.Forall₂.length_eq hresolved
  have hslots : (outerSlots x outer).length ≤ x.parameters.length := List.length_take_le _ _
  rw [List.length_drop] at hlength
  rw [List.length_append]
  omega

theorem resolved_arguments_wellTyped_behind_outer_oneResolver :
    let x : Executable :=
      .method "Type" "method" [⟨"outer", .primitive .unit, []⟩, ⟨"other", .reference .text, []⟩]
    let runner : Runner Host.bare := fun program => program.exec 1 none
    ∃ marks w', (Routine.resolveArguments 0 x none (some ⟨0, .unit⟩)).Runs World.Move @runner
        oneResolver marks (.returned (.ok [some ⟨0, .unit⟩, none])) w' ∧
      WellTyped x.parameters [some ⟨0, .unit⟩, none] := by
  intro x runner
  obtain ⟨marks, w', hruns⟩ : ∃ marks w', (Routine.resolveArguments 0 x none (some ⟨0, .unit⟩)).Runs
      World.Move @runner oneResolver marks (.returned (.ok [some ⟨0, .unit⟩, none])) w' :=
    Routine.runs_of_advance rfl
  refine ⟨marks, w', hruns, (resolved_arguments_wellTyped_behind_outer hruns).2.2.mpr ?_⟩
  rintro first ⟨⟩ v ⟨⟩
  exact (ParameterType.accepts_iff_holds _ _).mp rfl

/-- A text is taken as the outer instance where a whole number is declared. -/
theorem outer_instance_of_another_type_is_passed :
    let x : Executable := .constructor "Inner" [⟨"outer", .primitive (.integer .i32), []⟩]
    let runner : Runner Host.bare := fun program => program.exec 1 none
    (∃ marks w', (Routine.resolveArguments 0 x none (some ⟨0, .text "x"⟩)).Runs World.Move @runner
        oneResolver marks (.returned (.ok [some ⟨0, .text "x"⟩])) w') ∧
      (ParameterType.primitive (.integer .i32)).accepts (some ⟨0, .text "x"⟩) = false ∧
      ¬ WellTyped x.parameters [some ⟨0, .text "x"⟩] := by
  refine ⟨Routine.runs_of_advance rfl, rfl, ?_⟩
  rintro (_ | ⟨hfirst, -⟩)
  cases hfirst.typed _ rfl _ rfl

end TimedInvocation
