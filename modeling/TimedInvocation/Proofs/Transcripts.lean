import TimedInvocation.Proofs.Composition
import TimedInvocation.Proofs.Runs

/-!
# Transcripts

Operations follow plans: callbacks to run, resolvers to ask, parameters to resolve. A plan is carried
out in its order, up to the first item after which nothing goes on. What was done is read off the
calls that were made.
-/

namespace TimedInvocation

variable {H : Host} {α β : Type}

/-- What is done of a plan, in its order: everything, or everything up to the first item after which
nothing goes on. -/
structure UpToFirst (item : β → α) (goesOn : β → Prop) (plan : List α) (done : List β) : Prop where
  inOrder : done.map item <+: plan
  earlier : ∀ b ∈ done.dropLast, goesOn b
  complete : (∀ b ∈ done, goesOn b) → done.map item = plan

namespace UpToFirst

variable {item : β → α} {goesOn : β → Prop} {plan : List α} {done : List β} {b : β}

theorem nil : UpToFirst item goesOn [] [] :=
  ⟨List.prefix_rfl, by simp, fun _ => rfl⟩

/-- The first item is the last one that is done. -/
theorem stop (hstop : ¬ goesOn b) : UpToFirst item goesOn (item b :: plan) [b] := by
  refine ⟨?_, by simp, fun hall => absurd (hall b (List.mem_singleton_self b)) hstop⟩
  exact ⟨plan, rfl⟩

/-- The first item is done and the plan goes on. -/
theorem cons (hb : goesOn b) (hrest : UpToFirst item goesOn plan done) :
    UpToFirst item goesOn (item b :: plan) (b :: done) := by
  refine ⟨?_, fun c hc => ?_, fun hall => ?_⟩
  · simpa using hrest.inOrder
  · cases done with
    | nil => simp at hc
    | cons d rest =>
        rcases List.mem_cons.mp (List.dropLast_cons_cons ▸ hc) with rfl | hc
        · exact hb
        · exact hrest.earlier c hc
  · simpa using hrest.complete fun c hc => hall c (List.mem_cons_of_mem b hc)

end UpToFirst

/-- The code returned and did not fail. -/
def Outcome.Succeeds {ε : Type} (outcome : Outcome (Except ε α)) : Prop :=
  ∃ a, outcome = .returned (.ok a)

/-- Code succeeds, fails or panics. -/
theorem Outcome.succeeds_or {ε : Type} (outcome : Outcome (Except ε α)) :
    outcome.Succeeds ∨ (∃ e, outcome = .returned (.error e)) ∨
      ∃ payload, outcome = .panicked payload := by
  rcases outcome with (e | a) | payload
  · exact .inr (.inl ⟨e, rfl⟩)
  · exact .inl ⟨a, rfl⟩
  · exact .inr (.inr ⟨payload, rfl⟩)

/-- The code returned, with or without an error. -/
def Outcome.Returns (outcome : Outcome α) : Prop :=
  ∃ a, outcome = .returned a

/-- The outcome with another result in place of the one that it may have. -/
def Outcome.mapOk {ε : Type} (f : α → β) : Outcome (Except ε α) → Outcome (Except ε β)
  | .returned (.ok a) => .returned (.ok (f a))
  | .returned (.error e) => .returned (.error e)
  | .panicked payload => .panicked payload

/-- The marks of a call whose start is recorded. -/
def Call.marks {r : Reply} (o : Occurrence) (c : Call H r) : List (Mark H) :=
  [.noted o, .called c]

theorem World.StoreSection.trace_eq {w w' : World H} (hstep : w.StoreSection w') : w'.trace = w.trace := by
  cases hstep with
  | closeBegun s =>
      simp only [beginClose]
      split <;> rfl
  | unchanged | logged | reserved | vacated | filled => rfl

namespace Routine

variable {others : World H → World H → Prop} {runner : Runner H} {w w' : World H}
variable {marks : List (Mark H)}

/-- User code whose start is recorded: there is one call, and the routine goes on with what it
returned or ends with its panic. -/
theorem runs_recorded_call {r : Reply} {o : Occurrence} {program : Program H r}
    {next : r.Carrier H → Routine H α} {outcome : Outcome α}
    (hruns : (do record o; next (← run program)).Runs others @runner w marks outcome w') :
    ∃ c : Call H r, c.program = program ∧
      ((∃ a rest w₁, c.outcome = .returned a ∧ marks = c.marks o ++ rest ∧
          (next a).Runs others @runner w₁ rest outcome w') ∨
        ∃ payload, c.outcome = .panicked payload ∧ marks = c.marks o ∧
          outcome = .panicked payload) := by
  obtain ⟨w₁, later, -, rfl, hcall⟩ := runs_record_bind hruns
  rcases runs_bind_iff.mp hcall with ⟨a, w₂, _, rest, hrun, hnext, rfl⟩ | ⟨payload, hrun, rfl⟩
  · obtain ⟨c, rfl, -, -, -, rfl, hreturned⟩ := runs_run_iff.mp hrun
    exact ⟨c, rfl, .inl ⟨a, rest, w₂, hreturned.symm, rfl, hnext⟩⟩
  · obtain ⟨c, rfl, -, -, -, rfl, hpanicked⟩ := runs_run_iff.mp hrun
    exact ⟨c, rfl, .inr ⟨payload, hpanicked.symm, rfl, rfl⟩⟩

/-- A routine of which only the result is worked on leaves the same marks. -/
theorem runs_mapOk {ε : Type} {routine : Routine H (Except ε α)}
    {next : Except ε α → Routine H (Except ε β)} {outcome : Outcome (Except ε β)}
    (hruns : (routine >>= next).Runs others @runner w marks outcome w') (f : α → β)
    (hnext : ∀ answer, next answer = pure (answer.map f)) :
    ∃ answer w₁, routine.Runs others @runner w marks answer w₁ ∧ outcome = answer.mapOk f := by
  rcases runs_bind_iff.mp hruns with ⟨answer, w₁, first, _, hfirst, hrest, rfl⟩ |
    ⟨payload, hfirst, rfl⟩
  · rw [hnext] at hrest
    obtain ⟨rfl, rfl, -⟩ := runs_pure_iff.mp hrest
    refine ⟨_, w₁, by simpa using hfirst, ?_⟩
    cases answer <;> rfl
  · exact ⟨_, w', hfirst, rfl⟩

/-- The steps of the routine record nothing, and it calls user code of some replies only. -/
def Discreet (allowed : Reply → Prop) : Routine H α → Prop
  | .ended _ => True
  | .step _ change next => (∀ w, (change w).trace = w.trace) ∧ ∀ w, (next w).Discreet allowed
  | @Routine.call _ _ r _ next => allowed r ∧ ∀ outcome, (next outcome).Discreet allowed

namespace Discreet

variable {allowed : Reply → Prop}

theorem bind {routine : Routine H α} {rest : α → Routine H β} (hroutine : routine.Discreet allowed)
    (hrest : ∀ a, (rest a).Discreet allowed) : (routine >>= rest).Discreet allowed := by
  change (routine.andThen rest).Discreet allowed
  induction routine with
  | ended outcome =>
      cases outcome with
      | returned a => exact hrest a
      | panicked payload => trivial
  | step pause change next ih => exact ⟨hroutine.1, fun w => ih w (hroutine.2 w)⟩
  | call program next ih => exact ⟨hroutine.1, fun outcome => ih outcome (hroutine.2 outcome)⟩

theorem attempt {routine : Routine H α} (hroutine : routine.Discreet allowed) :
    routine.attempt.Discreet allowed := by
  induction routine with
  | ended outcome => trivial
  | step pause change next ih => exact ⟨hroutine.1, fun w => ih w (hroutine.2 w)⟩
  | call program next ih => exact ⟨hroutine.1, fun outcome => ih outcome (hroutine.2 outcome)⟩

theorem inherited (allowed : Reply → Prop) :
    Inherited (fun w w' => w'.trace = w.trace) allowed
      fun {_} (routine : Routine H _) => routine.Discreet allowed where
  ended _ := trivial
  bind := .bind
  attempt := .attempt
  run hallowed _ := ⟨hallowed, fun _ => trivial⟩
  updateAfter _ hsteps := ⟨hsteps, fun _ => trivial⟩

theorem storing (hdone : allowed .done) :
    Storing fun {_} (routine : Routine H _) => routine.Discreet allowed where
  toInherited := (inherited allowed).mono (fun _ _ => World.StoreSection.trace_eq) fun _ => False.elim
  cleanSlot := (inherited allowed).cleanSlot (fun _ _ => rfl) hdone
  claim _ _ := ⟨fun _ => rfl, fun _ => trivial⟩

/-- Obtaining the timeout configuration runs no user code but a cleanup action. -/
theorem configurationOf (hdone : allowed .done) (s : ScopeId) :
    (Routine.configurationOf s : Routine H _).Discreet allowed :=
  (inherited allowed).configurationOf (fun _ => rfl) (fun _ _ => rfl) (storing hdone).compute s

theorem timeoutOf (c : ConfigurationId) (kind : Kind) (declared : Option DeclaredTimeout) :
    (Routine.timeoutOf c kind declared : Routine H _).Discreet allowed := by
  refine (inherited allowed).timeoutOf (fun _ => rfl) ((inherited allowed).update fun w => ?_)
  simp only [World.consult]
  split <;> rfl

/-- All marks of the routine are calls of the allowed kinds. -/
theorem marks_called {routine : Routine H α} {outcome : Outcome α}
    (hroutine : routine.Discreet allowed)
    (hruns : routine.Runs others @runner w marks outcome w') :
    ∀ mark ∈ marks, ∃ (r : Reply) (c : Call H r), allowed r ∧ mark = .called c := by
  induction hruns with
  | ended _ => simp
  | step _ _ _ ih =>
      rw [World.noted_of_trace_eq (hroutine.1 _), List.nil_append]
      exact ih (hroutine.2 _)
  | @call r c _ _ _ _ _ _ _ _ ih =>
      intro mark hmark
      rcases List.mem_cons.mp hmark with rfl | hmark
      · exact ⟨r, c, hroutine.1, rfl⟩
      · exact ih (hroutine.2 _) mark hmark

theorem marks_eq_nil {routine : Routine H α} {outcome : Outcome α}
    (hroutine : routine.Discreet fun _ => False)
    (hruns : routine.Runs others @runner w marks outcome w') : marks = [] := by
  refine List.eq_nil_iff_forall_not_mem.mpr fun mark hmark => ?_
  obtain ⟨_, _, hfalse, _⟩ := hroutine.marks_called hruns mark hmark
  exact hfalse

end Discreet

end Routine

end TimedInvocation
