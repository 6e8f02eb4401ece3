import TimedInvocation.Proofs.Composition
import TimedInvocation.Proofs.Transcripts
import TimedInvocation.Proofs.Visibility

/-!
# Starting bodies

A body that is run on the caller's thread is called once. How it ends is reported as it is, except that it
may have overrun a deadline.
-/

namespace TimedInvocation

open Relation World

variable {H : Host}

/-- How a body ends that nothing cuts short. -/
def bodyOutcome : Outcome (Except Failure H.Result) → Outcome (Except InvocationError H.Result)
  | .returned result => .returned (actionResult result)
  | .panicked payload => .panicked payload

/-- Whether a mark records the start of a body. -/
def Mark.startsBody : Mark H → Bool
  | .noted (.body _) => true
  | _ => false

/-- The result says that there was no worker to be had. -/
def Unspawned (outcome : Outcome (Except InvocationError H.Result)) : Prop :=
  ∃ error, outcome = .returned (.error (.workerSpawn error))

theorem not_unspawned_bodyOutcome (ending : Outcome (Except Failure H.Result)) :
    ¬ Unspawned (bodyOutcome ending) := by
  rintro ⟨error, hunspawned⟩
  rcases ending with (e | result) | payload <;> simp [bodyOutcome, actionResult] at hunspawned

section Run

variable {runner : Runner H} {w w' : World H} {marks : List (Mark H)}
variable {kind : Kind} {duration : Duration} {body : TokenId → Program H .result}
variable {outcome : Outcome (Except InvocationError H.Result)}

theorem Routine.runHere_runs {others : World H → World H → Prop} {token : TokenId}
    {outcome : Outcome (Except Failure H.Result)}
    (hruns : (Routine.runHere token body).Runs others @runner w marks outcome w') :
    ∃ call : Call H .result, call.program = body token ∧ marks = call.marks (.body token) ∧
      outcome = call.outcome ∧ ReflTransGen others call.finish w' := by
  obtain ⟨w₁, later, -, rfl, hrun⟩ := runs_record_bind hruns
  obtain ⟨call, hprogram, -, -, hafter, rfl, rfl⟩ := runs_run_iff.mp hrun
  exact ⟨call, hprogram, rfl, rfl, hafter⟩

/-- On the caller's thread the outcome of a body is reported, unless the caller finds that the limit has
passed or that the token is cancelled. -/
theorem Routine.runOnCaller_runs
    (hruns : (Routine.runOnCaller kind duration body).Runs Move @runner w marks outcome w') :
    ∃ (token : TokenId) (call : Call H .result), call.program = body token ∧
      marks = call.marks (.body token) ∧
      (outcome = bodyOutcome call.outcome ∨ ∃ result error seen,
        call.outcome = .returned result ∧ error.actionError = actionError result ∧
        outcome = .returned (.error (.timeout error)) ∧ Meanwhile call.finish seen ∧
        (w.clock + duration.toSpan.toNanos < seen.clock ∨ seen.isCancelled token = true)) := by
  obtain ⟨w₁, hmade, hclock⟩ := runs_silent_update_bind hruns fun _ => rfl
  obtain ⟨w₂, hread, halarm⟩ := runs_view_bind hclock
  have hstart : w.clock ≤ w₂.clock :=
    World.Meanwhile.clock_le ((hmade.tail (.plain (.tokenMade w₁))).trans hread)
  obtain ⟨w₃, -, hrest⟩ := runs_silent_change_bind halarm fun _ => rfl
  rcases runs_bind_iff.mp hrest with ⟨ending, w₄, first, second, hattempt, hclear, rfl⟩ |
    ⟨payload, hattempt, rfl⟩
  case inr => simp [runs_attempt_iff] at hattempt
  obtain ⟨ending', hending, hbody⟩ := runs_attempt_iff.mp hattempt
  cases hending
  obtain ⟨call, hprogram, rfl, rfl, hfinish⟩ := Routine.runHere_runs hbody
  obtain ⟨w₅, hcleared, hreport⟩ := runs_silent_change_bind hclear fun _ => rfl
  refine ⟨_, call, hprogram, ?_⟩
  rcases hcall : call.outcome with result | payload
  · rw [hcall] at hreport
    obtain ⟨w₆, helapsed, hlook⟩ := runs_view_bind hreport
    obtain ⟨w₇, hlooked, hend⟩ := runs_view_bind hlook
    split at hend
    · next hlate =>
      obtain ⟨w₈, -, hend⟩ := runs_log_bind hend
      obtain ⟨rfl, rfl, -⟩ := runs_pure_iff.mp hend
      refine ⟨by simp, .inr ⟨result, _, w₇, rfl, rfl, rfl, ?_, ?_⟩⟩
      · exact (((hfinish.trans hcleared).tail (.plain (.alarmsCleared w₅ _))).trans helapsed).trans
          hlooked
      · rcases Bool.or_eq_true_iff.mp hlate with hcancelled | hlimit
        · exact .inr hcancelled
        · have hmore := World.Meanwhile.clock_le hlooked
          have hlimit := of_decide_eq_true hlimit
          exact .inl (by omega)
    · obtain ⟨rfl, rfl, -⟩ := runs_pure_iff.mp hend
      exact ⟨by simp, .inl rfl⟩
  · rw [hcall] at hreport
    obtain ⟨rfl, rfl, -⟩ := runs_ended_iff.mp hreport
    exact ⟨by simp, .inl rfl⟩

/-- Without a timeout the outcome of a body is reported as it is. -/
theorem Routine.runWithoutTimeout_runs {others : World H → World H → Prop} {e : EnforcerId}
    (hruns : (Routine.runWithTimeout e kind none body).Runs others @runner w marks outcome w') :
    ∃ (token : TokenId) (call : Call H .result), call.program = body token ∧
      marks = call.marks (.body token) ∧ outcome = bodyOutcome call.outcome := by
  obtain ⟨w₁, -, htoken⟩ := runs_log_bind hruns
  obtain ⟨w₂, -, hhere⟩ := runs_silent_update_bind htoken fun _ => rfl
  rcases runs_bind_iff.mp hhere with ⟨result, w₃, first, second, hbody, hend, rfl⟩ |
    ⟨payload, hbody, rfl⟩
  · obtain ⟨call, hprogram, rfl, hreturned, -⟩ := Routine.runHere_runs hbody
    obtain ⟨rfl, rfl, -⟩ := runs_pure_iff.mp hend
    exact ⟨_, call, hprogram, List.append_nil _, by simp [← hreturned, bodyOutcome]⟩
  · obtain ⟨call, hprogram, rfl, hpanicked, -⟩ := Routine.runHere_runs hbody
    exact ⟨_, call, hprogram, rfl, by simp [← hpanicked, bodyOutcome]⟩

end Run

end TimedInvocation
