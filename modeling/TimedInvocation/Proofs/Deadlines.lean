import TimedInvocation.Proofs.Story
import TimedInvocation.Proofs.Supervision

/-!
# Bodies under deadlines

The story of running a body, told section by section. Without a timeout a body is run on the caller's
thread, with a token that nobody else has and that the caller does not touch again. With a timeout it is
run on the caller's thread under an alarm, or on a worker that is given up at the deadline or at a stop
request; which of the two is up to the thread mode.
-/

namespace TimedInvocation

open World

variable {H : Host} {ι α β : Type} {who : ι}

/-- A member has begun to run a body, or has come to the end of the routine. -/
def Decided (deeds : List (Deed H ι)) (rest : Routine H α) : Prop :=
  (∃ deed ∈ deeds, deed.StartsBody) ∨ rest.ended?.isSome

/-- The first section has been passed then, and if it has not begun to run a body, something after it
has. -/
theorem Decided.update_bind {f : World H → β × World H} {next : β → Routine H α} {rest : Routine H α}
    {deeds : List (Deed H ι)} (hdecided : Decided deeds rest)
    (htells : (Routine.update f >>= next).Tells who deeds rest) :
    ∃ w later, deeds = .passed who w (f w).2 :: later ∧ (next (f w).1).Tells who later rest ∧
      ((f w).2.trace = w.trace → Decided later rest) := by
  cases htells with
  | here =>
      rcases hdecided with ⟨deed, hdeed, -⟩ | hended
      · cases hdeed
      · cases hended
  | @passed _ _ _ w later _ hover hlater =>
      refine ⟨w, later, rfl, hlater, fun htrace => ?_⟩
      rcases hdecided with ⟨deed, hdeed, hstarts⟩ | hended
      · rcases List.mem_cons.mp hdeed with rfl | hmem
        · exact absurd hstarts (not_startsBody_of_trace htrace)
        · exact .inl ⟨deed, hmem, hstarts⟩
      · exact .inr hended

theorem Decided.change_bind {f : World H → World H} {next : Unit → Routine H α} {rest : Routine H α}
    {deeds : List (Deed H ι)} (hdecided : Decided deeds rest)
    (htells : (Routine.change f >>= next).Tells who deeds rest) :
    ∃ w later, deeds = .passed who w (f w) :: later ∧ (next ()).Tells who later rest ∧
      ((f w).trace = w.trace → Decided later rest) :=
  hdecided.update_bind (f := fun w => ((), f w)) htells

theorem Decided.view_bind {f : World H → β} {next : β → Routine H α} {rest : Routine H α}
    {deeds : List (Deed H ι)} (hdecided : Decided deeds rest)
    (htells : (Routine.view f >>= next).Tells who deeds rest) :
    ∃ w later, deeds = .passed who w w :: later ∧ (next (f w)).Tells who later rest ∧
      Decided later rest := by
  obtain ⟨w, later, rfl, hlater, hdecided⟩ := hdecided.update_bind (f := fun w => (f w, w)) htells
  exact ⟨w, later, rfl, hlater, hdecided rfl⟩

/-- The outcome of a body, of which there is one call. -/
inductive Undisturbed (who : ι) (body : Program H .result) :
    List (Deed H ι) → Option (Outcome (Except InvocationError H.Result)) → Prop where
  | running : Undisturbed who body [] none
  | ended (ending : Outcome (Except Failure H.Result)) :
      Undisturbed who body [.called who body ending] (some (bodyOutcome ending))

/-- The outcome of a body that has been run on the caller's thread since a point of time. Once it has ended
the caller clears the alarm of its token. A panic goes on then; otherwise the caller looks how much time has
passed and whether the token has been cancelled. -/
inductive Overseen (who : ι) (kind : Kind) (duration : Duration) (token : TokenId) (start : Nat)
    (body : Program H .result) :
    List (Deed H ι) → Option (Outcome (Except InvocationError H.Result)) → Prop where
  | running : Overseen who kind duration token start body [] none
  | leaving {ending : Outcome (Except Failure H.Result)} {later : List (Deed H ι)} :
      Overseen who kind duration token start body (.called who body ending :: later) none
  | panicked {payload : Panic} {w : World H} :
      Overseen who kind duration token start body
        [.called who body (.panicked payload), .passed who w (w.clearAlarm token)]
        (some (bodyOutcome (.panicked payload)))
  | inTime {result : Except Failure H.Result} {w w₁ w₂ : World H}
      (htime : w₁.clock - start ≤ duration.toSpan.toNanos) (htoken : w₂.isCancelled token = false) :
      Overseen who kind duration token start body
        [.called who body (.returned result), .passed who w (w.clearAlarm token), .passed who w₁ w₁,
          .passed who w₂ w₂]
        (some (bodyOutcome (.returned result)))
  | overran {result : Except Failure H.Result} {w w₁ w₂ w₃ : World H} {event : Event}
      (hlate : w₂.isCancelled token = true ∨ duration.toSpan.toNanos < w₁.clock - start) :
      Overseen who kind duration token start body
        [.called who body (.returned result), .passed who w (w.clearAlarm token), .passed who w₁ w₁,
          .passed who w₂ w₂, .passed who w₃ (w₃.logged event)]
        (some (.returned (.error
          (.timeout ⟨kind, duration, w₁.clock - start, .sameThread, actionError result⟩))))

/-- The outcome of a body on a worker that was started at a point of time. The caller waits until there is a
result, a stop request or no time left, and these count in that order. Then it looks how much time has
passed, and if there is no result it cancels the token. -/
inductive Awaited (who : ι) (e : EnforcerId) (kind : Kind) (duration : Duration) (token : TokenId)
    (id : WorkerId) (start : Nat) :
    List (Deed H ι) → Option (Outcome (Except InvocationError H.Result)) → Prop where
  | waiting : Awaited who e kind duration token id start [] none
  | leaving {w : World H} {later : List (Deed H ι)} :
      Awaited who e kind duration token id start (.passed who w w :: later) none
  | finished {w w₁ : World H} {ending : Outcome (Except Failure H.Result)}
      (hresult : w.workerResult id = some ending) :
      Awaited who e kind duration token id start [.passed who w w, .passed who w₁ w₁]
        (some (bodyOutcome ending))
  | stopped {w w₁ w₂ w₃ : World H} {event : Event} (hresult : w.workerResult id = none)
      (hstop : w.stopRequested e = true) :
      Awaited who e kind duration token id start
        [.passed who w w, .passed who w₁ w₁, .passed who w₂ (w₂.logged event),
          .passed who w₃ (w₃.cancel token)]
        (some (.returned (.error (.cancelled kind))))
  | timedOut {w w₁ w₂ w₃ : World H} {event : Event} (hresult : w.workerResult id = none)
      (hstop : w.stopRequested e = false) (hdeadline : start + duration.toSpan.toNanos ≤ w.clock) :
      Awaited who e kind duration token id start
        [.passed who w w, .passed who w₁ w₁, .passed who w₂ (w₂.logged event),
          .passed who w₃ (w₃.cancel token)]
        (some (.returned (.error
          (.timeout ⟨kind, duration, w₁.clock - start, .separateThread, none⟩))))

/-- All that a member does to run a body under a timeout, or without one, and the outcome once there is
one. -/
inductive Enforced (who : ι) (e : EnforcerId) (kind : Kind) (body : TokenId → Program H .result) :
    Option EffectiveTimeout → List (Deed H ι) → Option (Outcome (Except InvocationError H.Result)) →
      Prop where
  | preparing {timeout : Option EffectiveTimeout} {deeds : List (Deed H ι)}
      (hquiet : ∀ deed ∈ deeds, ¬ deed.StartsBody) : Enforced who e kind body timeout deeds none
  | unbounded {event : Event} {w₁ w₂ w₃ : World H} {later : List (Deed H ι)}
      {outcome? : Option (Outcome (Except InvocationError H.Result))}
      (hlater : Undisturbed who (body w₂.newToken.1) later outcome?) :
      Enforced who e kind body none
        (.passed who w₁ (w₁.logged event) :: .passed who w₂ w₂.newToken.2 ::
          .passed who w₃ (w₃.recorded (.body w₂.newToken.1)) :: later) outcome?
  | onCaller {timeout : EffectiveTimeout} {event : Event} {w₁ w₂ w₃ w₄ w₅ : World H}
      {later : List (Deed H ι)} {outcome? : Option (Outcome (Except InvocationError H.Result))}
      (hmode : timeout.threadMode ≠ .separateThread)
      (hlater : Overseen who kind timeout.duration w₂.newToken.1 w₃.clock (body w₂.newToken.1) later
        outcome?) :
      Enforced who e kind body (some timeout)
        (.passed who w₁ (w₁.logged event) :: .passed who w₂ w₂.newToken.2 :: .passed who w₃ w₃ ::
          .passed who w₄
            (w₄.setAlarm w₂.newToken.1 (w₃.clock + timeout.duration.toSpan.toNanos)) ::
          .passed who w₅ (w₅.recorded (.body w₂.newToken.1)) :: later) outcome?
  | onWorker {timeout : EffectiveTimeout} {event : Event} {w₁ w₂ w₃ w₄ w₅ w₆ : World H}
      {later : List (Deed H ι)} {outcome? : Option (Outcome (Except InvocationError H.Result))}
      (hmode : timeout.threadMode = .separateThread)
      (hlater : Awaited who e kind timeout.duration w₂.newToken.1 w₆.workers.length w₄.clock later
        outcome?) :
      Enforced who e kind body (some timeout)
        (.passed who w₁ (w₁.logged event) :: .passed who w₂ w₂.newToken.2 ::
          .passed who w₃ (w₃.nextWorker e).2 :: .passed who w₄ w₄ :: .passed who w₅ w₅.spawn.2 ::
          .passed who w₆ (w₆.startWorker (w₃.nextWorker e).1 w₂.newToken.1 body).2 :: later) outcome?

section Run

variable {e : EnforcerId} {kind : Kind} {duration : Duration} {body : TokenId → Program H .result}
  {deeds : List (Deed H ι)} {rest : Routine H (Except InvocationError H.Result)}

/-- The body is called on the caller's thread, and what comes after its end is left. -/
theorem Routine.Tells.callBody {token : TokenId} {next : Outcome (Except Failure H.Result) → Routine H α}
    {rest : Routine H α}
    (htells : (Routine.step .none (fun w => w.recorded (.body token)) fun _ =>
      .call (body token) next).Tells who deeds rest)
    (hdecided : Decided deeds rest) :
    ∃ w later, deeds = .passed who w (w.recorded (.body token)) :: later ∧
      (later = [] ∧ rest.ended? = none ∨ ∃ ending last,
        later = .called who (body token) ending :: last ∧ (next ending).Tells who last rest) := by
  cases htells with
  | here =>
      rcases hdecided with ⟨deed, hdeed, -⟩ | hended
      · cases hdeed
      · cases hended
  | passed hover hlater =>
      refine ⟨_, _, rfl, ?_⟩
      cases hlater with
      | here => exact .inl ⟨rfl, rfl⟩
      | called hlast => exact .inr ⟨_, _, rfl, hlast⟩

/-- After the end of the body the caller clears the alarm and finds out whether the deadline was met. -/
theorem Routine.Tells.runOnCaller
    (htells : (Routine.runOnCaller kind duration body).Tells who deeds rest)
    (hdecided : Decided deeds rest) :
    ∃ w₂ w₃ w₄ w₅ later,
      deeds = .passed who w₂ w₂.newToken.2 :: .passed who w₃ w₃ ::
        .passed who w₄ (w₄.setAlarm w₂.newToken.1 (w₃.clock + duration.toSpan.toNanos)) ::
        .passed who w₅ (w₅.recorded (.body w₂.newToken.1)) :: later ∧
      Overseen who kind duration w₂.newToken.1 w₃.clock (body w₂.newToken.1) later rest.ended? := by
  obtain ⟨w₂, later, rfl, hclock, hdecided⟩ := hdecided.update_bind htells
  obtain ⟨w₃, later, rfl, halarm, hdecided⟩ := (hdecided rfl).view_bind hclock
  obtain ⟨w₄, later, rfl, hbody, hdecided⟩ := hdecided.change_bind halarm
  obtain ⟨w₅, later, rfl, ⟨rfl, hrunning⟩ | ⟨ending, last, rfl, hend⟩⟩ :=
    Tells.callBody hbody (hdecided rfl)
  · exact ⟨w₂, w₃, w₄, w₅, [], rfl, hrunning ▸ .running⟩
  refine ⟨w₂, w₃, w₄, w₅, _, rfl, ?_⟩
  cases hended : rest.ended? with
  | none => exact .leaving
  | some outcome =>
      have hover {later : List (Deed H ι)} : Decided later rest := .inr (by rw [hended]; rfl)
      obtain ⟨w₆, later, rfl, hreport, -⟩ := hover.change_bind hend
      cases ending with
      | panicked payload =>
          cases hreport
          cases hended
          exact .panicked
      | returned result =>
          obtain ⟨w₇, later, rfl, hlook, -⟩ := hover.view_bind hreport
          obtain ⟨w₈, later, rfl, hresult, -⟩ := hover.view_bind hlook
          split at hresult
          · next hlate =>
            obtain ⟨w₉, later, rfl, hlast, -⟩ := hover.change_bind hresult
            cases hlast
            cases hended
            exact .overran ((Bool.or_eq_true_iff.mp hlate).imp id of_decide_eq_true)
          · next hprompt =>
            cases hresult
            cases hended
            rw [Bool.not_eq_true, Bool.or_eq_false_iff] at hprompt
            exact .inTime (Nat.le_of_not_lt (of_decide_eq_false hprompt.2)) hprompt.1

/-- The wait for a worker is over for one of three reasons, the first of which decides how it ends. -/
theorem World.pollWorker_of_isOver {w : World H} {e : EnforcerId} {id : WorkerId} {deadline : Nat}
    (hover : Pause.isOver ⟨fun w => (w.pollWorker e id deadline).isSome, some deadline⟩ w = true) :
    (∃ ending, w.workerResult id = some ending ∧
        w.pollWorker e id deadline = some (.finished ending)) ∨
      (w.workerResult id = none ∧ w.stopRequested e = true ∧
        w.pollWorker e id deadline = some .stopped) ∨
      w.workerResult id = none ∧ w.stopRequested e = false ∧ deadline ≤ w.clock ∧
        w.pollWorker e id deadline = some .timedOut := by
  cases hresult : w.workerResult id with
  | some ending => exact .inl ⟨ending, rfl, pollWorker_finished hresult⟩
  | none =>
      cases hstop : w.stopRequested e with
      | true => exact .inr (.inl ⟨rfl, rfl, pollWorker_stopped hresult hstop⟩)
      | false =>
          have hdeadline : deadline ≤ w.clock := by
            simpa [hresult, hstop] using isOver_awaitWorker_iff.mp hover
          exact .inr (.inr ⟨rfl, rfl, hdeadline, pollWorker_timedOut hresult hstop hdeadline⟩)

/-- Whoever waits for a worker goes on when there is a result, or at a stop request or the deadline. -/
theorem Routine.Tells.followWorker {e : EnforcerId} {number start : Nat} {token : TokenId} {id : WorkerId}
    (htells : (Routine.followWorker e kind duration number start token id).Tells who deeds rest) :
    Awaited who e kind duration token id start deeds rest.ended? := by
  cases htells with
  | here => exact .waiting
  | @passed _ _ _ w later _ hover hending =>
      cases hended : rest.ended? with
      | none => exact .leaving
      | some outcome =>
          have hgone {later : List (Deed H ι)} : Decided later rest := .inr (by rw [hended]; rfl)
          obtain ⟨w₁, later, rfl, hreport, -⟩ := hgone.view_bind hending
          rcases pollWorker_of_isOver hover with
            ⟨result, hresult, hpoll⟩ | ⟨hresult, hstop, hpoll⟩ | ⟨hresult, hstop, hdeadline, hpoll⟩
          · simp only [hpoll, Option.getD_some] at hreport
            cases result <;> cases hreport <;> cases hended <;> exact .finished hresult
          · simp only [hpoll, Option.getD_some] at hreport
            obtain ⟨w₂, later, rfl, hcancel, -⟩ := hgone.change_bind hreport
            obtain ⟨w₃, later, rfl, hlast, -⟩ := hgone.change_bind hcancel
            cases hlast
            cases hended
            exact .stopped hresult hstop
          · simp only [hpoll, Option.getD_some] at hreport
            obtain ⟨w₂, later, rfl, hcancel, -⟩ := hgone.change_bind hreport
            obtain ⟨w₃, later, rfl, hlast, -⟩ := hgone.change_bind hcancel
            cases hlast
            cases hended
            exact .timedOut hresult hstop hdeadline

theorem Routine.Tells.runOnWorker {e : EnforcerId} (hspawn : ∀ state, (H.spawn state).1 = none)
    (htells : (Routine.runOnWorker e kind duration body).Tells who deeds rest)
    (hdecided : Decided deeds rest) :
    ∃ w₂ w₃ w₄ w₅ w₆ later,
      deeds = .passed who w₂ w₂.newToken.2 :: .passed who w₃ (w₃.nextWorker e).2 ::
        .passed who w₄ w₄ :: .passed who w₅ w₅.spawn.2 ::
        .passed who w₆ (w₆.startWorker (w₃.nextWorker e).1 w₂.newToken.1 body).2 :: later ∧
      Awaited who e kind duration w₂.newToken.1 w₆.workers.length w₄.clock later rest.ended? := by
  obtain ⟨w₂, later, rfl, hnumber, hdecided⟩ := hdecided.update_bind htells
  obtain ⟨w₃, later, rfl, hclock, hdecided⟩ := (hdecided rfl).update_bind hnumber
  obtain ⟨w₄, later, rfl, hthread, hdecided⟩ := (hdecided rfl).view_bind hclock
  obtain ⟨w₅, later, rfl, hstart, hdecided⟩ := hdecided.update_bind hthread
  have hspawned : w₅.spawn.1 = none := hspawn w₅.state
  simp only [hspawned] at hstart
  obtain ⟨w₆, later, rfl, hfollow, -⟩ := (hdecided rfl).update_bind hstart
  exact ⟨w₂, w₃, w₄, w₅, w₆, later, rfl, hfollow.followWorker⟩

/-- A body is run under exactly the timeout that is given, if a worker can always be started. -/
theorem Routine.Tells.runWithTimeout {e : EnforcerId} {timeout : Option EffectiveTimeout}
    (hspawn : ∀ state, (H.spawn state).1 = none)
    (htells : (Routine.runWithTimeout e kind timeout body).Tells who deeds rest) :
    Enforced who e kind body timeout deeds rest.ended? := by
  by_cases hdecided : Decided deeds rest
  · cases timeout with
    | none =>
        obtain ⟨w₁, later, rfl, htoken, hdecided⟩ := hdecided.change_bind htells
        obtain ⟨w₂, later, rfl, hhere, hdecided⟩ := (hdecided rfl).update_bind htoken
        obtain ⟨w₃, later, rfl, ⟨rfl, hrunning⟩ | ⟨ending, last, rfl, hlast⟩⟩ :=
          Tells.callBody hhere (hdecided rfl)
        · exact .unbounded (hrunning ▸ .running)
        · refine .unbounded ?_
          cases ending <;> cases hlast <;> exact .ended _
    | some timeout =>
        obtain ⟨w₁, later, rfl, hmode, hdecided⟩ := hdecided.change_bind htells
        obtain ⟨duration, mode⟩ := timeout
        have hcaller (hsame : mode ≠ .separateThread) {event : Event}
            (htells : (Routine.runOnCaller kind duration body).Tells who later rest) :
            Enforced who e kind body (some ⟨duration, mode⟩) (.passed who w₁ (w₁.logged event) :: later)
              rest.ended? := by
          obtain ⟨w₂, w₃, w₄, w₅, later, rfl, hlater⟩ := htells.runOnCaller (hdecided rfl)
          exact .onCaller hsame hlater
        cases mode with
        | sameThread => exact hcaller (by simp) hmode
        | inferred => exact hcaller (by simp) hmode
        | separateThread =>
            obtain ⟨w₂, w₃, w₄, w₅, w₆, later, rfl, hlater⟩ :=
              Tells.runOnWorker hspawn hmode (hdecided rfl)
            exact .onWorker rfl hlater
  · obtain ⟨hquiet, hended⟩ := not_or.mp hdecided
    rw [Option.not_isSome_iff_eq_none.mp hended]
    exact .preparing fun deed hdeed hstarts => hquiet ⟨deed, hdeed, hstarts⟩

end Run

section Outcomes

variable {e : EnforcerId} {kind : Kind} {body : TokenId → Program H .result}
  {timeout : Option EffectiveTimeout} {deeds : List (Deed H ι)}

theorem bodyOutcome_ne_timeout {ending : Outcome (Except Failure H.Result)} {error : TimeoutError} :
    bodyOutcome ending ≠ .returned (.error (.timeout error)) := by
  rcases ending with (e | result) | payload <;> simp [bodyOutcome, actionResult]

theorem bodyOutcome_ne_cancelled {ending : Outcome (Except Failure H.Result)} {kind : Kind} :
    bodyOutcome ending ≠ .returned (.error (.cancelled kind)) := by
  rcases ending with (e | result) | payload <;> simp [bodyOutcome, actionResult]

/-- Only a body with a timeout times out, and the error says which timeout it was. -/
theorem Enforced.timedOut {error : TimeoutError}
    (henforced : Enforced who e kind body timeout deeds (some (.returned (.error (.timeout error))))) :
    ∃ t, timeout = some t ∧ error.kind = kind ∧ error.duration = t.duration ∧
      (t.threadMode ≠ .inferred → error.threadMode = t.threadMode) := by
  generalize houtcome : some (Outcome.returned (Except.error (InvocationError.timeout error))) = outcome?
    at henforced
  cases henforced with
  | preparing => cases houtcome
  | unbounded hlater =>
      cases hlater with
      | running => cases houtcome
      | ended ending => exact absurd (Option.some.inj houtcome).symm bodyOutcome_ne_timeout
  | @onCaller t _ _ _ _ _ _ _ _ hmode hlater =>
      cases hlater with
      | running | leaving => cases houtcome
      | panicked | inTime => exact absurd (Option.some.inj houtcome).symm bodyOutcome_ne_timeout
      | overran =>
          cases houtcome
          refine ⟨t, rfl, rfl, rfl, fun hchosen => ?_⟩
          cases hthread : t.threadMode with
          | sameThread => rfl
          | separateThread => exact absurd hthread hmode
          | inferred => exact absurd hthread hchosen
  | @onWorker t _ _ _ _ _ _ _ _ _ hmode hlater =>
      cases hlater with
      | waiting | leaving | stopped => cases houtcome
      | finished => exact absurd (Option.some.inj houtcome).symm bodyOutcome_ne_timeout
      | timedOut =>
          cases houtcome
          exact ⟨t, rfl, rfl, rfl, fun _ => hmode.symm⟩

/-- Only a body on a worker is given up as cancelled, and only at a stop request. -/
theorem Enforced.cancelled {kind' : Kind}
    (henforced : Enforced who e kind body timeout deeds (some (.returned (.error (.cancelled kind'))))) :
    kind' = kind ∧ ∃ t, timeout = some t ∧ t.threadMode = .separateThread ∧
      ∃ w, .passed who w w ∈ deeds ∧ w.stopRequested e = true := by
  generalize houtcome : some (Outcome.returned (Except.error (InvocationError.cancelled kind'))) = outcome?
    at henforced
  cases henforced with
  | preparing => cases houtcome
  | unbounded hlater =>
      cases hlater with
      | running => cases houtcome
      | ended ending => exact absurd (Option.some.inj houtcome).symm bodyOutcome_ne_cancelled
  | onCaller hmode hlater =>
      cases hlater with
      | running | leaving | overran => cases houtcome
      | panicked | inTime => exact absurd (Option.some.inj houtcome).symm bodyOutcome_ne_cancelled
  | @onWorker t _ _ _ _ _ _ _ _ _ hmode hlater =>
      cases hlater with
      | waiting | leaving | timedOut => cases houtcome
      | finished => exact absurd (Option.some.inj houtcome).symm bodyOutcome_ne_cancelled
      | @stopped w _ _ _ _ _ hstop =>
          cases houtcome
          exact ⟨rfl, t, rfl, hmode, w, by simp, hstop⟩

end Outcomes

end TimedInvocation
