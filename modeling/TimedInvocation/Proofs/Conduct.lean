import TimedInvocation.Proofs.Composition
import TimedInvocation.Proofs.Ensemble

/-!
# The conduct of an operation

What every section of an operation's own does to the world, whatever user code does in between. Apart from
obtaining the timeout configuration and from running the body, an invocation only looks at the world, logs
events and records which user code it is about to enter.
-/

namespace TimedInvocation

open World

variable {H : Host} {α β Place : Type}

/-- A section begins to run a body. -/
def World.StartsBody (w w' : World H) : Prop :=
  ∃ token, w'.trace = .body token :: w.trace

theorem World.not_startsBody_of_trace {w w' : World H} (htrace : w'.trace = w.trace) :
    ¬ w.StartsBody w' := by
  rintro ⟨token, hbody⟩
  exact List.cons_ne_self _ _ (hbody.symm.trans htrace)

/-- Somebody began to run a body. -/
def Deed.StartsBody {ι : Type} : Deed H ι → Prop
  | .passed _ before after => before.StartsBody after
  | .called _ _ _ => False

/-- Every section of the routine does to the world what is permitted. -/
def Routine.Within (P : World H → World H → Prop) : Routine H α → Prop
  | .ended _ => True
  | .step pause change next =>
      (∀ w, pause.isOver w = true → P w (change w)) ∧ ∀ w, (next w).Within P
  | .call _ next => ∀ outcome, (next outcome).Within P

/-- A section that only looks, logs or records that user code other than a body is entered is permitted. -/
structure Unobtrusive (P : World H → World H → Prop) : Prop where
  unchanged : ∀ w, P w w
  logged : ∀ w e, P w (w.logged e)
  recorded : ∀ w o, (∀ token, o ≠ .body token) → P w (w.recorded o)

theorem Unobtrusive.of_announcement {P : World H → World H → Prop} (hP : Unobtrusive P) {w w' : World H}
    (hstep : w.Announcement w') : P w w' := by
  cases hstep with
  | unchanged => exact hP.unchanged w
  | logged n => exact hP.logged w n.event
  | recorded hother => exact hP.recorded w _ hother

/-- All that is done with the token of a body, to run it under a timeout or without one, is permitted. -/
structure Enforceable (token : TokenId) (P : World H → World H → Prop) : Prop where
  unchanged : ∀ w, P w w
  logged : ∀ w e, P w (w.logged e)
  recorded : ∀ w, P w (w.recorded (.body token))
  cancelled : ∀ w, P w (w.cancel token)
  alarmSet : ∀ w time, P w (w.setAlarm token time)
  alarmsCleared : ∀ w, P w (w.clearAlarm token)
  workerCounted : ∀ w e, P w (w.nextWorker e).2
  spawned : ∀ w, P w w.spawn.2
  workerStarted : ∀ w number body, P w (w.startWorker number token body).2

namespace Routine

variable {P : World H → World H → Prop} {rule : Rule H Place} {Q : Outcome α → Place → Prop}
  {place : Place}

/-- A routine follows any rule by which its sections and the answers of user code leave it where it is. -/
theorem Within.follows {routine : Routine H α} (hroutine : routine.Within P)
    (hpasses : ∀ w w', P w w' → rule.passes place w w' place)
    (hresumes : ∀ {r : Reply} (program : Program H r) outcome, rule.resumes place program outcome place)
    (hQ : ∀ outcome, Q outcome place) : routine.Follows rule Q place := by
  induction routine with
  | ended outcome => exact hQ outcome
  | step pause change next ih =>
      exact fun w hover => ⟨place, hpasses _ _ (hroutine.1 w hover), ih w (hroutine.2 w)⟩
  | call program next ih =>
      exact fun outcome => ⟨place, hresumes program outcome, ih outcome (hroutine outcome)⟩

theorem Follows.mono {rule' : Rule H Place} {Q' : Outcome α → Place → Prop} {routine : Routine H α}
    (hroutine : routine.Follows rule Q place)
    (hpasses : ∀ place w w' place', rule.passes place w w' place' → rule'.passes place w w' place')
    (hresumes : ∀ place {r : Reply} (program : Program H r) outcome place',
      rule.resumes place program outcome place' → rule'.resumes place program outcome place')
    (hends : ∀ outcome place, Q outcome place → Q' outcome place) :
    routine.Follows rule' Q' place := by
  induction routine generalizing place with
  | ended outcome => exact hends _ _ hroutine
  | step pause change next ih =>
      intro w hover
      obtain ⟨place', hsection, hnext⟩ := hroutine w hover
      exact ⟨place', hpasses _ _ _ _ hsection, ih w hnext⟩
  | call program next ih =>
      intro outcome
      obtain ⟨place', hanswer, hnext⟩ := hroutine outcome
      exact ⟨place', hresumes _ _ _ _ hanswer, ih outcome hnext⟩

/-- A routine of moves follows the rule, which may be told so. -/
theorem Moves.follows {routine : Routine H α} (hmoves : routine.Moves)
    (hroutine : routine.Follows rule Q place) :
    routine.Follows ⟨fun place w w' place' => Move w w' ∧ rule.passes place w w' place', rule.resumes⟩
      Q place := by
  induction routine generalizing place with
  | ended outcome => exact hroutine
  | step pause change next ih =>
      intro w hover
      obtain ⟨place', hsection, hnext⟩ := hroutine w hover
      exact ⟨place', ⟨hmoves.1.1 w hover, hsection⟩, ih w (hmoves.2 w) hnext⟩
  | call program next ih =>
      intro outcome
      obtain ⟨place', hanswer, hnext⟩ := hroutine outcome
      exact ⟨place', hanswer, ih outcome (hmoves outcome) hnext⟩

theorem Moves.within {routine : Routine H α} (hmoves : routine.Moves) : routine.Within Move := by
  induction routine with
  | ended outcome => trivial
  | step pause change next ih => exact ⟨hmoves.1.1, fun w => ih w (hmoves.2 w)⟩
  | call program next ih => exact fun outcome => ih outcome (hmoves outcome)

namespace Within

theorem pure (a : α) : (Pure.pure a : Routine H α).Within P :=
  trivial

theorem bind {routine : Routine H α} {rest : α → Routine H β} (hroutine : routine.Within P)
    (hrest : ∀ a, (rest a).Within P) : (routine >>= rest).Within P := by
  change (routine.andThen rest).Within P
  induction routine with
  | ended outcome =>
      cases outcome with
      | returned a => exact hrest a
      | panicked payload => trivial
  | step pause change next ih => exact ⟨hroutine.1, fun w => ih w (hroutine.2 w)⟩
  | call program next ih => exact fun outcome => ih outcome (hroutine outcome)

theorem attempt {routine : Routine H α} (hroutine : routine.Within P) : routine.attempt.Within P := by
  induction routine with
  | ended outcome => trivial
  | step pause change next ih => exact ⟨hroutine.1, fun w => ih w (hroutine.2 w)⟩
  | call program next ih => exact fun outcome => ih outcome (hroutine outcome)

theorem ofOutcome (outcome : Outcome α) : (Routine.ofOutcome outcome : Routine H α).Within P :=
  trivial

theorem run {r : Reply} (program : Program H r) : (Routine.run program).Within P :=
  fun _ => trivial

theorem change {f : World H → World H} (hf : ∀ w, P w (f w)) : (Routine.change f).Within P :=
  ⟨fun w _ => hf w, fun _ => trivial⟩

theorem updateAfter {f : World H → α × World H} (hf : ∀ w, P w (f w).2) (pause : Pause H) :
    (Routine.updateAfter pause f).Within P :=
  ⟨fun w _ => hf w, fun _ => trivial⟩

theorem update {f : World H → α × World H} (hf : ∀ w, P w (f w).2) : (Routine.update f).Within P :=
  updateAfter hf .none

theorem view (hP : ∀ w, P w w) (f : World H → α) : (Routine.view f).Within P :=
  ⟨fun w _ => hP w, fun _ => trivial⟩

theorem viewAfter (hP : ∀ w, P w w) (pause : Pause H) (f : World H → α) :
    (Routine.viewAfter pause f).Within P :=
  ⟨fun w _ => hP w, fun _ => trivial⟩

theorem log (hP : ∀ w e, P w (w.logged e)) (e : Event) :
    (Routine.log e : Routine H Unit).Within P :=
  .change fun w => hP w e

theorem record {o : Occurrence} (hP : ∀ w, P w (w.recorded o)) :
    (Routine.record o : Routine H Unit).Within P :=
  .change hP

theorem inherited (P : World H → World H → Prop) :
    Inherited P (fun _ => True) fun {_} (routine : Routine H _) => routine.Within P where
  ended _ := trivial
  bind := .bind
  attempt := .attempt
  run _ program := .run program
  updateAfter _ hsteps := .updateAfter hsteps _

/-- What is done around calls of user code is permitted. -/
theorem announcing (hP : Unobtrusive P) :
    Announcing fun {_} (routine : Routine H _) => routine.Within P :=
  ((inherited P).mono (fun _ _ => hP.of_announcement) fun _ => id).announcing

/-- What is done with the token of a body while it runs on the caller's thread, and afterwards. -/
theorem runHere {token : TokenId} (hP : Enforceable token P) (body : TokenId → Program H .result) :
    (Routine.runHere token body).Within P :=
  .bind (.record hP.recorded) fun _ => .run _

theorem followWorker {token : TokenId} (hP : Enforceable token P) (e : EnforcerId) (kind : Kind)
    (duration : Duration) (number start : Nat) (id : WorkerId) :
    (Routine.followWorker e kind duration number start token id : Routine H _).Within P := by
  refine .bind (.viewAfter hP.unchanged _ _) fun ending => .bind (.view hP.unchanged _) fun now => ?_
  have hgiveUp (event : Event) {β : Type} (result : β) :
      (do Routine.log event; Routine.cancel token; return result : Routine H β).Within P :=
    .bind (.log hP.logged _) fun _ => .bind (.change hP.cancelled) fun _ => .pure _
  cases ending with
  | finished outcome => exact .bind (.ofOutcome _) fun _ => .pure _
  | stopped => exact hgiveUp _ _
  | timedOut => exact hgiveUp _ _

end Within

section Enforceable

variable {P : TokenId → World H → World H → Prop} (after : TokenId → Place)
  (hP : ∀ token, Enforceable token (P token))
  (hmade : ∀ w, rule.passes place w w.newToken.2 (after w.newToken.1))
  (hafter : ∀ token w w', P token w w' → rule.passes (after token) w w' (after token))
  (hresumes : ∀ token {r : Reply} (program : Program H r) outcome,
    rule.resumes (after token) program outcome (after token))

include hP hmade hafter hresumes

theorem follows_runOnCaller (kind : Kind) (duration : Duration) (body : TokenId → Program H .result) :
    (runOnCaller kind duration body).Follows rule (fun _ _ => True) place := by
  refine follows_update_bind fun w => ⟨_, hmade w, ?_⟩
  have hP := hP w.newToken.1
  refine Within.follows ?_ (hafter _) (hresumes _) fun _ => trivial
  refine .bind (.view hP.unchanged _) fun start => .bind (.change fun w => hP.alarmSet w _) fun _ => ?_
  refine .bind (.attempt (.runHere hP _)) fun outcome => .bind (.change hP.alarmsCleared) fun _ => ?_
  refine .bind (.ofOutcome _) fun result => .bind (.view hP.unchanged _) fun now => ?_
  refine .bind (.view hP.unchanged _) fun cancelled => ?_
  split
  · exact .bind (.log hP.logged _) fun _ => .pure _
  · exact .pure _

theorem follows_runOnWorker (e : EnforcerId) (kind : Kind) (duration : Duration)
    (body : TokenId → Program H .result) :
    (runOnWorker e kind duration body).Follows rule (fun _ _ => True) place := by
  refine follows_update_bind fun w => ⟨_, hmade w, ?_⟩
  have hP := hP w.newToken.1
  refine Within.follows ?_ (hafter _) (hresumes _) fun _ => trivial
  refine .bind (.update fun w => hP.workerCounted w _) fun number => ?_
  refine .bind (.view hP.unchanged _) fun start => .bind (.update hP.spawned) fun error => ?_
  cases error with
  | some error => exact .pure _
  | none =>
      exact .bind (.update fun w => hP.workerStarted w _ _) fun id => .followWorker hP _ _ _ _ _ _

/-- A body is run with a token of its own, which is made first. -/
theorem follows_runWithTimeout (hlogged : ∀ w e, rule.passes place w (w.logged e) place)
    (e : EnforcerId) (kind : Kind) (timeout : Option EffectiveTimeout)
    (body : TokenId → Program H .result) :
    (runWithTimeout e kind timeout body).Follows rule (fun _ _ => True) place := by
  cases timeout with
  | none =>
      refine follows_change_bind fun w => ⟨place, hlogged w _, ?_⟩
      refine follows_update_bind fun w => ⟨_, hmade w, ?_⟩
      refine Within.follows ?_ (hafter _) (hresumes _) fun _ => trivial
      exact .bind (.runHere (hP _) _) fun _ => .pure _
  | some timeout =>
      refine follows_change_bind fun w => ⟨place, hlogged w _, ?_⟩
      rcases timeout with ⟨duration, _ | _ | _⟩
      · exact follows_runOnCaller after hP hmade hafter hresumes _ _ _
      · exact follows_runOnCaller after hP hmade hafter hresumes _ _ _
      · exact follows_runOnWorker after hP hmade hafter hresumes _ _ _ _

end Enforceable

section Invocation

variable (hP : Unobtrusive P) (hpasses : ∀ place w w', P w w' → rule.passes place w w' place)
  (hresumes : ∀ place {r : Reply} (program : Program H r) outcome,
    rule.resumes place program outcome place)
  {e : EnforcerId} {q : InvocationRequest} {body : Arguments → TokenId → Program H .result}
  (hbody : (runBody e q body).Follows rule (fun _ _ => True) place)

include hP hpasses hresumes hbody

theorem follows_runPrepared :
    (runPrepared e q body).Follows rule (fun _ _ => True) place := by
  refine follows_view_bind fun w => ⟨place, hpasses _ _ _ (hP.unchanged w), ?_⟩
  have hbefore (callbacks : List (Extension (Program H) × (ScopeId → Program H .done))) :
      (runBefore q.scope callbacks).Follows rule (fun _ place' => place' = place) place :=
    Within.follows ((Within.announcing hP).runBefore _ _) (hpasses _) (hresumes _) fun _ => rfl
  apply (hbefore _).bind
  · rintro answer place rfl
    rcases answer with _ | ⟨⟨⟩⟩
    · trivial
    · exact hbody
  · exact fun _ _ _ => trivial

theorem follows_invocationResult :
    (invocationResult e q body).Follows rule (fun _ _ => True) place := by
  refine follows_view_bind fun w => ⟨place, hpasses _ _ _ (hP.unchanged w), ?_⟩
  split
  · trivial
  · split
    · apply (follows_runPrepared hP hpasses hresumes hbody).bind
      · exact fun result place _ =>
          Within.follows ((Within.announcing hP).finishTest _ _) (hpasses _) (hresumes _) fun _ => trivial
      · exact fun _ _ _ => trivial
    · exact hbody

/-- Apart from obtaining the configuration and from running the body, an invocation is unobtrusive. -/
theorem follows_invoke : (invoke e q body).Follows rule (fun _ _ => True) place := by
  refine follows_view_bind fun w => ⟨place, hpasses _ _ _ (hP.unchanged w), ?_⟩
  apply (follows_invocationResult hP hpasses hresumes hbody).bind
  · intro result place _
    refine Within.follows ?_ (hpasses _) (hresumes _) fun _ => trivial
    exact .bind (.view hP.unchanged _) fun _ => .bind (.view hP.unchanged _) fun _ =>
      .bind (.log hP.logged _) fun _ => .pure _
  · exact fun _ _ _ => trivial

end Invocation

end Routine

/-- However operations of moves take turns, among others who make moves, every section of theirs begins in
a world that moves have led to. -/
theorem Ensemble.meanwhile_of_run {ι : Type} [DecidableEq ι] {α : ι → Type}
    {others : List (Deed H ι) → World H → World H → Prop} {routines : ∀ j, Routine H (α j)}
    {w : World H} {e : Ensemble H α} (hroutines : ∀ j, (routines j).Moves)
    (hothers : ∀ log w w', others log w w' → Move w w')
    (hrun : (Ensemble.start routines w).Run others e) :
    ∀ j before after, .passed j before after ∈ e.log → Meanwhile w before := by
  let rule : Rule H Unit := ⟨fun _ w w' _ => Move w w', fun _ _ _ _ _ => True⟩
  have hstart : (Ensemble.start routines w).At (fun _ => rule) (fun _ _ _ => True)
      ⟨w, fun _ => (), []⟩ := by
    refine .start (fun j => ?_) w
    have hwithin : (routines j).Within Move := (hroutines j).within
    exact hwithin.follows (fun _ _ => id) (fun _ _ => trivial) fun _ => trivial
  obtain ⟨scene, hat, hsteps⟩ := hstart.run hrun
  have hscene : Meanwhile w scene.world ∧
      ∀ j before after, .passed j before after ∈ scene.log → Meanwhile w before := by
    clear hat
    induction hsteps with
    | refl => exact ⟨.refl, fun _ _ _ hdeed => absurd hdeed List.not_mem_nil⟩
    | tail _ hstep ih =>
        obtain ⟨hworld, hlog⟩ := ih
        cases hstep with
        | passed j hpasses =>
            refine ⟨hworld.tail hpasses, fun j' before after hdeed => ?_⟩
            rcases List.mem_cons.mp hdeed with hnew | hold
            · cases hnew
              exact hworld
            · exact hlog j' before after hold
        | called j _ =>
            refine ⟨hworld, fun j' before after hdeed => ?_⟩
            rcases List.mem_cons.mp hdeed with hnew | hold
            · cases hnew
            · exact hlog j' before after hold
        | others hother => exact ⟨hworld.tail (hothers _ _ _ hother), hlog⟩
  rw [← hat.log]
  exact hscene.2

end TimedInvocation
