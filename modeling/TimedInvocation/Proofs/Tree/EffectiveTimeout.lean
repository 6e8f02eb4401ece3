import TimedInvocation.Proofs.Ownership
import TimedInvocation.Proofs.Tree.Provenance

/-!
# Every invocation runs under its effective timeout

Any number of invocations in the scopes of a tree, whose source gives the same values all the time: each of
them that reaches its body runs it without a deadline if timeouts are disabled or if there is none for it,
and under exactly the declared or configured timeout otherwise. Without a deadline the token of the body is
left alone by all of them. So what an invocation reports about a timeout is what the policy says.
-/

namespace TimedInvocation

open Relation World

variable {H : Host} {ι : Type}

/-- What an invocation has reported, if that is the errand and it has ended. -/
def Errand.reported : (errand : Errand H) → Progress H errand.Answer → Option (Report H.Result)
  | .invocation _ _ _, .own (.ended (.returned report)) => some report
  | _, _ => none

/-- Whoever has nothing to invoke is calm. -/
theorem Errand.calm_or_invocation (errand : Errand H) :
    errand.routine.Within Calm ∨ ∃ e q body, errand = .invocation e q body := by
  cases errand with
  | configuration s => exact .inl (Routine.calm_configurationOf s)
  | invocation e q body => exact .inr ⟨e, q, body, rfl⟩
  | consultation c inquiry => cases inquiry <;> exact .inl (Routine.calm_consult c _ _)

/-- Whatever the errand, there is one token at most that is made for it. -/
theorem Errand.follows_owning (errand : Errand H) :
    errand.routine.Follows owning (fun _ _ => True) none := by
  rcases errand.calm_or_invocation with hcalm | ⟨e, q, body, rfl⟩
  · exact hcalm.follows (passes_calm none) (fun _ _ => rfl) fun _ => trivial
  · exact Routine.follows_owning_invoke e q body

/-- A body never runs under a thread mode that leaves the choice open. -/
theorem Assignment.threadMode_of_effective {values : Assignment} {disabled : Bool} {kind : Kind}
    {declared : Option DeclaredTimeout} {t : EffectiveTimeout}
    (ht : values.effective disabled kind declared = some t) : t.threadMode ≠ .inferred := by
  have hmode (mode : ThreadMode) : values.threadModeFor mode ≠ .inferred := by
    by_cases hinferred : mode = .inferred
    · rw [threadModeFor, if_pos hinferred, defaultThreadMode, threadModeIn]
      cases hread : ((values .threadMode).bind ThreadMode.read?).filter (· ≠ .inferred) with
      | none => simp
      | some mode' => simpa using (Option.filter_eq_some_iff.mp hread).2
    · rwa [threadModeFor, if_neg hinferred]
  rw [effective] at ht
  split at ht
  · cases ht
  · cases declared with
    | some declared =>
        cases ht
        exact hmode _
    | none =>
        obtain ⟨duration, -, rfl⟩ := Option.map_eq_some_iff.mp ht
        exact hmode .inferred

/-- All that an invocation does under a timeout, or without one, and what it reports in the end. -/
inductive Invoked (timeout : Option EffectiveTimeout) (who : ι) (e : EnforcerId) (q : InvocationRequest)
    (body : Arguments → TokenId → Program H .result) (deeds : List (Deed H ι))
    (reported : Option (Report H.Result)) : Prop where
  /-- The invocation does not reach its body. -/
  | short (hcalm : ∀ deed ∈ deeds, deed.Within Calm)
      (hreported : ∀ report, reported = some report →
        ∃ error, error.Early ∧ report.outcome = .ofResult (.error error))
  /-- The body is run under exactly the timeout, and nothing is done to tokens and alarms but for that. -/
  | long {before inner after : List (Deed H ι)} {arguments : Arguments}
      {outcome? : Option (Outcome (Except InvocationError H.Result))}
      (hdeeds : deeds = before ++ inner ++ after) (hbefore : ∀ deed ∈ before, deed.Within Calm)
      (hinner : Enforced who e q.kind (body arguments) timeout inner outcome?)
      (hafter : ∀ deed ∈ after, deed.Within Calm) (hended : after ≠ [] → outcome?.isSome)
      (hreported : ∀ report, reported = some report → ∃ result answer,
        outcome? = some (.returned result) ∧ Carries result answer ∧ report.outcome = .ofResult answer)

/-- An invocation runs under a timeout, or without one. -/
structure RunsUnder (timeout : Option EffectiveTimeout) (who : ι) (e : EnforcerId)
    (q : InvocationRequest) (body : Arguments → TokenId → Program H .result) (deeds : List (Deed H ι))
    (reported : Option (Report H.Result)) : Prop where
  invoked : Invoked timeout who e q body deeds reported
  /-- It reports no timeout but this one. -/
  timedOut : ∀ report error, reported = some report → report.outcome = .timedOut error →
    ∃ t, timeout = some t ∧ error.kind = q.kind ∧ error.duration = t.duration ∧
      error.threadMode = t.threadMode
  /-- It is cancelled after its body was started only on a worker, and only if a stop was requested. -/
  cancelled : ∀ report kind, reported = some report → report.outcome = .cancelled kind →
    (∃ deed ∈ deeds, deed.StartsBody) → kind = q.kind ∧ ∃ t, timeout = some t ∧
      t.threadMode = .separateThread ∧ ∃ w, .passed who w w ∈ deeds ∧ w.stopRequested e = true

section Invoked

variable {timeout : Option EffectiveTimeout} {who : ι} {e : EnforcerId} {q : InvocationRequest}
  {body : Arguments → TokenId → Program H .result} {deeds : List (Deed H ι)}
  {reported : Option (Report H.Result)}

theorem InvocationOutcome.eq_of_timedOut {ρ : Type} {answer : Except InvocationError ρ}
    {error : TimeoutError} (houtcome : ofResult answer = .timedOut error) :
    answer = .error (.timeout error) := by
  rw [← toResult_ofResult answer, houtcome]
  rfl

theorem InvocationOutcome.eq_of_cancelled {ρ : Type} {answer : Except InvocationError ρ} {kind : Kind}
    (houtcome : ofResult answer = .cancelled kind) : answer = .error (.cancelled kind) := by
  rw [← toResult_ofResult answer, houtcome]
  rfl

/-- What the body has not come to, callbacks do not report. -/
theorem Carries.eq_of_not_callback {ρ : Type} {result : Except InvocationError ρ}
    {error : InvocationError} (hcarries : Carries result (.error error))
    (hother : ∀ name extension chain, error ≠ .callback name extension chain) :
    result = .error error := by
  rcases hcarries with hsame | ⟨name, extension, chain, hcallback, -⟩
  · exact hsame.symm
  · cases hcallback
    exact absurd rfl (hother name extension chain)

theorem Invoked.runsUnder (hinvoked : Invoked timeout who e q body deeds reported)
    (hchosen : ∀ t, timeout = some t → t.threadMode ≠ .inferred) :
    RunsUnder timeout who e q body deeds reported where
  invoked := hinvoked
  timedOut report error hreport houtcome := by
    cases hinvoked with
    | short hcalm hreported =>
        obtain ⟨early, hearly, hreported⟩ := hreported report hreport
        cases InvocationOutcome.eq_of_timedOut (hreported.symm.trans houtcome)
        exact hearly.elim
    | long hdeeds hbefore hinner hafter hended hreported =>
        obtain ⟨result, answer, rfl, hcarries, hreported⟩ := hreported report hreport
        obtain rfl := InvocationOutcome.eq_of_timedOut (hreported.symm.trans houtcome)
        obtain rfl := hcarries.eq_of_not_callback (by simp)
        obtain ⟨t, ht, hkind, hduration, hmode⟩ := hinner.timedOut
        exact ⟨t, ht, hkind, hduration, hmode (hchosen t ht)⟩
  cancelled report kind hreport houtcome hstarted := by
    cases hinvoked with
    | short hcalm hreported =>
        obtain ⟨deed, hdeed, hstarts⟩ := hstarted
        have hquiet := hcalm deed hdeed
        cases deed with
        | passed who before after => exact absurd hstarts hquiet.quiet
        | called who program outcome => exact hstarts.elim
    | long hdeeds hbefore hinner hafter hended hreported =>
        obtain ⟨result, answer, rfl, hcarries, hreported⟩ := hreported report hreport
        obtain rfl := InvocationOutcome.eq_of_cancelled (hreported.symm.trans houtcome)
        obtain rfl := hcarries.eq_of_not_callback (by simp)
        obtain ⟨hkind, t, ht, hmode, w, hdeed, hstop⟩ := hinner.cancelled
        exact ⟨hkind, t, ht, hmode, w, by simp [hdeeds, hdeed], hstop⟩

/-- Whoever runs a body without a deadline has made the token for it, and leaves all tokens alone. -/
theorem Invoked.spares (hinvoked : Invoked none who e q body deeds reported) {w : World H}
    {token : TokenId} (hdeed : .passed who w (w.recorded (.body token)) ∈ deeds) :
    (∃ w', .passed who w' w'.newToken.2 ∈ deeds ∧ token = w'.newToken.1) ∧
      ∀ deed ∈ deeds, deed.Within (Spares token) := by
  have hquiet {P : World H → World H → Prop} {deeds : List (Deed H ι)}
      (hquiet : ∀ w w', P w w' → ¬ w.StartsBody w') (hwithin : ∀ deed ∈ deeds, deed.Within P) :
      ∀ deed ∈ deeds, deed ≠ .passed who w (w.recorded (.body token)) := by
    rintro deed hmem rfl
    exact hquiet _ _ (hwithin _ hmem) ⟨token, rfl⟩
  have hspares {deeds : List (Deed H ι)} (hcalm : ∀ deed ∈ deeds, deed.Within Calm) :
      ∀ deed ∈ deeds, deed.Within (Spares token) := by
    intro deed hmem
    have hthis := hcalm deed hmem
    cases deed with
    | passed who before after => exact hthis.spares token
    | called who program outcome => trivial
  cases hinvoked with
  | short hcalm hreported => exact absurd rfl (hquiet (fun _ _ hcalm => hcalm.quiet) hcalm _ hdeed)
  | @long before inner after _ _ hdeeds hbefore hinner hafter hended hreported =>
      subst hdeeds
      -- The body is started in the third section of those that are not calm.
      rw [List.append_assoc, List.mem_append, List.mem_append] at hdeed
      have hstarted : .passed who w (w.recorded (.body token)) ∈ inner := by
        rcases hdeed with hmem | hmem | hmem
        · exact absurd rfl (hquiet (fun _ _ hcalm => hcalm.quiet) hbefore _ hmem)
        · exact hmem
        · exact absurd rfl (hquiet (fun _ _ hcalm => hcalm.quiet) hafter _ hmem)
      cases hinner with
      | preparing hpreparing => exact absurd ⟨token, rfl⟩ (hpreparing _ hstarted)
      | @unbounded event w₁ w₂ w₃ later _ hlater =>
          have hcalled : ∀ deed ∈ later, deed.Within fun _ _ => False := by
            cases hlater with
            | running => simp
            | ended ending => simp [Deed.Within]
          have htoken : token = w₂.newToken.1 := by
            simp only [List.mem_cons, Deed.passed.injEq, true_and] at hstarted
            rcases hstarted with ⟨rfl, hsame⟩ | ⟨rfl, hsame⟩ | ⟨rfl, hsame⟩ | hmem
            · exact absurd ⟨token, rfl⟩ (not_startsBody_of_trace (congrArg World.trace hsame))
            · exact absurd ⟨token, rfl⟩ (not_startsBody_of_trace (congrArg World.trace hsame))
            · exact Occurrence.body.inj (List.cons.inj (congrArg World.trace hsame)).1
            · exact absurd rfl (hquiet (fun _ _ => False.elim) hcalled _ hmem)
          refine ⟨⟨w₂, by simp, htoken⟩, ?_⟩
          simp only [List.forall_mem_append, List.forall_mem_cons]
          refine ⟨⟨hspares hbefore, ?_, spares_newToken w₂ token, .of_eq rfl rfl, ?_⟩, hspares hafter⟩
          · exact (calm.logged w₁ event).spares token
          · intro deed hmem
            have hthis := hcalled deed hmem
            cases deed with
            | passed who before after => exact hthis.elim
            | called who program outcome => trivial

end Invoked

theorem World.configurations_foldl_cancel (tokens : List TokenId) (w : World H) :
    (tokens.foldl cancel w).configurations = w.configurations := by
  induction tokens generalizing w with
  | nil => rfl
  | cons t rest ih => exact ih _

namespace Tree

variable (T : Tree H)

/-- The clock may move on. -/
theorem considerate_moveTo (values : Assignment) (log : List (Deed H ι)) (w : World H) (time : Nat) :
    T.Considerate values log w (w.moveTo time) := by
  have hheap : (w.moveTo time).heap = w.heap := w.heap_moveTo time
  have hconfigurations : (w.moveTo time).configurations = w.configurations :=
    configurations_foldl_cancel _ _
  refine ⟨⟨.moved w time, .inr ?_, fun _ _ i _ => by rw [hheap]⟩, fun c config hconfig _ => ?_⟩
  · unfold entrySlot?
    rw [hheap]
  · exact ⟨config, hconfigurations ▸ hconfig, .refl config⟩

/-- The debugger has given an answer when somebody made a configuration for the source of the tree. -/
def Answered (log : List (Deed H ι)) (answer : Bool) : Prop :=
  ∃ w, (∃ deed ∈ log, T.Makes w deed) ∧
    (H.debugger (H.read T.source Property.mode.name w.state).2).1 = answer

/-- What becomes of the invocations in the scopes of a tree whose source gives the values of an
assignment. -/
structure EffectiveTimeouts (values : Assignment) (disabled : Bool) (errands : ι → Errand H)
    [DecidableEq ι] (last : Ensemble H fun j => (errands j).Answer) : Prop where
  /-- Timeouts are disabled or not as the mode says, or as the debugger has answered before the first
  body was run. -/
  disables : (∃ deed ∈ last.log, deed.StartsBody) → values.Disables (T.Answered last.log) disabled
  /-- Each invocation runs under its effective timeout. -/
  timed : ∀ j e q body, errands j = .invocation e q body →
    RunsUnder (values.effective disabled q.kind q.declared) j e q body (last.story j)
      ((errands j).reported (last.members j))
  /-- If there is none, nobody on an errand cancels the token of the body or sets an alarm for it. -/
  spared : ∀ j e q body, errands j = .invocation e q body →
    values.effective disabled q.kind q.declared = none → ∀ (w : World H) (token : TokenId),
      .passed j w (w.recorded (.body token)) ∈ last.log →
        ∀ deed ∈ last.log, deed.Within (Spares token)
  /-- In all modes but one, the configuration is made without the debugger. -/
  unprobed : timeoutModeIn (values .mode) ≠ .disabledOnDebug →
    ∀ (w : World H) (probe : H.State → Bool × H.State),
      w.newConfiguration T.source H.debugger = w.newConfiguration T.source probe

section Runs

variable {T} {values : Assignment} {first : World H} {errands : ι → Errand H} {who : ι}
  {e : EnforcerId} {q : InvocationRequest} {body : Arguments → TokenId → Program H .result}

/-- Whoever invokes something takes the course of an invocation. -/
theorem course_of_tells {errand : Errand H} {member : Progress H errand.Answer}
    {deeds : List (Deed H ι)} (herrand : errand = .invocation e q body)
    (htells : errand.routine.Tells who deeds member.rest) :
    ∃ answer?, Course who e q body deeds answer? ∧ ∀ report, errand.reported member = some report →
      ∃ answer, answer? = some answer ∧ report.outcome = .ofResult answer := by
  subst herrand
  obtain ⟨answer?, hcourse, hanswer⟩ := Routine.invoke_course htells
  refine ⟨answer?, hcourse, fun report hreport => hanswer report ?_⟩
  cases member with
  | away program next => cases hreport
  | own routine =>
      cases routine with
      | step pause change next => cases hreport
      | call program next => cases hreport
      | ended outcome =>
          cases outcome with
          | returned report' => exact hreport
          | panicked payload => cases hreport

/-- The course of an invocation, with the timeout that the configuration of the tree gives. -/
theorem invoked_of_course {scene : Scene H fun _ : ι => Place} {disabled : Bool}
    {deeds : List (Deed H ι)} {answer? : Option (Except InvocationError H.Result)}
    {reported : Option (Report H.Result)} (hspawn : ∀ state, (H.spawn state).1 = none)
    (hgiven : values.GivenBy H.read T.source)
    (hdisabled : ∀ i c config, T.Upheld values (.kept i c) scene →
      T.Backed values scene.world c config → config.disabled = disabled)
    (hall : T.AllAttested values scene q.scope [] deeds) (hcourse : Course who e q body deeds answer?)
    (hanswer : ∀ report, reported = some report →
      ∃ answer, answer? = some answer ∧ report.outcome = .ofResult answer) :
    Invoked (values.effective disabled q.kind q.declared) who e q body deeds reported := by
  cases hcourse with
  | short hcalm hearly =>
      refine .short hcalm fun report hreport => ?_
      obtain ⟨answer, rfl, houtcome⟩ := hanswer report hreport
      obtain ⟨error, rfl, hbefore⟩ := hearly answer rfl
      exact ⟨error, hbefore, houtcome⟩
  | @long before configuring timing inner after arguments c timeout rest hdeeds hbefore hconfiguring
      htiming hinner hafter hended hends =>
      subst hdeeds
      have htimed := hall.left.left
      obtain ⟨i, config, hkept, hconfig, htimeout⟩ :=
        (known_of_configurationOf hconfiguring htimed.left.right).timeoutOf hgiven htiming
          (by simpa using htimed.right)
      rw [hdisabled i c config hkept hconfig] at htimeout
      have hcalm : ∀ deed ∈ before ++ configuring ++ timing, deed.Within Calm := by
        have hobtained := (Routine.calm_configurationOf q.scope).of_tells hconfiguring
        have hasked := (Routine.calm_timeoutOf c q.kind q.declared).of_tells htiming
        simp only [List.forall_mem_append]
        exact ⟨⟨hbefore, hobtained⟩, hasked⟩
      refine .long rfl hcalm (htimeout ▸ hinner.runWithTimeout hspawn) hafter hended
        fun report hreport => ?_
      obtain ⟨answer, rfl, houtcome⟩ := hanswer report hreport
      obtain ⟨result, rfl, hcarries⟩ := hends answer rfl
      exact ⟨result, answer, rfl, hcarries, houtcome⟩

/-- Only with a configuration that is kept does an invocation come to its body. -/
theorem kept_of_course {scene : Scene H fun _ : ι => Place} {deeds : List (Deed H ι)}
    {answer? : Option (Except InvocationError H.Result)}
    (hall : T.AllAttested values scene q.scope [] deeds) (hcourse : Course who e q body deeds answer?)
    (hstarted : ∃ deed ∈ deeds, deed.StartsBody) : ∃ i c, T.Upheld values (.kept i c) scene := by
  cases hcourse with
  | short hcalm hearly =>
      obtain ⟨deed, hdeed, hstarts⟩ := hstarted
      have hquiet := hcalm deed hdeed
      cases deed with
      | passed who before after => exact absurd hstarts hquiet.quiet
      | called who program outcome => exact hstarts.elim
  | @long before configuring timing inner after arguments c timeout rest hdeeds hbefore hconfiguring
      htiming hinner hafter hended hends =>
      subst hdeeds
      obtain ⟨⟨i, hkept⟩, -⟩ := (known_of_configurationOf hconfiguring hall.left.left.left.right).backed
      exact ⟨i, c, hkept⟩

/-- The configuration that is kept is disabled or not as it was when it was made. -/
theorem Upheld.disables {scene : Scene H fun _ : ι => Place} {i : SlotId} {c : ConfigurationId}
    {config : TimeoutConfiguration H.Source} (hgiven : values.GivenBy H.read T.source)
    (hupheld : T.Upheld values (.kept i c) scene) (hconfig : T.Backed values scene.world c config) :
    values.Disables (T.Answered scene.log) config.disabled := by
  obtain ⟨w, rfl, deed, hdeed, hmakes⟩ := hupheld.origin c rfl
  cases deed with
  | called who program outcome => exact hmakes.elim
  | passed who before after =>
      obtain ⟨rfl, rfl⟩ := hmakes
      obtain ⟨config', hconfig', hremains⟩ :=
        (hupheld.past who _ _ hdeed).configurations _ _ List.getElem?_concat_length rfl
      obtain rfl := Option.some.inj (hconfig.configured.symm.trans hconfig')
      rw [hremains.disabled]
      exact (TimeoutConfiguration.new_disables hgiven _ _).mono fun hanswer =>
        ⟨before, ⟨_, hdeed, rfl, rfl⟩, hanswer⟩

variable [DecidableEq ι]

/-- Every member of an ensemble comes to the last world through worlds in which the configuration is where it
should be. -/
theorem upheld_of_run {last : Ensemble H fun j => (errands j).Answer}
    (hgiven : values.GivenBy H.read T.source) (hfirst : first.Reachable) (hplanted : T.Planted first)
    (hunasked : T.entrySlot? first = none)
    (hrun : (Ensemble.start (fun j => (errands j).routine) first).Run (T.Considerate values) last)
    (hfits : ∀ j before after, .passed j before after ∈ last.log → T.Fits before (errands j)) :
    ∃ (scene : Scene H fun _ : ι => Place) (phase : Phase ι), scene.log = last.log ∧
      T.Upheld values phase scene ∧ ∀ j e q body, errands j = .invocation e q body →
        T.AllAttested values scene q.scope [] (last.story j) := by
  have hstart : (Ensemble.start (fun j => (errands j).routine) first).At
      (fun j => T.movingRule (.blank T.source) (errands j)) (fun j => final (errands j))
      ⟨first, fun _ => .outside, []⟩ :=
    .start (fun j => T.follows_routine (.blank T.source) (errands j)) first
  obtain ⟨⟨w, places, log⟩, hlast, hsteps⟩ := hstart.run hrun
  obtain rfl : w = last.world := hlast.world
  obtain rfl : log = last.log := hlast.log
  have hunasked : T.Upheld values .unasked ⟨first, fun _ : ι => .outside, []⟩ :=
    .start hfirst hplanted hunasked
  obtain ⟨phase, hupheld, -⟩ := hunasked.steps hgiven hsteps hfits
  refine ⟨_, phase, rfl, hupheld, ?_⟩
  intro j e q body herrand earlier j' w w' later hstory
  obtain ⟨upper, lower, hlog, hearlier⟩ := Ensemble.log_of_story hstory
  have hdeed : .passed j' w w' ∈ last.log ∧ j' = j := by
    have hmem : .passed j' w w' ∈ last.story j := by simp [hstory]
    exact Ensemble.mem_story.mp hmem
  obtain ⟨before, after, hto, hstep, hfrom, hlogged, hleads⟩ := Scene.step_of_log rfl hsteps hlog
  obtain ⟨rfl, -⟩ := hleads j' w w' rfl
  -- The steps up to the deed, and those from there to the last scene.
  have honward := ReflTransGen.head hstep hfrom
  obtain ⟨phase₁, hupheld₁, -⟩ := hunasked.steps hgiven hto fun j before after hdeed =>
    hfits j before after (Scene.mem_log_of_steps honward hdeed)
  obtain ⟨phase₂, hupheld₂, hlasting, hkept⟩ := hupheld₁.steps hgiven honward hfits
  have hfit := hfits j' _ _ hdeed.1
  rw [hdeed.2, herrand] at hfit
  refine ⟨hfit.2, phase₁, ⟨before.places, before.log, hupheld₁, ?_⟩, hlasting, fun i c hsame => ?_⟩
  · simpa [hlogged] using hearlier
  · exact hkept i c hsame ▸ hupheld₂

/-- Somebody on an errand has made a token, and the others leave it alone. -/
theorem spares_of_run {last : Ensemble H fun j => (errands j).Answer}
    (hrun : (Ensemble.start (fun j => (errands j).routine) first).Run (T.Considerate values) last)
    {j : ι} {w : World H} (hmade : .passed j w w.newToken.2 ∈ last.log) {deed : Deed H ι}
    (hdeed : deed ∈ last.log) (hother : deed.who ≠ j) : deed.Within (Spares w.newToken.1) := by
  obtain ⟨scene, howned, hlog⟩ := Owned.of_run (fun j => (errands j).follows_owning)
    (fun _ _ _ hothers => hothers.move) hrun
  rw [← hlog] at hmade hdeed
  cases deed with
  | called who program outcome => trivial
  | passed who before after =>
      refine howned.spares who before after hdeed _ fun hplace => hother ?_
      exact howned.apart who j _ hplace (howned.owner j w hmade)

/-- Any number of invocations in the scopes of a tree, in any interleaving of their sections with each other,
with other errands on the tree and with whatever user code does meanwhile that leaves the entry for the
configuration to the library: if the source of the tree gives the same values all the time, whatever they
are, and worker threads can be started, each invocation runs under its effective timeout. -/
theorem every_invocation_under_its_timeout {last : Ensemble H fun j => (errands j).Answer}
    (hgiven : values.GivenBy H.read T.source) (hspawn : ∀ state, (H.spawn state).1 = none)
    (hfirst : first.Reachable) (hplanted : T.Planted first) (hunasked : T.entrySlot? first = none)
    (hrun : (Ensemble.start (fun j => (errands j).routine) first).Run (T.Considerate values) last)
    (hfits : ∀ j before after, .passed j before after ∈ last.log → T.Fits before (errands j)) :
    ∃ disabled, T.EffectiveTimeouts values disabled errands last := by
  obtain ⟨scene, phase, hlog, hupheld, hall⟩ := upheld_of_run hgiven hfirst hplanted hunasked hrun hfits
  have hcourse {j : ι} {e : EnforcerId} {q : InvocationRequest}
      {body : Arguments → TokenId → Program H .result} (herrand : errands j = .invocation e q body) :=
    course_of_tells herrand (Ensemble.tells_of_run hrun j)
  -- The configuration that is kept in the end decides for all; without one no body has been run.
  obtain ⟨disabled, hdisables, hdisabled⟩ : ∃ disabled,
      ((∃ deed ∈ last.log, deed.StartsBody) → values.Disables (T.Answered last.log) disabled) ∧
        ∀ i c config, T.Upheld values (.kept i c) scene → T.Backed values scene.world c config →
          config.disabled = disabled := by
    by_cases hkept : ∃ i c, T.Upheld values (.kept i c) scene
    · obtain ⟨i, c, hkept⟩ := hkept
      obtain ⟨config, hconfig⟩ := hkept.backed c rfl
      refine ⟨config.disabled, fun _ => hlog ▸ hkept.disables hgiven hconfig, ?_⟩
      intro i' c' config' hkept' hconfig'
      obtain rfl := hkept.eq_of_kept hkept'
      obtain rfl := Option.some.inj (hconfig.configured.symm.trans hconfig'.configured)
      rfl
    · refine ⟨false, ?_, fun i c config hkept' _ => absurd ⟨i, c, hkept'⟩ hkept⟩
      rintro ⟨deed, hdeed, hstarts⟩
      have hstory : deed ∈ last.story deed.who := Ensemble.mem_story.mpr ⟨hdeed, rfl⟩
      rcases (errands deed.who).calm_or_invocation with hcalm | ⟨e, q, body, herrand⟩
      · have hquiet := hcalm.of_tells (Ensemble.tells_of_run hrun deed.who) deed hstory
        cases deed with
        | passed who before after => exact absurd hstarts hquiet.quiet
        | called who program outcome => exact hstarts.elim
      · obtain ⟨answer?, hcourse, -⟩ := hcourse herrand
        exact absurd (kept_of_course (hall _ e q body herrand) hcourse ⟨deed, hstory, hstarts⟩) hkept
  have hinvoked {j : ι} {e : EnforcerId} {q : InvocationRequest}
      {body : Arguments → TokenId → Program H .result} (herrand : errands j = .invocation e q body) :
      Invoked (values.effective disabled q.kind q.declared) j e q body (last.story j)
        ((errands j).reported (last.members j)) := by
    obtain ⟨answer?, hcourse, hanswer⟩ := hcourse herrand
    exact invoked_of_course hspawn hgiven hdisabled (hall j e q body herrand) hcourse hanswer
  refine ⟨disabled, hdisables, ?timed, ?spared, fun hmode w probe => ?unprobed⟩
  case timed =>
    exact fun j e q body herrand =>
      (hinvoked herrand).runsUnder fun t ht => Assignment.threadMode_of_effective ht
  case spared =>
    intro j e q body herrand hnone w token hdeed deed hmem
    have hthis := hnone ▸ hinvoked herrand
    obtain ⟨⟨w', hmade, rfl⟩, hspares⟩ := hthis.spares (Ensemble.mem_story.mpr ⟨hdeed, rfl⟩)
    by_cases hj : deed.who = j
    · exact hspares deed (Ensemble.mem_story.mpr ⟨hmem, hj⟩)
    · exact spares_of_run hrun (Ensemble.mem_story.mp hmade).1 hmem hj
  case unprobed =>
    rw [newConfiguration, newConfiguration, TimeoutConfiguration.new_probe hgiven hmode probe]

end Runs

end Tree

/-- Its sources are lists of names with values, and its state is whether a debugger is attached. -/
def Host.listing : Host where
  State := Bool
  Result := Unit
  Source := List (String × String)
  read source name attached := (source.lookup name, attached)
  debugger attached := (attached, attached)
  spawn attached := (none, attached)

instance : DecidableEq Host.listing.Result :=
  inferInstanceAs (DecidableEq Unit)

namespace Tree

/-- A tree with the first scope for its root, whose source has a mode, a timeout and a thread mode. -/
def orchard : Tree Host.listing where
  root := 0
  top := ⟨"suite", "suite", [], 0, 0,
    [("proctor.execution.timeout.mode", "disabled_on_debug"),
      ("proctor.execution.timeout.default", "2 s"),
      ("proctor.execution.timeout.thread.mode.default", "separate_thread")]⟩
  isRoot := rfl

namespace Orchard

def values : Assignment :=
  fun p => List.lookup p.name orchard.top.source

/-- The root and an enforcer, with no debugger attached. -/
def first : World Host.listing :=
  let (stop, w) := ((World.initial false).newScope (.root "suite" orchard.top.source) none []).2.newToken
  (w.newEnforcer stop false).2

theorem one_lt_wordCount : 1 < wordCount := by
  decide

/-- A test without a timeout of its own, and one with a timeout for the caller's thread. -/
def errands : Fin 2 → Errand Host.listing
  | 0 => .invocation 0 ⟨0, .test, .method "Type" "slow" [], none, none, none⟩
      fun _ _ => .finish (.ok ())
  | 1 => .invocation 0 ⟨0, .test, .method "Type" "prompt" [], none, none,
      some ⟨⟨1, .hours, Nat.one_pos, one_lt_wordCount⟩, .sameThread⟩⟩ fun _ _ => .finish (.ok ())

theorem fits_errands {w : World Host.listing} (hplanted : orchard.Planted w) (hroot : w.rootOf 0 = 0)
    (j : Fin 2) : orchard.Fits w (errands j) := by
  match j with
  | 0 | 1 => exact ⟨hplanted, hroot⟩

/-- The first test is left to a worker, then the second one is run. -/
def turnsBefore : List (Fin 2) :=
  List.replicate 18 0 ++ List.replicate 26 1

def turnsAfter : List (Fin 2) :=
  List.replicate 8 0

/-- The clock has moved on, while the worker is still running. -/
def middle : Ensemble Host.listing fun j => (errands j).Answer :=
  let e := turnsBefore.foldl Ensemble.turn (.start (fun j => (errands j).routine) first)
  { e with world := e.world.moveTo 2000000000 }

def last : Ensemble Host.listing fun j => (errands j).Answer :=
  turnsAfter.foldl Ensemble.turn middle

end Orchard

open Orchard in
theorem every_invocation_under_its_timeout_orchard :
    (Ensemble.start (fun j => (errands j).routine) first).Run (orchard.Considerate values) last ∧
      ((errands 0).reported (last.members 0)).map Report.outcome = some (.timedOut
        ⟨.test, ⟨2, .seconds, by decide, by decide⟩, 2000000000, .separateThread, none⟩) ∧
      ((errands 1).reported (last.members 1)).map Report.outcome = some (.success ()) ∧
      ∃ disabled, orchard.EffectiveTimeouts values disabled errands last := by
  have hfirst : first.Reachable :=
    ⟨false, .tail (.tail (.single (.plain (.scopeMade _ _ _ _))) (.plain (.tokenMade _)))
      (.plain (.enforcerMade _ _ _))⟩
  have hbefore : (Ensemble.start (fun j => (errands j).routine) first).Run (orchard.Considerate values)
      middle :=
    .tail (Ensemble.run_foldl_turn _ _ turnsBefore) (.others (orchard.considerate_moveTo values _ _ _))
  have hrun := hbefore.trans (Ensemble.run_foldl_turn _ middle turnsAfter)
  have hfits : ∀ j w w', .passed j w w' ∈ last.log → orchard.Fits w (errands j) := by
    intro j w w' hdeed
    have hmore : Meanwhile first w :=
      Ensemble.meanwhile_of_run (fun j => (composed_routine (errands j)).moves)
        (fun _ _ _ hothers => hothers.move) hrun j w w' hdeed
    have hroot : w.scope? 0 = some orchard.top := scope?_eq_of_grows hmore.grows rfl
    exact fits_errands hroot (by rw [rootOf, hroot]; rfl) j
  refine ⟨hrun, by decide +kernel, by decide +kernel, ?_⟩
  exact every_invocation_under_its_timeout (fun _ _ => rfl) (fun _ => rfl) hfirst rfl rfl hrun hfits

end Tree

end TimedInvocation
