import TimedInvocation.Proofs.Deadlines

/-!
# The course of an invocation

The story of an invocation is calm up to the point where it has obtained the timeout configuration and
asked it for a timeout, and then it is the story of running the body under this timeout. After that it is
calm again, and what is reported is what running the body came to, unless a callback fails afterwards.
-/

namespace TimedInvocation

open World

variable {H : Host} {ι α β : Type} {who : ι}

/-- No token is made or cancelled, no alarm is set or cleared, and no body begins to run. -/
structure World.Calm (w w' : World H) : Prop where
  tokens : w'.tokens = w.tokens
  alarms : w'.alarms = w.alarms
  quiet : ¬ w.StartsBody w'

theorem World.Calm.of_eq {w w' : World H} (htokens : w'.tokens = w.tokens)
    (halarms : w'.alarms = w.alarms) (htrace : w'.trace = w.trace) : w.Calm w' :=
  ⟨htokens, halarms, not_startsBody_of_trace htrace⟩

theorem calm : Unobtrusive (Calm : World H → World H → Prop) where
  unchanged w := .of_eq rfl rfl rfl
  logged w e := .of_eq rfl rfl rfl
  recorded w o ho := by
    refine ⟨rfl, rfl, ?_⟩
    rintro ⟨token, htrace⟩
    exact ho token (List.cons.inj htrace).1

/-- So is everything that is done to a store. -/
theorem World.StoreSection.calm {w w' : World H} (hstep : w.StoreSection w') : w.Calm w' := by
  cases hstep with
  | closeBegun s =>
      simp only [beginClose]
      split <;> exact .of_eq rfl rfl rfl
  | unchanged | logged | reserved | vacated | filled => exact .of_eq rfl rfl rfl

namespace Routine

open Within

theorem calm_storing : Storing fun {_} (routine : Routine H _) => routine.Within Calm where
  toInherited := (inherited Calm).mono (fun _ _ => StoreSection.calm) fun _ _ => trivial
  cleanSlot := (inherited Calm).cleanSlot (fun _ _ => .of_eq rfl rfl rfl) trivial
  claim _ _ := .updateAfter (fun _ => .of_eq rfl rfl rfl) _

/-- To obtain the timeout configuration is calm. -/
theorem calm_configurationOf (s : ScopeId) : (configurationOf s : Routine H _).Within Calm :=
  (inherited Calm).configurationOf calm.unchanged (fun _ _ => .of_eq rfl rfl rfl) calm_storing.compute s

theorem calm_consult (c : ConfigurationId) (default : α)
    (f : Consultation H.Source H.State → α × Consultation H.Source H.State) :
    (update fun w => w.consult c default f : Routine H α).Within Calm := by
  refine .update fun w => ?_
  simp only [World.consult]
  split <;> exact .of_eq rfl rfl rfl

theorem calm_timeoutOf (c : ConfigurationId) (kind : Kind) (declared : Option DeclaredTimeout) :
    (timeoutOf c kind declared : Routine H _).Within Calm :=
  (inherited Calm).timeoutOf calm.unchanged (calm_consult c _ _)

end Routine

/-- An answer is the one of a body, unless a callback has failed after the body succeeded. -/
def Carries {ρ : Type} (result answer : Except InvocationError ρ) : Prop :=
  answer = result ∨ ∃ name extension error, answer = .error (.callback name extension error) ∧
    ∃ value, result = .ok value

theorem Carries.trans {ρ : Type} {first second third : Except InvocationError ρ}
    (hfirst : Carries first second) (hsecond : Carries second third) : Carries first third := by
  rcases hsecond with rfl | ⟨name, extension, error, rfl, value, rfl⟩
  · exact hfirst
  · rcases hfirst with rfl | ⟨_, _, _, hcallback, -⟩
    · exact .inr ⟨name, extension, error, rfl, value, rfl⟩
    · cases hcallback

namespace Routine

/-- A rule that leaves everything to the routine. -/
def anything : Rule H Unit :=
  ⟨fun _ _ _ _ => True, fun _ _ _ _ _ => True⟩

/-- The error that a callback before a test leaves is its own. -/
theorem runBefore_follows (scope : ScopeId)
    (callbacks : List (Extension (Program H) × (ScopeId → Program H .done))) :
    (runBefore scope callbacks).Follows anything
      (fun outcome _ => ∀ error, outcome = .returned (.error error) →
        ∃ name extension chain, error = .callback name extension chain) () := by
  induction callbacks with
  | nil => rintro error ⟨⟩
  | cons callback rest ih =>
      refine follows_change_bind fun w => ⟨(), trivial, fun outcome => ⟨(), trivial, ?_⟩⟩
      cases outcome with
      | panicked payload => rintro error ⟨⟩
      | returned answer =>
          rcases answer with e | ⟨⟨⟩⟩
          · rintro error ⟨⟩
            exact ⟨_, _, _, rfl⟩
          · exact ih

/-- The errors that callbacks after a test leave are their own. -/
theorem runAfter_follows (scope : ScopeId) (first : Option InvocationError)
    (callbacks : List (Extension (Program H) × (ScopeId → Program H .done)))
    (hfirst : ∀ error, first = some error → ∃ name extension chain, error = .callback name extension chain) :
    (runAfter scope first callbacks).Follows anything
      (fun outcome _ => ∀ error, outcome = .returned (some error) →
        ∃ name extension chain, error = .callback name extension chain) () := by
  induction callbacks generalizing first with
  | nil =>
      rintro error ⟨⟩
      exact hfirst error rfl
  | cons callback rest ih =>
      refine follows_change_bind fun w => ⟨(), trivial, fun outcome => ⟨(), trivial, ?_⟩⟩
      cases outcome with
      | panicked payload => rintro error ⟨⟩
      | returned answer =>
          rcases answer with e | ⟨⟨⟩⟩
          · cases first with
            | some error => exact fun w _ => ⟨(), trivial, fun w _ => ⟨(), trivial, ih _ hfirst⟩⟩
            | none =>
                refine ih _ ?_
                rintro error ⟨⟩
                exact ⟨_, _, _, rfl⟩
          · exact ih _ hfirst

/-- The callbacks after a test leave its result, or put an error of theirs in the place of a success. -/
theorem finishTest_follows {ρ : Type} (scope : ScopeId) (result : Except InvocationError ρ) :
    (finishTest scope result : Routine H _).Follows anything
      (fun outcome _ => ∀ answer, outcome = .returned answer → Carries result answer) () := by
  refine follows_view_bind fun w => ⟨(), trivial, ?_⟩
  apply (runAfter_follows scope none _ (by simp)).bind
  · intro error place hcallback
    cases error with
    | none =>
        rintro answer ⟨⟩
        exact .inl rfl
    | some error =>
        obtain ⟨name, extension, chain, rfl⟩ := hcallback error rfl
        cases result with
        | ok value =>
            rintro answer ⟨⟩
            exact .inr ⟨name, extension, chain, rfl, value, rfl⟩
        | error earlier =>
            refine fun w _ => ⟨(), trivial, fun w _ => ⟨(), trivial, ?_⟩⟩
            rintro answer ⟨⟩
            exact .inl rfl
  · rintro payload place - answer ⟨⟩

end Routine

/-- The invocation has failed before it came to the body. -/
def InvocationError.Early : InvocationError → Prop
  | resolution _ | cancelled _ | store _ | callback _ _ _ => True
  | timeout _ | workerSpawn _ | action _ => False

/-- All that happens in an invocation, and the answer once there is one: either the body is not reached, or
it is run under the timeout that the configuration gives. -/
inductive Course (who : ι) (e : EnforcerId) (q : InvocationRequest)
    (body : Arguments → TokenId → Program H .result) (deeds : List (Deed H ι))
    (answer? : Option (Except InvocationError H.Result)) : Prop where
  | short (hcalm : ∀ deed ∈ deeds, deed.Within Calm)
      (hanswer : ∀ answer, answer? = some answer → ∃ error, answer = .error error ∧ error.Early)
  | long {before configuring timing inner after : List (Deed H ι)} {arguments : Arguments}
      {c : ConfigurationId} {timeout : Option EffectiveTimeout}
      {rest : Routine H (Except InvocationError H.Result)}
      (hdeeds : deeds = before ++ configuring ++ timing ++ inner ++ after)
      (hbefore : ∀ deed ∈ before, deed.Within Calm)
      (hconfiguring : (Routine.configurationOf q.scope).Tells who configuring
        (.ended (.returned (.ok c))))
      (htiming : (Routine.timeoutOf c q.kind q.declared).Tells who timing (.ended (.returned timeout)))
      (hinner : (Routine.runWithTimeout e q.kind timeout (body arguments)).Tells who inner rest)
      (hafter : ∀ deed ∈ after, deed.Within Calm) (hended : after ≠ [] → rest.ended?.isSome)
      (hanswer : ∀ answer, answer? = some answer →
        ∃ result, rest = .ended (.returned result) ∧ Carries result answer)

section Course

variable {e : EnforcerId} {q : InvocationRequest} {body : Arguments → TokenId → Program H .result}
  {deeds first second : List (Deed H ι)} {answer? : Option (Except InvocationError H.Result)}

/-- Something calm happens before. -/
theorem Course.prepend (hcourse : Course who e q body deeds answer?)
    (hcalm : ∀ deed ∈ first, deed.Within Calm) : Course who e q body (first ++ deeds) answer? := by
  cases hcourse with
  | short hquiet hanswer => exact .short (List.forall_mem_append.mpr ⟨hcalm, hquiet⟩) hanswer
  | long hdeeds hbefore hconfiguring htiming hinner hafter hended hanswer =>
      refine .long ?_ (List.forall_mem_append.mpr ⟨hcalm, hbefore⟩) hconfiguring htiming hinner hafter
        hended hanswer
      simp only [hdeeds, List.append_assoc]

/-- Something calm happens afterwards. -/
theorem Course.append {result : Except InvocationError H.Result}
    (hcourse : Course who e q body deeds (some result)) (hcalm : ∀ deed ∈ second, deed.Within Calm)
    (hcarries : ∀ answer, answer? = some answer → Carries result answer) :
    Course who e q body (deeds ++ second) answer? := by
  cases hcourse with
  | short hquiet hanswer =>
      obtain ⟨error, rfl, hearly⟩ := hanswer result rfl
      refine .short (List.forall_mem_append.mpr ⟨hquiet, hcalm⟩) fun answer hlast => ?_
      rcases hcarries answer hlast with rfl | ⟨_, _, _, -, _, hvalue⟩
      · exact ⟨error, rfl, hearly⟩
      · cases hvalue
  | @long before configuring timing inner after _ _ _ _ hdeeds hbefore hconfiguring htiming hinner hafter
      hended hanswer =>
      obtain ⟨result', rfl, hfirst⟩ := hanswer result rfl
      have hsplit : deeds ++ second = before ++ configuring ++ timing ++ inner ++ (after ++ second) := by
        simp only [hdeeds, List.append_assoc]
      exact .long hsplit hbefore hconfiguring htiming hinner
        (List.forall_mem_append.mpr ⟨hafter, hcalm⟩) (fun _ => rfl) fun answer hlast =>
          ⟨result', rfl, hfirst.trans (hcarries answer hlast)⟩

theorem Course.unanswered (hcourse : Course who e q body deeds answer?) :
    Course who e q body deeds none := by
  cases hcourse with
  | short hquiet hanswer => exact .short hquiet (by simp)
  | long hdeeds hbefore hconfiguring htiming hinner hafter hended hanswer =>
      exact .long hdeeds hbefore hconfiguring htiming hinner hafter hended (by simp)

/-- A stage that is calm, and fails or goes on to the next one. -/
theorem Course.bind {first : Routine H (Except α β)}
    {next : Except α β → Routine H (Except InvocationError H.Result)}
    {rest : Routine H (Except InvocationError H.Result)} (htells : (first >>= next).Tells who deeds rest)
    (hcalm : first.Within Calm)
    (hnext : ∀ answer before later, first.Tells who before (.ended (.returned answer)) →
      (∀ deed ∈ before, deed.Within Calm) → (next answer).Tells who later rest →
      Course who e q body (before ++ later) rest.returned?) :
    Course who e q body deeds rest.returned? := by
  rcases htells.bind with ⟨hnone, rest', hrest⟩ | ⟨answer, before, later, hfirst, hlater, rfl⟩
  · exact .short (hcalm.of_tells hrest) (by simp [hnone])
  · exact hnext answer before later hfirst (hcalm.of_tells hfirst) hlater

variable {rest : Routine H (Except InvocationError H.Result)}

/-- A stage that has failed, with an error of its own. -/
theorem Course.failed {error : InvocationError} (hcalm : ∀ deed ∈ first, deed.Within Calm)
    (htells : (pure (.error error) : Routine H _).Tells who second rest)
    (hearly : error.Early) : Course who e q body (first ++ second) rest.returned? := by
  cases htells with
  | here =>
      refine .short (by simpa using hcalm) fun answer hanswer => ?_
      cases hanswer
      exact ⟨error, rfl, hearly⟩

theorem Routine.runBody_course (htells : (Routine.runBody e q body).Tells who deeds rest) :
    Course who e q body deeds rest.returned? := by
  apply Course.bind htells ((Within.announcing calm).resolveArguments _ _ _ _)
  rintro arguments before later - hbefore hlater
  cases arguments with
  | error error => exact .failed hbefore hlater trivial
  | ok arguments =>
      refine .prepend (.bind hlater (calm_configurationOf _) ?_) hbefore
      rintro answer configuring later hconfiguring hquiet hlater
      cases answer with
      | error error => exact .failed hquiet hlater trivial
      | ok c =>
          rcases hlater.bind with ⟨hnone, rest', htiming⟩ | ⟨timeout, timing, inner, htiming, hinner, rfl⟩
          · have hcalm := (calm_timeoutOf c q.kind q.declared).of_tells htiming
            exact .short (List.forall_mem_append.mpr ⟨hquiet, hcalm⟩) (by simp [hnone])
          · have hsplit : configuring ++ (timing ++ inner) = [] ++ configuring ++ timing ++ inner ++ [] := by
              simp
            exact .long hsplit (by simp) hconfiguring htiming hinner (by simp) (by simp) fun answer hanswer =>
              ⟨answer, eq_of_returned? hanswer, .inl rfl⟩

theorem Routine.runPrepared_course (htells : (Routine.runPrepared e q body).Tells who deeds rest) :
    Course who e q body deeds rest.returned? := by
  rcases htells.view_bind with ⟨rfl, hnone⟩ | ⟨w, later, rfl, hlater⟩
  · exact .short (by simp) (by simp [hnone])
  · have hlook : ∀ deed ∈ [Deed.passed who w w], deed.Within Calm := by
      simpa [Deed.Within] using calm.unchanged w
    refine .prepend (.bind hlater ((Within.announcing calm).runBefore _ _) ?_) hlook
    rintro answer before later hfirst hbefore hlater
    rcases answer with error | ⟨⟨⟩⟩
    · obtain ⟨place, -, hends⟩ := (runBefore_follows q.scope _).path hfirst
      obtain ⟨name, extension, chain, rfl⟩ := hends error rfl
      exact .failed hbefore hlater trivial
    · exact (runBody_course hlater).prepend hbefore

theorem Routine.runTest_course (htells : (Routine.runTest e q body).Tells who deeds rest) :
    Course who e q body deeds rest.returned? := by
  rcases htells.bind with ⟨hnone, rest', hrest⟩ | ⟨result, before, later, hfirst, hlater, rfl⟩
  · rw [hnone]
    exact (runPrepared_course hrest).unanswered
  · obtain ⟨place, -, hends⟩ := (finishTest_follows q.scope result).path hlater
    refine (runPrepared_course hfirst).append (((Within.announcing calm).finishTest _ _).of_tells hlater) ?_
    intro answer hanswer
    rw [eq_of_returned? hanswer] at hends
    exact hends answer rfl

theorem Routine.invocationResult_course
    (htells : (Routine.invocationResult e q body).Tells who deeds rest) :
    Course who e q body deeds rest.returned? := by
  rcases htells.view_bind with ⟨rfl, hnone⟩ | ⟨w, later, rfl, hlater⟩
  · exact .short (by simp) (by simp [hnone])
  · have hlook : ∀ deed ∈ [Deed.passed who w w], deed.Within Calm := by
      simpa [Deed.Within] using calm.unchanged w
    split at hlater
    · exact .failed hlook hlater trivial
    · split at hlater
      · exact (runTest_course hlater).prepend hlook
      · exact (runBody_course hlater).prepend hlook

/-- Every invocation takes its course, and reports the answer. -/
theorem Routine.invoke_course {rest : Routine H (Report H.Result)}
    (htells : (Routine.invoke e q body).Tells who deeds rest) :
    ∃ answer?, Course who e q body deeds answer? ∧ ∀ report, rest.returned? = some report →
      ∃ answer, answer? = some answer ∧ report.outcome = .ofResult answer := by
  rcases htells.view_bind with ⟨rfl, hnone⟩ | ⟨w, later, rfl, hlater⟩
  · exact ⟨none, .short (by simp) (by simp), by simp [hnone]⟩
  · have hlook : ∀ deed ∈ [Deed.passed who w w], deed.Within Calm := by
      simpa [Deed.Within] using calm.unchanged w
    rcases hlater.bind with ⟨hnone, rest', hrest⟩ | ⟨result, first, second, hfirst, hsecond, rfl⟩
    · exact ⟨none, (invocationResult_course hrest).unanswered.prepend hlook, by simp [hnone]⟩
    · have hcourse := (invocationResult_course hfirst).prepend hlook
      have hcalm : ∀ deed ∈ second, deed.Within Calm := by
        refine Within.of_tells (.bind (.view calm.unchanged _) fun _ => ?_) hsecond
        exact .bind (.view calm.unchanged _) fun _ => .bind (.log calm.logged _) fun _ => .pure _
      obtain ⟨place, -, hends⟩ : ∃ place, anything.Path who () second place ∧
          rest.Follows anything (fun outcome _ => ∀ report : Report H.Result, outcome = .returned report →
            report.outcome = .ofResult result) place := by
        refine Follows.path ?_ hsecond
        refine fun w _ => ⟨(), trivial, fun w _ => ⟨(), trivial, fun w _ => ⟨(), trivial, ?_⟩⟩⟩
        rintro report ⟨⟩
        rfl
      cases hreturned : rest.returned? with
      | none => exact ⟨none, hcourse.append hcalm (by simp), by simp⟩
      | some report =>
          rw [eq_of_returned? hreturned] at hends
          refine ⟨some result, hcourse.append hcalm (by simp [Carries]), fun report' hreport' => ?_⟩
          cases hreport'
          exact ⟨result, rfl, hends report rfl⟩

end Course

end TimedInvocation
