import TimedInvocation.Proofs.Tree.Phases

/-!
# One configuration for a tree

The timeout configuration of a scope tree is made at most once, however many errands on the tree are under
way and whatever user code does meanwhile that leaves the configuration to the library. Whoever asks for it
gets this one, no property is read twice for it, and nobody gets it any more once the store of the root is
closed: requests for it are refused, and no further invocation gets as far as running its body.
-/

namespace TimedInvocation

open Relation World

variable {H : Host} {ι : Type}

/-- How often a property has been read for a configuration, if there is one. -/
def World.readings (w : World H) (c? : Option ConfigurationId) (p : Property) : Nat :=
  match c?.bind fun c => w.configurations[c]? with
  | none => 0
  | some config => (config.knows p).toNat

namespace Tree

variable (T : Tree H)

/-- Whatever does not write or remove the entry for the configuration in the store of the root, unless it
closes this store, nor touch a slot that the entry was found with, nor make or use a configuration for the
source of the tree. -/
structure Bystanding (meter : Meter H T.source) (log : List (Deed H ι)) (w w' : World H) : Prop where
  move : Move w w'
  entry : w'.heap.isClosed T.store = true ∨ T.entrySlot? w' = T.entrySlot? w
  slots : ∀ deed ∈ log, ∀ i, T.Shows i deed → w'.heap.slot i = w.heap.slot i
  configurations : ∀ (c : ConfigurationId) (config : TimeoutConfiguration H.Source),
    config.source = T.source →
    (w'.configurations[c]? = some config ↔ w.configurations[c]? = some config)
  count : ∀ p, meter.count w'.state p = meter.count w.state p

theorem Bystanding.sparing {T : Tree H} {meter : Meter H T.source} {log : List (Deed H ι)}
    {w w' : World H} (hothers : T.Bystanding meter log w w') : T.Sparing log w w' :=
  ⟨hothers.move, hothers.entry, hothers.slots⟩

theorem bystanding_beginClose (meter : Meter H T.source) (log : List (Deed H ι)) (w : World H)
    (s : StoreId) : T.Bystanding meter log w (w.beginClose s).2 := by
  obtain ⟨hmove, hentry, hslots⟩ := T.sparing_beginClose log w s
  refine ⟨hmove, hentry, hslots, fun c config _ => ?_, fun p => ?_⟩
  · rw [beginClose]
    split <;> rfl
  · rw [beginClose]
    split <;> rfl

/-- There is no configuration for the source of the tree but the one that has been made, and no property has
been read more often since a world than it has become known. -/
structure Counted (meter : Meter H T.source) (first : World H) (phase : Phase ι) (w : World H) :
    Prop where
  configures : ∀ c, T.Configures w c ↔ phase.configuration? = some c
  count : ∀ p, meter.count w.state p ≤
    meter.count first.state p + w.readings phase.configuration? p

section Counted

variable {T} {meter : Meter H T.source} {first w w' : World H} {phase phase' : Phase ι} {who : ι}

theorem Counted.idle (hcounted : T.Counted meter first phase w) (hidle : T.Idle meter w w')
    (hsame : phase'.configuration? = phase.configuration?) : T.Counted meter first phase' w' where
  configures c := by
    have hconfigures : T.Configures w' c ↔ T.Configures w c := by
      rw [Configures, Configures, hidle.configurations]
    rw [hsame]
    exact hconfigures.trans (hcounted.configures c)
  count p := by
    rw [hsame, hidle.count p, readings, hidle.configurations]
    exact hcounted.count p

/-- A question is put to the configuration. -/
theorem Counted.consulted (hcounted : T.Counted meter first phase w) {c : ConfigurationId}
    (hconsults : Consults c w w') (hc : phase.configuration? = some c) :
    T.Counted meter first phase w' := by
  obtain ⟨β, default, f, hlearns, rfl⟩ := hconsults
  obtain ⟨config, hconfig, hsource⟩ := (hcounted.configures c).mpr hc
  have hlearnt := hlearns ⟨config, w.state, w.log⟩
  generalize hused : (f ⟨config, w.state, w.log⟩).2 = used at hlearnt
  have hsame : used.config.source = config.source := (Consultation.Learns.constant hlearnt).1
  have hw : (w.consult c default f).2 = { w with
      configurations := w.configurations.set c used.config
      state := used.state
      log := used.log } := by
    simp only [consult, hconfig, ← hused]
  have hlt : c < w.configurations.length := (List.getElem?_eq_some_iff.mp hconfig).1
  rw [hw]
  constructor
  case configures =>
    intro c'
    rw [← hcounted.configures c', Configures, Configures]
    by_cases hc' : c = c'
    · subst hc'
      simp only [hconfig, List.getElem?_set_self hlt, Option.some.injEq, exists_eq_left', hsame]
    · simp only [List.getElem?_set_ne hc']
  case count =>
    intro p
    have hbefore := hcounted.count p
    have hread : meter.count used.state p + (config.knows p).toNat ≤
        meter.count w.state p + (used.config.knows p).toNat :=
      Consultation.Learns.count_le meter.read hlearnt hsource p
    simp only [hc, readings, Option.bind_some, hconfig, List.getElem?_set_self hlt] at hbefore ⊢
    omega

/-- Whoever has marked the slot makes the configuration. -/
theorem Counted.made {i : SlotId} (hcounted : T.Counted meter first (.making i who) w) :
    T.Counted meter first (.made i who w.configurations.length)
      (w.newConfiguration T.source H.debugger).2 where
  configures c := by
    have hnone : ¬ T.Configures w c := fun hc => by
      simpa [Phase.configuration?] using (hcounted.configures c).mp hc
    constructor
    · rintro ⟨config, hconfig, hsource⟩
      rcases Nat.lt_or_ge c w.configurations.length with hold | hnew
      · rw [newConfiguration, List.getElem?_append_left hold] at hconfig
        exact absurd ⟨config, hconfig, hsource⟩ hnone
      · have hlt : c < w.configurations.length + 1 := by
          simpa [newConfiguration] using (List.getElem?_eq_some_iff.mp hconfig).1
        exact congrArg some (Nat.le_antisymm hnew (Nat.le_of_lt_succ hlt))
    · intro hc
      cases hc
      exact ⟨_, List.getElem?_concat_length, rfl⟩
  count p := by
    have hreadings : (w.newConfiguration T.source H.debugger).2.readings
        (some w.configurations.length) p =
        ((TimeoutConfiguration.new H.read H.debugger T.source w.state w.log).config.knows p).toNat := by
      simp only [readings, newConfiguration, Option.bind_some, List.getElem?_concat_length]
    have hnew : meter.count (w.newConfiguration T.source H.debugger).2.state p ≤ _ :=
      TimeoutConfiguration.count_new meter.read (fun state => meter.debugger state) w.state w.log p
    have hbefore : meter.count w.state p ≤ meter.count first.state p := hcounted.count p
    rw [Phase.configuration?, hreadings]
    omega

theorem Counted.advances (hcounted : T.Counted meter first phase w)
    (hadvances : T.Advances meter who w w' phase phase') : T.Counted meter first phase' w' := by
  cases hadvances with
  | idle hidle | asked hidle _ | marked hidle | filled hidle => exact hcounted.idle hidle rfl
  | consulted hconsults hc =>
      exact hcounted.consulted hconsults (hc.elim id fun hc => (hcounted.configures _).mp hc)
  | made hmade =>
      subst hmade
      exact hcounted.made

theorem Counted.others (hcounted : T.Counted meter first phase w) {log : List (Deed H ι)}
    (hothers : T.Bystanding meter log w w') : T.Counted meter first phase w' where
  configures c := by
    rw [← hcounted.configures c]
    constructor
    · rintro ⟨config, hconfig, hsource⟩
      exact ⟨config, (hothers.configurations c config hsource).mp hconfig, hsource⟩
    · rintro ⟨config, hconfig, hsource⟩
      exact ⟨config, (hothers.configurations c config hsource).mpr hconfig, hsource⟩
  count p := by
    rw [hothers.count p]
    refine Nat.le_trans (hcounted.count p) (Nat.le_of_eq (congrArg _ ?_))
    cases hc : phase.configuration? with
    | none => rfl
    | some c =>
        obtain ⟨config, hconfig, hsource⟩ := (hcounted.configures c).mpr hc
        have hsame := (hothers.configurations c config hsource).mpr hconfig
        simp only [readings, Option.bind_some, hconfig, hsame]

end Counted

/-- What holds after the store of the root was closed; before that the members have done one thing, after
that another. -/
structure Shut (errands : ι → Errand H) (earlier : List (Deed H ι)) (scene : Scene H fun _ : ι => Place)
    (later : List (Deed H ι)) : Prop where
  log : scene.log = later ++ earlier
  closed : scene.world.heap.isClosed T.store = true
  denied : ∀ j s, errands j = .configuration s → (∃ deed ∈ later, deed.who = j) →
    ∀ c, scene.places j ≠ .holding c
  outside : ∀ j, (∀ deed ∈ earlier, deed.who ≠ j) →
    scene.places j = .outside ∨ scene.places j = .refused
  bodiless : ∀ j, (∀ deed ∈ earlier, deed.who ≠ j) → ∀ deed ∈ later, deed.who = j →
    ¬ deed.StartsBody

section Shut

variable {T} {meter : Meter H T.source} {errand : Errand H} {a b : Place} {w w' : World H}

theorem trace_of_consults {c : ConfigurationId} (hconsults : Consults c w w') : w'.trace = w.trace := by
  obtain ⟨β, default, f, -, rfl⟩ := hconsults
  simp only [consult]
  split <;> rfl

/-- No section on the way to the configuration begins to run a body. -/
theorem Obtains.trace_eq {s : ScopeId} (hobtains : T.Obtains s a w w' b) (hcourse : b ≠ .astray) :
    w'.trace = w.trace := by
  cases hobtains with
  | strayed hodd => exact absurd rfl hcourse
  | _ => rfl

/-- Nobody gets the slot or the configuration from a closed store. -/
theorem Obtains.of_closed {s : ScopeId} (hobtains : T.Obtains s a w w' b) (hcourse : b ≠ .astray)
    (hclosed : w.heap.isClosed T.store = true) :
    (∀ c, b ≠ .holding c) ∧ (a = .outside ∨ a = .refused → b = .outside ∨ b = .refused) := by
  cases hobtains with
  | strayed hodd => exact absurd rfl hcourse
  | given hgiven =>
      cases hgiven with
      | present hopen hslot =>
          rw [hopen] at hclosed
          cases hclosed
      | made hopen hslot hnone =>
          rw [hopen] at hclosed
          cases hclosed
  | obtained hopen hv =>
      rw [hopen] at hclosed
      cases hclosed
  | looked | refused | found | marked | made | filled | overtaken | spared => simp

/-- A section of somebody on an errand, after the store of the root was closed. -/
theorem passes_of_closed (hsection : (T.rule meter errand).passes a w w' b) (hcourse : b ≠ .astray)
    (hclosed : w.heap.isClosed T.store = true) :
    ((∃ s, errand = .configuration s) → ∀ c, b ≠ .holding c) ∧
      (a = .outside ∨ a = .refused →
        (b = .outside ∨ b = .refused) ∧ ¬ w.StartsBody w') := by
  cases errand with
  | configuration s =>
      have hobtains : T.Obtains s a w w' b := hsection
      obtain ⟨hdenied, houtside⟩ := hobtains.of_closed hcourse hclosed
      exact ⟨fun _ => hdenied, fun ha =>
        ⟨houtside ha, not_startsBody_of_trace (hobtains.trace_eq hcourse)⟩⟩
  | invocation e q body =>
      refine ⟨by simp, fun ha => ?_⟩
      have hinvokes : T.Invokes meter q.scope a w w' b := hsection
      cases hinvokes with
      | obtains hobtains =>
          exact ⟨(hobtains.of_closed hcourse hclosed).2 ha,
            not_startsBody_of_trace (hobtains.trace_eq hcourse)⟩
      | apart haside hbody => exact ⟨ha, hbody⟩
      | ran haside => simp at ha
      | asked hconsults => simp at ha
  | consultation c inquiry =>
      obtain ⟨rfl, hconsults⟩ := hsection
      exact ⟨by simp, fun ha => ⟨ha, not_startsBody_of_trace (trace_of_consults hconsults)⟩⟩

variable {first : World H} {phase phase' : Phase ι} {scene scene' : Scene H fun _ : ι => Place}
  {errands : ι → Errand H} {earlier later : List (Deed H ι)} [DecidableEq ι]

/-- The store of the root remains closed, and nobody gets the configuration any more. -/
theorem Shut.step (hshut : T.Shut errands earlier scene later)
    (hstanding : T.Standing phase scene) (hstanding' : T.Standing phase' scene')
    (hstep : scene.Step (fun j => T.movingRule meter (errands j)) (T.Bystanding meter) scene') :
    ∃ later', T.Shut errands earlier scene' later' := by
  cases hstep with
  | @passed j w place hpasses =>
      obtain ⟨hmove, hsection⟩ := hpasses
      have hcourse : place ≠ .astray := by
        have hplace := hstanding'.places j
        simp only [Function.update_self] at hplace
        rintro rfl
        exact hplace
      obtain ⟨hdenied, houtside⟩ := passes_of_closed hsection hcourse hshut.closed
      refine ⟨.passed j scene.world w :: later, congrArg _ hshut.log, ?_, ?_, ?_, ?_⟩
      · exact closed_of_move hmove hstanding.onTop hshut.closed
      · intro j' s herrand hdeed c
        by_cases hj : j' = j
        · subst hj
          simp only [Function.update_self]
          exact hdenied ⟨s, herrand⟩ c
        · simp only [Function.update_of_ne hj]
          obtain ⟨deed, hmem, hwho⟩ := hdeed
          rcases List.mem_cons.mp hmem with rfl | hold
          · exact absurd hwho.symm hj
          · exact hshut.denied j' s herrand ⟨deed, hold, hwho⟩ c
      · intro j' hunbegun
        by_cases hj : j' = j
        · subst hj
          simp only [Function.update_self]
          exact (houtside (hshut.outside j' hunbegun)).1
        · simp only [Function.update_of_ne hj]
          exact hshut.outside j' hunbegun
      · intro j' hunbegun deed hmem hwho
        rcases List.mem_cons.mp hmem with rfl | hold
        · obtain rfl : j = j' := hwho
          exact (houtside (hshut.outside j hunbegun)).2
        · exact hshut.bodiless j' hunbegun deed hold hwho
  | @called j r program outcome place hresumes =>
      obtain ⟨rfl, hnone⟩ := hstanding.of_resumes hresumes
      refine ⟨.called j program outcome :: later, congrArg _ hshut.log, hshut.closed, ?_, ?_, ?_⟩
      · intro j' s herrand hdeed
        rw [Function.update_eq_self]
        obtain ⟨deed, hmem, hwho⟩ := hdeed
        rcases List.mem_cons.mp hmem with rfl | hold
        · obtain rfl : j = j' := hwho
          exact absurd herrand (hnone s)
        · exact hshut.denied j' s herrand ⟨deed, hold, hwho⟩
      · rw [Function.update_eq_self]
        exact hshut.outside
      · intro j' hunbegun deed hmem hwho
        rcases List.mem_cons.mp hmem with rfl | hold
        · exact id
        · exact hshut.bodiless j' hunbegun deed hold hwho
  | others hothers =>
      exact ⟨later, hshut.log, closed_of_move hothers.move hstanding.onTop hshut.closed, hshut.denied,
        hshut.outside, hshut.bodiless⟩

/-- Somebody finds the store of the root closed only if it is. -/
theorem Obtains.barred {s : ScopeId} (hobtains : T.Obtains s a w w' b) (hbarred : b.Barred) :
    a.Barred ∨ w'.heap.isClosed T.store = true := by
  cases hobtains with
  | refused hclosed | overtaken hclosed => exact .inr hclosed
  | spared hnone => exact .inl trivial
  | looked | given | found | marked | made | filled | obtained | strayed => exact hbarred.elim

/-- Whoever has found the store of the root closed has done so for good. -/
theorem Standing.barred_step (hstanding : T.Standing phase scene)
    (hbarred : ∀ j, (scene.places j).Barred → scene.world.heap.isClosed T.store = true)
    (hstep : scene.Step (fun j => T.movingRule meter (errands j)) (T.Bystanding meter) scene') :
    ∀ j, (scene'.places j).Barred → scene'.world.heap.isClosed T.store = true := by
  cases hstep with
  | @passed j w place hpasses =>
      obtain ⟨hmove, hsection⟩ := hpasses
      have hstill (hclosed : scene.world.heap.isClosed T.store = true) :
          w.heap.isClosed T.store = true :=
        closed_of_move hmove hstanding.onTop hclosed
      have hpassed (hplace : place.Barred) :
          (scene.places j).Barred ∨ w.heap.isClosed T.store = true := by
        cases herrand : errands j with
        | configuration s =>
            rw [herrand] at hsection
            have hobtains : T.Obtains s (scene.places j) scene.world w place := hsection
            exact hobtains.barred hplace
        | invocation e q body =>
            rw [herrand] at hsection
            have hinvokes : T.Invokes meter q.scope (scene.places j) scene.world w place := hsection
            generalize scene.places j = before at hinvokes
            cases hinvokes with
            | obtains hobtains => exact hobtains.barred hplace
            | apart | ran | asked => exact .inl hplace
        | consultation c inquiry =>
            rw [herrand] at hsection
            rw [← hsection.1]
            exact .inl hplace
      intro j' hplace
      by_cases hj : j' = j
      · subst hj
        simp only [Function.update_self] at hplace
        exact (hpassed hplace).elim (fun hbefore => hstill (hbarred j' hbefore)) id
      · simp only [Function.update_of_ne hj] at hplace
        exact hstill (hbarred j' hplace)
  | @called j r program outcome place hresumes =>
      obtain ⟨rfl, -⟩ := hstanding.of_resumes hresumes
      rw [Function.update_eq_self]
      exact hbarred
  | others hothers =>
      exact fun j hplace => closed_of_move hothers.move hstanding.onTop (hbarred j hplace)

end Shut

/-- Whoever asks for the configuration when the store of the root is closed is refused at once. -/
theorem advance_configurationOf_of_closed {T : Tree H} {w : World H} {s : ScopeId} (hplanted : T.Planted w)
    (hhas : T.Has w s) (hclosed : w.heap.isClosed T.store = true) (runner : Runner H) :
    ((Routine.configurationOf s).play @runner).advance w =
      (.ended (.returned (.error (.closed configurationKey))), w) := by
  have htop : w.scope? T.root = some T.top := hplanted
  have hroot : w.rootOf s = T.root := hhas
  have hreserve : w.heap.reserve T.top.store configurationKey = (.refused, w.heap) :=
    if_pos hclosed
  simp only [Routine.configurationOf, Routine.compute, Routine.view, Routine.update, bind, pure,
    Routine.andThen, Routine.play, Act.advance, Pause.isOver, Pause.none, Bool.true_or, ↓reduceIte, id,
    hroot, htop, World.reserve, hreserve]

/-- What becomes of the errands on a tree: what holds in the last world, and what a world on the way tells
about it. -/
structure OneConfiguration (meter : Meter H T.source) (errands : ι → Errand H) (first : World H)
    (middle last : Ensemble H fun j => (errands j).Answer) : Prop where
  /-- A request for the configuration that has ended has got one for the source of the tree, or has been
  refused, which the store of the root does only when it is closed. -/
  answers : ∀ j outcome, (errands j).requested (last.members j) = some outcome →
    (∃ c, outcome = .returned (.ok c) ∧ T.Configures last.world c) ∨
      (outcome = .returned (.error (.closed configurationKey)) ∧
        last.world.heap.isClosed T.store = true)
  /-- Whoever has got a configuration has got the same. -/
  same : ∀ j j' c c', (errands j).requested (last.members j) = some (.returned (.ok c)) →
    (errands j').requested (last.members j') = some (.returned (.ok c')) → c = c'
  /-- No property has been read twice. -/
  once : ∀ p, meter.count last.world.state p ≤ meter.count first.state p + 1
  /-- A request that had not ended when the store of the root was closed is refused. -/
  refused : middle.world.heap.isClosed T.store = true → ∀ j outcome,
    (errands j).requested (middle.members j) = none →
    (errands j).requested (last.members j) = some outcome →
      outcome = .returned (.error (.closed configurationKey))
  /-- A further request is refused at once, without having to wait. -/
  refusedAtOnce : last.world.heap.isClosed T.store = true → ∀ s, T.Has last.world s →
    ∀ runner : Runner H, ((Routine.configurationOf s).play @runner).advance last.world =
      (.ended (.returned (.error (.closed configurationKey))), last.world)
  /-- Whatever had not begun when the store of the root was closed does not begin to run a body. -/
  bodiless : middle.world.heap.isClosed T.store = true → ∀ j, (∀ deed ∈ middle.log, deed.who ≠ j) →
    ∀ deed ∈ last.log, deed.who = j → ¬ deed.StartsBody

section Runs

variable {T} {meter : Meter H T.source} {first : World H} {scene scene' : Scene H fun _ : ι => Place}
  {errands : ι → Errand H}

/-- What holds in every scene. -/
structure Orderly (meter : Meter H T.source) (first : World H) (scene : Scene H fun _ : ι => Place) :
    Prop where
  standing : ∃ phase, T.Standing phase scene ∧ T.Counted meter first phase scene.world
  barred : ∀ j, (scene.places j).Barred → scene.world.heap.isClosed T.store = true

theorem Orderly.start (hfirst : first.Reachable) (hplanted : T.Planted first)
    (hunasked : T.entrySlot? first = none) (hnone : ∀ c, ¬ T.Configures first c) :
    Orderly meter first ⟨first, fun _ : ι => .outside, []⟩ where
  standing := by
    refine ⟨.unasked, .start hfirst hplanted hunasked, fun c => ?_, fun _ => Nat.le_refl _⟩
    simp [Phase.configuration?, hnone]
  barred _ := False.elim

/-- A request that has ended has got the configuration that is kept, or has been refused. -/
theorem Standing.of_requested {phase : Phase ι} {e : Ensemble H fun j => (errands j).Answer}
    (hstanding : T.Standing phase scene)
    (hat : e.At (fun j => T.movingRule meter (errands j)) (fun j => final (errands j)) scene) {j : ι}
    {outcome : Outcome (Except StoreError ConfigurationId)}
    (hrequested : (errands j).requested (e.members j) = some outcome) :
    (∃ i c, phase = .kept i c ∧ outcome = .returned (.ok c) ∧ scene.places j = .holding c) ∨
      (outcome = .returned (.error (.closed configurationKey)) ∧ scene.places j = .refused) := by
  have hadmits := hstanding.places j
  obtain ⟨-, ⟨c, hgot, hplace⟩ | hrefused | hastray⟩ :=
    T.obtained_of_requested meter hrequested (hat.members j)
  · rw [hplace] at hadmits
    obtain ⟨i, hkept⟩ := hadmits
    exact .inl ⟨i, c, hkept, hgot, hplace⟩
  · exact .inr hrefused
  · rw [hastray] at hadmits
    exact hadmits.elim

/-- The moment from which on the store of the root is closed. -/
theorem Standing.shut {phase : Phase ι} (hstanding : T.Standing phase scene)
    (hclosed : scene.world.heap.isClosed T.store = true) : T.Shut errands scene.log scene [] where
  log := rfl
  closed := hclosed
  denied := by simp
  outside j hunbegun := .inl (hstanding.unbegun j hunbegun)
  bodiless := by simp

variable [DecidableEq ι]

theorem Orderly.steps (horderly : Orderly meter first scene)
    (hsteps : ReflTransGen (Scene.Step (fun j => T.movingRule meter (errands j)) (T.Bystanding meter))
      scene scene')
    (hfits : ∀ j before after, .passed j before after ∈ scene'.log → T.Fits before (errands j)) :
    Orderly meter first scene' := by
  induction hsteps with
  | refl => exact horderly
  | tail _ hstep ih =>
      have hearlier := ih fun j before after hdeed =>
        hfits j before after (Scene.mem_log_of_steps (.single hstep) hdeed)
      obtain ⟨phase, hstanding, hcounted⟩ := hearlier.standing
      refine ⟨?_, hstanding.barred_step hearlier.barred hstep⟩
      obtain ⟨phase', hstanding', -, ⟨who, hadvances, -⟩ | ⟨rfl, hothers⟩⟩ :=
        hstanding.step (fun _ _ _ hothers => hothers.sparing) hfits hstep
      · exact ⟨phase', hstanding', hcounted.advances hadvances⟩
      · exact ⟨_, hstanding', hcounted.others hothers⟩

/-- After the store of the root was closed. -/
theorem Orderly.shut_of_steps {earlier : List (Deed H ι)} (horderly : Orderly meter first scene)
    (hshut : T.Shut errands earlier scene [])
    (hsteps : ReflTransGen (Scene.Step (fun j => T.movingRule meter (errands j)) (T.Bystanding meter))
      scene scene')
    (hfits : ∀ j before after, .passed j before after ∈ scene'.log → T.Fits before (errands j)) :
    ∃ later, T.Shut errands earlier scene' later := by
  induction hsteps with
  | refl => exact ⟨[], hshut⟩
  | tail hbefore hstep ih =>
      have hfits' := fun j before after hdeed =>
        hfits j before after (Scene.mem_log_of_steps (.single hstep) hdeed)
      obtain ⟨later, hshut'⟩ := ih hfits'
      obtain ⟨phase, hstanding, -⟩ := (horderly.steps hbefore hfits').standing
      obtain ⟨phase', hstanding', -⟩ := hstanding.step (fun _ _ _ hothers => hothers.sparing) hfits hstep
      exact hshut'.step hstanding hstanding' hstep

/-- Somebody who had not asked for the configuration, or waited for it, has done something since. -/
theorem acted_of_requested {e e' : Ensemble H fun j => (errands j).Answer} {later : List (Deed H ι)}
    {outcome : Outcome (Except StoreError ConfigurationId)} {j : ι}
    (hrun : e.Run (T.Bystanding meter) e') (hlog : e'.log = later ++ e.log)
    (hbefore : (errands j).requested (e.members j) = none)
    (hafter : (errands j).requested (e'.members j) = some outcome) : ∃ deed ∈ later, deed.who = j := by
  obtain ⟨later', hlog', hmembers⟩ := Ensemble.log_of_run hrun
  obtain rfl : later' = later := List.append_cancel_right (hlog'.symm.trans hlog)
  rcases hmembers j with hdeed | hstill | ⟨r, program, next, haway⟩
  · exact hdeed
  · rw [hstill, hbefore] at hafter
    cases hafter
  · rw [haway, Errand.requested_away] at hafter
    cases hafter

/-- Any number of errands on a scope tree, in any interleaving of their sections, with anything done by user
code meanwhile that leaves the configuration of the tree to the library: nobody has asked for it in the
beginning, and from then on there is only one. It does not matter what the stores of the other scopes hold
for the key of the configuration, nor what becomes of them. -/
theorem one_configuration_for_all {middle last : Ensemble H fun j => (errands j).Answer}
    (hfirst : first.Reachable) (hplanted : T.Planted first) (hunasked : T.entrySlot? first = none)
    (hnone : ∀ c, ¬ T.Configures first c)
    (hbefore : (Ensemble.start (fun j => (errands j).routine) first).Run (T.Bystanding meter) middle)
    (hafter : middle.Run (T.Bystanding meter) last)
    (hfits : ∀ j before after, .passed j before after ∈ last.log → T.Fits before (errands j)) :
    T.OneConfiguration meter errands first middle last := by
  have hstart : (Ensemble.start (fun j => (errands j).routine) first).At
      (fun j => T.movingRule meter (errands j)) (fun j => final (errands j))
      ⟨first, fun _ => .outside, []⟩ :=
    .start (fun j => T.follows_routine meter (errands j)) first
  obtain ⟨⟨w, places, log⟩, hmiddle, hsteps⟩ := hstart.run hbefore
  obtain ⟨⟨w', places', log'⟩, hlast, hsteps'⟩ := hmiddle.run hafter
  obtain rfl : w = middle.world := hmiddle.world
  obtain rfl : log = middle.log := hmiddle.log
  obtain rfl : w' = last.world := hlast.world
  obtain rfl : log' = last.log := hlast.log
  -- What holds all the time, up to the world on the way and up to the last one.
  have horderly : Orderly meter first ⟨middle.world, places, middle.log⟩ :=
    (Orderly.start hfirst hplanted hunasked hnone).steps hsteps fun j before after hdeed =>
      hfits j before after (Scene.mem_log_of_steps hsteps' hdeed)
  obtain ⟨⟨phase, hstanding, hcounted⟩, hbarred⟩ := horderly.steps hsteps' hfits
  have hshut (hclosed : middle.world.heap.isClosed T.store = true) :
      ∃ later, T.Shut errands middle.log ⟨last.world, places', last.log⟩ later := by
    obtain ⟨phase, hstanding, -⟩ := horderly.standing
    exact horderly.shut_of_steps (hstanding.shut hclosed) hsteps' hfits
  constructor
  case answers =>
    intro j outcome hrequested
    rcases hstanding.of_requested hlast hrequested with ⟨i, c, rfl, rfl, -⟩ | ⟨rfl, hplace⟩
    · exact .inl ⟨c, rfl, (hcounted.configures c).mpr rfl⟩
    · exact .inr ⟨rfl, hbarred j (by rw [hplace]; trivial)⟩
  case same =>
    intro j j' c c' hc hc'
    rcases hstanding.of_requested hlast hc with ⟨i, _, rfl, ⟨⟩, -⟩ | ⟨hrefused, -⟩
    · rcases hstanding.of_requested hlast hc' with ⟨i', _, ⟨⟩, ⟨⟩, -⟩ | ⟨hrefused, -⟩
      · rfl
      · cases hrefused
    · cases hrefused
  case once =>
    intro p
    have hreadings : last.world.readings phase.configuration? p ≤ 1 := by
      rw [readings]
      split
      · exact Nat.zero_le _
      · exact Bool.toNat_le _
    exact Nat.le_trans (hcounted.count p) (Nat.add_le_add_left hreadings _)
  case refused =>
    intro hclosed j outcome hunended hrequested
    obtain ⟨later, hshut⟩ := hshut hclosed
    obtain ⟨⟨s, herrand⟩, -⟩ := T.obtained_of_requested meter hrequested (hlast.members j)
    have hdeed := acted_of_requested hafter hshut.log hunended hrequested
    rcases hstanding.of_requested hlast hrequested with ⟨i, c, -, -, hplace⟩ | ⟨hrefused, -⟩
    · exact absurd hplace (hshut.denied j s herrand hdeed c)
    · exact hrefused
  case refusedAtOnce =>
    exact fun hclosed s hhas runner =>
      advance_configurationOf_of_closed hstanding.planted hhas hclosed @runner
  case bodiless =>
    intro hclosed j hunbegun deed hdeed hwho
    obtain ⟨later, hshut⟩ := hshut hclosed
    have hlog : last.log = later ++ middle.log := hshut.log
    rw [hlog] at hdeed
    rcases List.mem_append.mp hdeed with hlater | hearlier
    · exact hshut.bodiless j hunbegun deed hlater hwho
    · exact absurd hwho (hunbegun deed hearlier)

end Runs

end Tree

/-- Its sources have no values, but every name that they are asked for is noted. -/
def Host.noting : Host where
  State := List String
  Result := Unit
  Source := Unit
  read _ name names := (none, name :: names)
  debugger names := (false, names)
  spawn names := (none, names)

namespace Tree

/-- A tree with the first scope for its root. -/
def sapling : Tree Host.noting where
  root := 0
  top := ⟨"suite", "suite", [], 0, 0, ()⟩
  isRoot := rfl

/-- How often each name has been noted. -/
def notes : Meter Host.noting sapling.source where
  count names p := List.count p.name names
  read p names q := by
    have hnoted (names : List String) :
        (p.name :: names).count q.name = names.count q.name + if q = p then 1 else 0 := by
      simp only [List.count_cons, beq_iff_eq, Property.name_inj, @eq_comm Property p q]
    exact Nat.le_of_eq (hnoted names)
  debugger _ := rfl
  spawn _ := rfl

/-- The root with a child, in whose store there is a value for the key of the configuration. -/
def sprout : World Host.noting :=
  let w := ((World.initial []).newScope (.root "suite" ()) none []).2
  let (stop, w) := (w.newScope (.child 0 "test") none []).2.newToken
  ((w.newEnforcer stop false).2.put 1 configurationKey .unit none).2

namespace Sprout

/-- Both scopes are asked for the configuration, and tests are run in the child. -/
def errands : Fin 5 → Errand Host.noting
  | 0 | 3 => .configuration 1
  | 1 => .configuration 0
  | 2 | 4 => .invocation 0 ⟨1, .test, .method "Type" "method" [], none, none, none⟩
      fun _ _ => .finish (.ok ())

/-- One asks for the configuration while another one makes it, and a test is run. Somebody else has the
value then, but has not looked whether the store of the root has been closed. -/
def turnsBefore : List (Fin 5) :=
  List.replicate 4 0 ++ List.replicate 4 1 ++ List.replicate 3 0 ++ List.replicate 2 1 ++
    List.replicate 21 2 ++ List.replicate 4 3

def turnsAfter : List (Fin 5) :=
  List.replicate 4 3 ++ List.replicate 21 4

/-- The store of the root has been closed after the turns before that. -/
def middle : Ensemble Host.noting fun j => (errands j).Answer :=
  let e := turnsBefore.foldl Ensemble.turn (.start (fun j => (errands j).routine) sprout)
  { e with world := (e.world.beginClose sapling.store).2 }

def last : Ensemble Host.noting fun j => (errands j).Answer :=
  turnsAfter.foldl Ensemble.turn middle

end Sprout

open Sprout in
theorem one_configuration_for_all_sprout :
    (Ensemble.start (fun j => (errands j).routine) sprout).Run (sapling.Bystanding notes) middle ∧
      middle.Run (sapling.Bystanding notes) last ∧
      middle.world.heap.isClosed sapling.store = true ∧
      (errands 0).requested (last.members 0) = some (.returned (.ok 0)) ∧
      (errands 1).requested (last.members 1) = some (.returned (.ok 0)) ∧
      (errands 3).requested (last.members 3) =
        some (.returned (.error (.closed configurationKey))) ∧
      sapling.OneConfiguration notes errands sprout middle last := by
  have hfirst : sprout.Reachable :=
    ⟨[], .tail (.tail (.tail (.tail (.single (.plain (.scopeMade _ _ _ _)))
      (.plain (.scopeMade _ _ _ _))) (.plain (.tokenMade _))) (.plain (.enforcerMade _ _ _)))
      (.plain (.put _ 1 configurationKey .unit none))⟩
  have hnone : ∀ c, ¬ sapling.Configures sprout c := by
    rintro c ⟨config, hconfig, -⟩
    cases hconfig
  have hbefore : (Ensemble.start (fun j => (errands j).routine) sprout).Run (sapling.Bystanding notes)
      middle :=
    .tail (Ensemble.run_foldl_turn _ _ turnsBefore)
      (.others (sapling.bystanding_beginClose notes _ _ sapling.store))
  have hafter : middle.Run (sapling.Bystanding notes) last :=
    Ensemble.run_foldl_turn _ middle turnsAfter
  have hfits : ∀ j w w', .passed j w w' ∈ last.log → sapling.Fits w (errands j) := by
    intro j w w' hdeed
    have hmore : Meanwhile sprout w :=
      Ensemble.meanwhile_of_run (fun j => (composed_routine (errands j)).moves)
        (fun _ _ _ hothers => hothers.move) (hbefore.trans hafter) j w w' hdeed
    have hscope {s : ScopeId} {scope : Scope Unit} (hs : sprout.scope? s = some scope) :
        sapling.Planted w ∧ w.rootOf s = sprout.rootOf s := by
      refine ⟨scope?_eq_of_grows hmore.grows rfl, ?_⟩
      rw [rootOf, scope?_eq_of_grows hmore.grows hs, rootOf, hs]
    match j with
    | 0 | 1 | 2 | 3 | 4 => exact hscope rfl
  refine ⟨hbefore, hafter, by decide +kernel, rfl, rfl, rfl, ?_⟩
  exact one_configuration_for_all hfirst rfl (by decide) hnone hbefore hafter hfits

end Tree

end TimedInvocation
