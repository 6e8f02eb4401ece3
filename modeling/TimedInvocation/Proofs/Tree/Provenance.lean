import TimedInvocation.Proofs.Story
import TimedInvocation.Proofs.Tree.Phases

/-!
# Where a configuration comes from

Whoever has obtained the configuration of a scope tree has got the one that is kept in the slot of the
entry for it, and so has everybody else. It is for the source of the tree, it is disabled or not as the
values of this source say, and it keeps only what they say, now and later, as long as nobody does anything
to it but ask it.
-/

namespace TimedInvocation

open Relation World

variable {H : Host} {ι : Type}

/-- The timeout of an invocation: none if timeouts are disabled, else the one of the policy. -/
def Assignment.effective (values : Assignment) (disabled : Bool) (kind : Kind)
    (declared : Option DeclaredTimeout) : Option EffectiveTimeout :=
  if disabled then none else values.resolve kind declared

namespace Tree

variable (T : Tree H)

/-- The configurations for the source of the tree remain, and keep what the values of an assignment say. -/
def Lasting (values : Assignment) (w w' : World H) : Prop :=
  ∀ (c : ConfigurationId) (config : TimeoutConfiguration H.Source), w.configurations[c]? = some config →
    config.source = T.source →
    ∃ config', w'.configurations[c]? = some config' ∧ config.Remains values config'

/-- Whatever leaves alone the entry for the configuration in the store of the root, and does nothing to the
configurations for the source of the tree but ask them. -/
structure Considerate (values : Assignment) (log : List (Deed H ι)) (w w' : World H) : Prop
    extends T.Sparing log w w' where
  configurations : T.Lasting values w w'

/-- A configuration is for the source of the tree and keeps what the values of an assignment say. -/
structure Backed (values : Assignment) (w : World H) (c : ConfigurationId)
    (config : TimeoutConfiguration H.Source) : Prop where
  configured : w.configurations[c]? = some config
  source : config.source = T.source
  backs : values.Backs config

/-- Somebody has made a configuration for the source of the tree in a world. -/
def Makes (w : World H) : Deed H ι → Prop
  | .passed _ before after => before = w ∧ after = (w.newConfiguration T.source H.debugger).2
  | .called _ _ _ => False

/-- What is still true of a world that has passed. -/
structure Past (values : Assignment) (phase : Phase ι) (w now : World H) : Prop where
  configurations : T.Lasting values w now
  slots : w.heap.slots.length ≤ now.heap.slots.length
  kept : ∀ i v c, phase.slot? = some i → (w.heap.slot i).value? = some v →
    v.datum = .configuration c → phase = .kept i c

/-- What holds all the time if the source of the tree gives the values of an assignment. -/
structure Upheld (values : Assignment) (phase : Phase ι) (scene : Scene H fun _ : ι => Place) :
    Prop where
  standing : T.Standing phase scene
  backed : ∀ c, phase.configuration? = some c → ∃ config, T.Backed values scene.world c config
  origin : ∀ c, phase.configuration? = some c →
    ∃ w, w.configurations.length = c ∧ ∃ deed ∈ scene.log, T.Makes w deed
  past : ∀ j before after, .passed j before after ∈ scene.log →
    T.Past values phase after scene.world

section Upheld

variable {T} {meter : Meter H T.source} {values : Assignment} {w w' w'' : World H} {who : ι}
  {phase phase' : Phase ι} {scene scene' last : Scene H fun _ : ι => Place}

theorem Lasting.refl (w : World H) : T.Lasting values w w :=
  fun _ config hconfig _ => ⟨config, hconfig, .refl config⟩

theorem Lasting.trans (hfirst : T.Lasting values w w') (hsecond : T.Lasting values w' w'') :
    T.Lasting values w w'' := by
  intro c config hconfig hsource
  obtain ⟨config', hconfig', hremains⟩ := hfirst c config hconfig hsource
  obtain ⟨config'', hconfig'', hremains'⟩ := hsecond c config' hconfig' (hremains.source.trans hsource)
  exact ⟨config'', hconfig'', hremains.trans hremains'⟩

theorem Backed.of_lasting {c : ConfigurationId} {config : TimeoutConfiguration H.Source}
    (hbacked : T.Backed values w c config) (hlasting : T.Lasting values w w') :
    ∃ config', T.Backed values w' c config' ∧ config'.disabled = config.disabled := by
  obtain ⟨config', hconfig', hremains⟩ := hlasting c config hbacked.configured hbacked.source
  exact ⟨config', ⟨hconfig', hremains.source.trans hbacked.source, hremains.backs hbacked.backs⟩,
    hremains.disabled⟩

theorem Idle.lasting (hidle : T.Idle meter w w') : T.Lasting values w w' := by
  intro c config hconfig _
  exact ⟨config, hidle.configurations ▸ hconfig, .refl config⟩

section Advances

variable (hgiven : values.GivenBy H.read T.source)

include hgiven

theorem lasting_of_consults {c : ConfigurationId} (hconsults : Consults c w w') :
    T.Lasting values w w' := by
  obtain ⟨β, default, f, hlearns, rfl⟩ := hconsults
  intro c' config' hconfig' hsource'
  rw [consult]
  cases hconfig : w.configurations[c]? with
  | none => exact ⟨config', hconfig', .refl config'⟩
  | some config =>
      by_cases hc : c = c'
      · subst hc
        obtain rfl := Option.some.inj (hconfig.symm.trans hconfig')
        have hlt : c < w.configurations.length := (List.getElem?_eq_some_iff.mp hconfig).1
        have hremains := Consultation.Learns.remains (hsource'.symm ▸ hgiven)
          (hlearns ⟨config, w.state, w.log⟩)
        exact ⟨_, List.getElem?_set_self hlt, hremains⟩
      · exact ⟨config', (List.getElem?_set_ne hc).trans hconfig', .refl config'⟩

theorem Advances.lasting (hadvances : T.Advances meter who w w' phase phase') :
    T.Lasting values w w' := by
  cases hadvances with
  | idle hidle | asked hidle _ | marked hidle | filled hidle => exact hidle.lasting
  | consulted hconsults _ => exact lasting_of_consults hgiven hconsults
  | made hmade =>
      intro c config hconfig _
      subst hmade
      have hlt : c < w.configurations.length := (List.getElem?_eq_some_iff.mp hconfig).1
      exact ⟨config, (List.getElem?_append_left hlt).trans hconfig, .refl config⟩

/-- The configuration that is made does as the values say, and so does the one that has been made. -/
theorem Advances.backed (hadvances : T.Advances meter who w w' phase phase')
    (hbacked : ∀ c, phase.configuration? = some c → ∃ config, T.Backed values w c config)
    {c : ConfigurationId} (hc : phase'.configuration? = some c) :
    ∃ config, T.Backed values w' c config := by
  have hstill (hc : phase.configuration? = some c) : ∃ config, T.Backed values w' c config := by
    obtain ⟨config, hconfig⟩ := hbacked c hc
    obtain ⟨config', hconfig', -⟩ := hconfig.of_lasting (hadvances.lasting hgiven)
    exact ⟨config', hconfig'⟩
  cases hadvances with
  | idle | consulted | filled => exact hstill hc
  | asked | marked => cases hc
  | made hmade =>
      cases hc
      subst hmade
      exact ⟨_, List.getElem?_concat_length, rfl, TimeoutConfiguration.new_backs w.state w.log⟩

end Advances

/-- Whoever takes the configuration further to one that has been made makes it. -/
theorem Advances.makes (hadvances : T.Advances meter who w w' phase phase') {c : ConfigurationId}
    (hc : phase'.configuration? = some c) :
    phase.configuration? = some c ∨
      w.configurations.length = c ∧ T.Makes w (.passed who w w') ∧ phase' ≠ phase := by
  cases hadvances with
  | idle | consulted | filled => exact .inl hc
  | asked | marked => cases hc
  | made hmade =>
      cases hc
      exact .inr ⟨rfl, ⟨rfl, hmade⟩, by simp⟩

theorem Past.of_standing (hstanding : T.Standing phase scene) :
    T.Past values phase scene.world scene.world where
  configurations := .refl _
  slots := Nat.le_refl _
  kept i v c hi hvalue hv := by
    obtain ⟨c', hkept, hv'⟩ := hstanding.fills.of_value hi hvalue
    obtain rfl := Datum.configuration.inj (hv.symm.trans hv')
    exact hkept

theorem Past.later {now now' : World H} (hpast : T.Past values phase w now) (hmove : Move now now')
    (hlasting : T.Lasting values now now') : T.Past values phase w now' :=
  ⟨hpast.configurations.trans hlasting, Nat.le_trans hpast.slots hmove.extends.slots, hpast.kept⟩

/-- A slot that has just been made had no value in the past. -/
theorem Past.advances {now now' : World H} (hpast : T.Past values phase w now)
    (hadvances : T.Advances meter who now now' phase phase') (hmove : Move now now')
    (hlasting : T.Lasting values now now') : T.Past values phase' w now' := by
  obtain ⟨hconfigurations, hslots, hkept⟩ := hpast.later hmove hlasting
  refine ⟨hconfigurations, hslots, fun i v c hi hvalue hv => ?_⟩
  cases hadvances with
  | idle | consulted => exact hkept i v c hi hvalue hv
  | marked | made | filled =>
      have hbefore := hkept i v c hi hvalue hv
      cases hbefore
  | asked =>
      cases hi
      rw [Heap.slot, List.getElem?_eq_none hpast.slots] at hvalue
      cases hvalue

theorem Upheld.start (hreachable : w.Reachable) (hplanted : T.Planted w) (hunasked : T.entrySlot? w = none) :
    T.Upheld values .unasked ⟨w, fun _ : ι => .outside, []⟩ where
  standing := .start hreachable hplanted hunasked
  backed _ hc := by cases hc
  origin _ hc := by cases hc
  past _ _ _ hdeed := absurd hdeed List.not_mem_nil

section Steps

variable [DecidableEq ι] {errands : ι → Errand H} (hgiven : values.GivenBy H.read T.source)

include hgiven

theorem Upheld.step (hupheld : T.Upheld values phase scene)
    (hfits : ∀ j before after, .passed j before after ∈ scene'.log → T.Fits before (errands j))
    (hstep : scene.Step (fun j => T.movingRule meter (errands j)) (T.Considerate values) scene') :
    ∃ phase', T.Upheld values phase' scene' ∧ T.Lasting values scene.world scene'.world ∧
      ∀ i c, phase = .kept i c → phase' = .kept i c := by
  obtain ⟨phase', hstanding, hmove, hturn⟩ :=
    hupheld.standing.step (fun _ _ _ hothers => hothers.toSparing) hfits hstep
  have hlog {deed : Deed H ι} (hdeed : deed ∈ scene.log) : deed ∈ scene'.log :=
    Scene.mem_log_of_steps (.single hstep) hdeed
  have horigin {c : ConfigurationId} (hc : phase.configuration? = some c) :
      ∃ w, w.configurations.length = c ∧ ∃ deed ∈ scene'.log, T.Makes w deed := by
    obtain ⟨w, hlength, deed, hdeed, hmakes⟩ := hupheld.origin c hc
    exact ⟨w, hlength, deed, hlog hdeed, hmakes⟩
  -- What is in the log already is in the past, and what has just been done leads to the new world.
  have hpast (hold : ∀ before, T.Past values phase before scene.world →
      T.Past values phase' before scene'.world) :
      ∀ j before after, .passed j before after ∈ scene'.log →
        T.Past values phase' after scene'.world := by
    intro j before after hdeed
    rcases hstep.log with hsame | ⟨deed, hadded, hleads⟩
    · rw [hsame] at hdeed
      exact hold _ (hupheld.past j before after hdeed)
    · rw [hadded] at hdeed
      rcases List.mem_cons.mp hdeed with hnew | hearlier
      · obtain ⟨-, rfl⟩ := hleads j before after hnew.symm
        exact .of_standing hstanding
      · exact hold _ (hupheld.past j before after hearlier)
  rcases hturn with ⟨who, hadvances, hdone⟩ | ⟨rfl, hothers⟩
  · have hlasting := hadvances.lasting hgiven
    refine ⟨phase', ⟨hstanding, fun c hc => hadvances.backed hgiven hupheld.backed hc, fun c hc => ?_, ?_⟩,
      hlasting, fun i c hkept => hadvances.eq_kept hkept⟩
    · rcases hadvances.makes hc with hbefore | ⟨hlength, hmakes, hother⟩
      · exact horigin hbefore
      · exact ⟨_, hlength, _, hdone.resolve_left hother, hmakes⟩
    · exact hpast fun _ hpast => hpast.advances hadvances hmove hlasting
  · have hlasting : T.Lasting values scene.world scene'.world := hothers.configurations
    refine ⟨_, ⟨hstanding, fun c hc => ?_, fun c hc => horigin hc, ?_⟩, hlasting, fun _ _ => id⟩
    · obtain ⟨config, hconfig⟩ := hupheld.backed c hc
      obtain ⟨config', hconfig', -⟩ := hconfig.of_lasting hlasting
      exact ⟨config', hconfig'⟩
    · exact hpast fun _ hpast => hpast.later hmove hlasting

theorem Upheld.steps (hupheld : T.Upheld values phase scene)
    (hsteps : ReflTransGen (Scene.Step (fun j => T.movingRule meter (errands j))
      (T.Considerate values)) scene scene')
    (hfits : ∀ j before after, .passed j before after ∈ scene'.log → T.Fits before (errands j)) :
    ∃ phase', T.Upheld values phase' scene' ∧ T.Lasting values scene.world scene'.world ∧
      ∀ i c, phase = .kept i c → phase' = .kept i c := by
  induction hsteps with
  | refl => exact ⟨phase, hupheld, .refl _, fun _ _ => id⟩
  | tail _ hstep ih =>
      obtain ⟨phase₁, hupheld₁, hlasting₁, hkept₁⟩ := ih fun j before after hdeed =>
        hfits j before after (Scene.mem_log_of_steps (.single hstep) hdeed)
      obtain ⟨phase₂, hupheld₂, hlasting₂, hkept₂⟩ := hupheld₁.step hgiven hfits hstep
      exact ⟨phase₂, hupheld₂, hlasting₁.trans hlasting₂,
        fun i c hkept => hkept₂ i c (hkept₁ i c hkept)⟩

end Steps

/-- There is one configuration that is kept. -/
theorem Upheld.eq_of_kept {i i' : SlotId} {c c' : ConfigurationId}
    (hupheld : T.Upheld values (.kept i c) scene) (hupheld' : T.Upheld values (.kept i' c') scene) :
    c = c' := by
  have hshown : ∃ deed ∈ scene.log, T.Shows i deed := (hupheld.standing.shown i).mp rfl
  have hi : (Phase.kept i' c' : Phase ι).slot? = some i := (hupheld'.standing.shown i).mpr hshown
  obtain ⟨v, hholding, hv⟩ := hupheld.standing.fills
  have hvalue : (scene.world.heap.slot i).value? = some v := by
    rw [hholding]
    rfl
  obtain ⟨_, hkept, hv'⟩ := hupheld'.standing.fills.of_value hi hvalue
  cases hkept
  exact Datum.configuration.inj (hv.symm.trans hv')

end Upheld

/-- What is known of a world on the way to the last scene, in which somebody does something after other
things have been done. -/
structure Attested (values : Assignment) (last : Scene H fun _ : ι => Place)
    (earlier : List (Deed H ι)) (w : World H) (phase : Phase ι) : Prop where
  scene : ∃ places log, T.Upheld values phase ⟨w, places, log⟩ ∧ ∀ deed ∈ earlier, deed ∈ log
  lasting : T.Lasting values w last.world
  kept : ∀ i c, phase = .kept i c → T.Upheld values (.kept i c) last

/-- The configuration has been found in the slot of the entry. -/
def Known (values : Assignment) (last : Scene H fun _ : ι => Place) (earlier : List (Deed H ι))
    (c : ConfigurationId) : Prop :=
  ∃ j w i, .passed j w w ∈ earlier ∧ T.Attested values last [] w (.kept i c)

/-- Somebody has come to a place by what has been done. -/
def Warranted (values : Assignment) (last : Scene H fun _ : ι => Place) (earlier : List (Deed H ι)) :
    Place → Prop
  | .outside | .refused => True
  | .given i | .making i | .made i _ | .late i => ∃ deed ∈ earlier, T.Shows i deed
  | .settled i v => (∃ deed ∈ earlier, T.Shows i deed) ∧ ∃ c, v.datum = .configuration c ∧
      ∃ j before after v', .passed j before after ∈ earlier ∧
        (after.heap.slot i).value? = some v' ∧ v'.datum = .configuration c
  | .holding c => T.Known values last earlier c
  | .astray => False

section Attested

variable {T} {values : Assignment} {last : Scene H fun _ : ι => Place} {earlier : List (Deed H ι)}
  {w w' : World H} {phase : Phase ι} {s : ScopeId} {a b : Place} {j : ι} {deeds : List (Deed H ι)}

theorem Attested.slot?_eq_some (hattested : T.Attested values last earlier w phase) {i : SlotId}
    (hshown : ∃ deed ∈ earlier, T.Shows i deed) : phase.slot? = some i := by
  obtain ⟨places, log, hupheld, hmore⟩ := hattested.scene
  obtain ⟨deed, hdeed, hshows⟩ := hshown
  exact (hupheld.standing.shown i).mpr ⟨deed, hmore deed hdeed, hshows⟩

theorem Attested.past (hattested : T.Attested values last earlier w phase) {before after : World H}
    (hdeed : .passed j before after ∈ earlier) : T.Past values phase after w := by
  obtain ⟨places, log, hupheld, hmore⟩ := hattested.scene
  exact hupheld.past j before after (hmore _ hdeed)

theorem Attested.standing (hattested : T.Attested values last earlier w phase) :
    ∃ places log, T.Standing phase ⟨w, places, log⟩ := by
  obtain ⟨places, log, hupheld, -⟩ := hattested.scene
  exact ⟨places, log, hupheld.standing⟩

theorem Warranted.mono (hwarranted : T.Warranted values last earlier a) {more : List (Deed H ι)}
    (hmore : ∀ deed ∈ earlier, deed ∈ more) : T.Warranted values last more a := by
  have hshown {i : SlotId} (hshown : ∃ deed ∈ earlier, T.Shows i deed) :
      ∃ deed ∈ more, T.Shows i deed :=
    hshown.imp fun deed hdeed => ⟨hmore deed hdeed.1, hdeed.2⟩
  cases a with
  | outside | refused => trivial
  | given i | making i | made i c | late i => exact hshown hwarranted
  | settled i v =>
      obtain ⟨hfound, c, hv, j, before, after, v', hdeed, hvalue⟩ := hwarranted
      exact ⟨hshown hfound, c, hv, j, before, after, v', hmore _ hdeed, hvalue⟩
  | holding c =>
      obtain ⟨j, w, i, hdeed, hattested⟩ := hwarranted
      exact ⟨j, w, i, hmore _ hdeed, hattested⟩
  | astray => exact hwarranted

/-- Whatever somebody does on the way to the configuration, it comes to the next place by that. -/
theorem Warranted.obtains (hwarranted : T.Warranted values last earlier a)
    (hattested : T.Attested values last earlier w phase) (hhas : T.Has w s)
    (hobtains : T.Obtains s a w w' b) :
    T.Warranted values last (earlier ++ [.passed j w w']) b := by
  have hdeed : .passed j w w' ∈ earlier ++ [.passed j w w'] := by simp
  have hmono := hwarranted.mono fun deed (hdeed : deed ∈ earlier) =>
    List.mem_append_left [.passed j w w'] hdeed
  obtain ⟨places, log, hstanding⟩ := hattested.standing
  cases hobtains with
  | looked | refused | spared => trivial
  | given hgiven => exact ⟨_, hdeed, .inr hgiven.entry.2⟩
  | marked | made => exact hmono
  | overtaken => exact hmono.1
  | found hvalue =>
      obtain ⟨c, -, hv⟩ := hstanding.fills.of_value (hattested.slot?_eq_some hwarranted) hvalue
      exact ⟨hmono, c, hv, j, _, _, _, hdeed, hvalue, hv⟩
  | @filled _ i c =>
      have hlt : i < w.heap.slots.length := hstanding.placed i (hattested.slot?_eq_some hwarranted)
      have hvalue : ((w.fill T.store i (.configuration c) none).2.heap.slot i).value? =
          some ⟨w.values, .configuration c⟩ :=
        congrArg Slot.value? ((Heap.slot_setSlot hlt _ i).trans (if_pos rfl))
      exact ⟨hmono, c, rfl, j, _, _, _, hdeed, hvalue, rfl⟩
  | @obtained _ i v c hopen hv =>
      obtain ⟨hshown, c', hv', j', before, after, v', hearlier, hvalue, hdatum⟩ := hwarranted
      obtain rfl := Datum.configuration.inj (hv.symm.trans hv')
      obtain rfl : phase = .kept i c :=
        (hattested.past hearlier).kept i v' c (hattested.slot?_eq_some hshown) hvalue hdatum
      obtain ⟨places, log, hupheld, -⟩ := hattested.scene
      exact ⟨j, w, i, hdeed, ⟨places, log, hupheld, by simp⟩, hattested.lasting, hattested.kept⟩
  | strayed hodd =>
      refine absurd hodd (hstanding.not_odd hhas ?_ ?_ ?_)
      · rintro i v rfl
        obtain ⟨-, c, hv, -⟩ := hwarranted
        exact ⟨c, hv⟩
      · rintro i rfl
        exact hattested.slot?_eq_some hwarranted
      · rintro rfl
        exact hwarranted

end Attested

/-- The deeds of somebody are attested, each after those before it. -/
def AllAttested (values : Assignment) (last : Scene H fun _ : ι => Place) (s : ScopeId)
    (earlier deeds : List (Deed H ι)) : Prop :=
  ∀ first j w w' second, deeds = first ++ .passed j w w' :: second →
    T.Has w s ∧ ∃ phase, T.Attested values last (earlier ++ first) w phase

section AllAttested

variable {T} {values : Assignment} {last : Scene H fun _ : ι => Place} {earlier : List (Deed H ι)}
  {s : ScopeId} {a b : Place} {j : ι} {deeds deeds' : List (Deed H ι)} {c : ConfigurationId}

theorem AllAttested.left (hall : T.AllAttested values last s earlier (deeds ++ deeds')) :
    T.AllAttested values last s earlier deeds := by
  rintro first j w w' second rfl
  exact hall first j w w' (second ++ deeds') (by simp)

theorem AllAttested.right (hall : T.AllAttested values last s earlier (deeds ++ deeds')) :
    T.AllAttested values last s (earlier ++ deeds) deeds' := by
  rintro first j w w' second rfl
  rw [List.append_assoc]
  exact hall (deeds ++ first) j w w' second (by simp)

theorem AllAttested.head {w w' : World H}
    (hall : T.AllAttested values last s earlier (.passed j w w' :: deeds)) :
    T.Has w s ∧ ∃ phase, T.Attested values last earlier w phase := by
  simpa using hall [] j w w' deeds rfl

theorem AllAttested.tail {deed : Deed H ι} (hall : T.AllAttested values last s earlier (deed :: deeds)) :
    T.AllAttested values last s (earlier ++ [deed]) deeds := by
  have hall : T.AllAttested values last s earlier ([deed] ++ deeds) := hall
  exact hall.right

/-- Whatever the path, it is warranted by what has been done on it. -/
theorem Warranted.path (hwarranted : T.Warranted values last earlier a)
    (hpath : (T.obtaining s).Path j a deeds b) (hall : T.AllAttested values last s earlier deeds) :
    T.Warranted values last (earlier ++ deeds) b := by
  induction hpath generalizing earlier with
  | here => simpa using hwarranted
  | passed hpasses _ ih =>
      obtain ⟨hhas, phase, hattested⟩ := hall.head
      simpa using ih (hwarranted.obtains hattested hhas hpasses) hall.tail
  | called hresumes _ _ =>
      rw [hresumes.1] at hwarranted
      exact hwarranted.elim

/-- Whoever has obtained the configuration has found it in the slot. -/
theorem known_of_configurationOf
    (htells : (Routine.configurationOf s).Tells j deeds (.ended (.returned (.ok c))))
    (hall : T.AllAttested values last s earlier deeds) : T.Known values last (earlier ++ deeds) c := by
  obtain ⟨place, hpath, hobtained⟩ := (T.follows_configurationOf s).path htells
  have hwarranted : T.Warranted values last (earlier ++ deeds) place :=
    Warranted.path (a := .outside) trivial hpath hall
  rcases hobtained with ⟨_, ⟨⟩, rfl⟩ | ⟨hrefused, -⟩ | rfl
  · exact hwarranted
  · cases hrefused
  · exact hwarranted.elim

/-- The configuration that somebody has found is the one that is kept, and does as the values say. -/
theorem Known.backed (hknown : T.Known values last earlier c) :
    (∃ i, T.Upheld values (.kept i c) last) ∧ ∃ config, T.Backed values last.world c config ∧
      ∀ {w phase}, T.Attested values last earlier w phase →
        ∃ config', T.Backed values w c config' ∧ config'.disabled = config.disabled := by
  obtain ⟨j, w, i, hdeed, hfound⟩ := hknown
  obtain ⟨places, log, hupheld, -⟩ := hfound.scene
  obtain ⟨config, hconfig⟩ := hupheld.backed c rfl
  obtain ⟨config₁, hconfig₁, hsame₁⟩ := hconfig.of_lasting hfound.lasting
  refine ⟨⟨i, hfound.kept i c rfl⟩, config₁, hconfig₁, fun {w' phase} hattested => ?_⟩
  obtain ⟨config₂, hconfig₂, hsame₂⟩ := hconfig.of_lasting (hattested.past hdeed).configurations
  exact ⟨config₂, hconfig₂, hsame₂.trans hsame₁.symm⟩

theorem Attested.of_append {w : World H} {phase : Phase ι}
    (hattested : T.Attested values last (earlier ++ deeds) w phase) :
    T.Attested values last earlier w phase := by
  obtain ⟨places, log, hupheld, hmore⟩ := hattested.scene
  exact ⟨⟨places, log, hupheld, fun deed hdeed => hmore deed (List.mem_append_left deeds hdeed)⟩,
    hattested.lasting, hattested.kept⟩

/-- The timeout that the configuration gives is the one that the values give. -/
theorem Known.timeoutOf {kind : Kind} {declared : Option DeclaredTimeout}
    {timeout : Option EffectiveTimeout} (hgiven : values.GivenBy H.read T.source)
    (hknown : T.Known values last earlier c)
    (htells : (Routine.timeoutOf c kind declared).Tells j deeds (.ended (.returned timeout)))
    (hall : T.AllAttested values last s earlier deeds) :
    ∃ i config, T.Upheld values (.kept i c) last ∧ T.Backed values last.world c config ∧
      timeout = values.effective config.disabled kind declared := by
  obtain ⟨⟨i, hupheld⟩, config, hconfig, hlater⟩ := hknown.backed
  refine ⟨i, config, hupheld, hconfig, ?_⟩
  rcases htells.view_bind with ⟨-, hnone⟩ | ⟨w, later, rfl, hrest⟩
  · cases hnone
  · obtain ⟨-, phase, hattested⟩ := hall.head
    obtain ⟨config₁, hconfig₁, hsame₁⟩ := hlater hattested
    simp only [hconfig₁.configured, Option.map_some, Option.getD_some, hsame₁] at hrest
    cases hdisabled : config.disabled with
    | true =>
        simp only [hdisabled, if_true] at hrest
        cases hrest
        rfl
    | false =>
        simp only [hdisabled] at hrest
        cases hrest with
        | @passed _ _ _ w' _ _ hover hlast =>
            obtain ⟨-, phase', hattested'⟩ := hall.tail.head
            obtain ⟨config₂, hconfig₂, -⟩ := hlater hattested'.of_append
            have hresolve : (w'.consult c none (Consultation.resolve H.read kind declared)).1 =
                values.resolve kind declared := by
              simp only [consult, hconfig₂.configured]
              exact Consultation.resolve_fst (hconfig₂.source.symm ▸ hgiven) kind declared hconfig₂.backs
            cases hlast
            exact hresolve

end AllAttested

end Tree

end TimedInvocation
