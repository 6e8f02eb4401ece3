import Mathlib.Logic.Relation
import TimedInvocation.Proofs.Consultation

/-!
# What a configuration learns

All that a question does to a configuration, said once: properties that it does not know are read, and
what they give is kept. So however often and in whatever order questions are put, no property is read
again once it is known; and if the values of a source never change, every answer is the one of the policy
on these values.
-/

namespace TimedInvocation

open Relation

variable {S σ : Type}

/-- A configuration keeps what a property gave. The mode is read when the configuration is made. -/
def TimeoutConfiguration.knows (config : TimeoutConfiguration S) : Property → Bool
  | .mode => true
  | .threadMode => config.threadMode.isSome
  | .default => (config.durations.lookup .default).isSome
  | .ofCategory category => (config.durations.lookup (.ofCategory category)).isSome
  | .ofKind kind => (config.durations.lookup (.ofKind kind)).isSome

theorem TimeoutConfiguration.knows_of_holdsDuration {config : TimeoutConfiguration S} {p : Property}
    (hp : p.holdsDuration = true) : config.knows p = (config.durations.lookup p).isSome := by
  cases p with
  | mode | threadMode => cases hp
  | default | ofCategory | ofKind => rfl

/-- A source gives the values of an assignment, whatever state it is in. -/
def Assignment.GivenBy (values : Assignment) (read : S → String → σ → Option String × σ) (source : S) :
    Prop :=
  ∀ (p : Property) (state : σ), (read source p.name state).1 = values p

/-- What a configuration keeps is what the values of an assignment say. -/
structure Assignment.Backs (values : Assignment) (config : TimeoutConfiguration S) : Prop where
  durations : ∀ p, p.holdsDuration = true → ∀ d, config.durations.lookup p = some d →
    d = durationIn (values p)
  threadMode : ∀ mode, config.threadMode = some mode → mode = values.defaultThreadMode

/-- A configuration stays for its source, disabled or not, and keeps nothing but what the values of an
assignment say. -/
structure TimeoutConfiguration.Remains (values : Assignment) (config config' : TimeoutConfiguration S) :
    Prop where
  source : config'.source = config.source
  disabled : config'.disabled = config.disabled
  backs : values.Backs config → values.Backs config'

theorem TimeoutConfiguration.Remains.refl {values : Assignment} (config : TimeoutConfiguration S) :
    config.Remains values config :=
  ⟨rfl, rfl, id⟩

theorem TimeoutConfiguration.Remains.trans {values : Assignment}
    {config₁ config₂ config₃ : TimeoutConfiguration S} (hfirst : config₁.Remains values config₂)
    (hsecond : config₂.Remains values config₃) : config₁.Remains values config₃ :=
  ⟨hsecond.source.trans hfirst.source, hsecond.disabled.trans hfirst.disabled,
    fun hbacks => hsecond.backs (hfirst.backs hbacks)⟩

namespace Consultation

variable {read : S → String → σ → Option String × σ} {c c' : Consultation S σ}

/-- A property that is not known is read, and what it gives is kept. -/
inductive Learns (read : S → String → σ → Option String × σ) (c : Consultation S σ) :
    Consultation S σ → Prop where
  | duration {p : Property} (hp : p.holdsDuration = true)
      (hnew : c.config.durations.lookup p = none) (log : List Event) :
      Learns read c ⟨{ c.config with
        durations := c.config.durations ++ [(p, durationIn (c.ask read p).1)] },
        (c.ask read p).2.state, log⟩
  | threadMode (hnew : c.config.threadMode = none) (log : List Event) :
      Learns read c ⟨{ c.config with threadMode := some (threadModeIn (c.ask read .threadMode).1) },
        (c.ask read .threadMode).2.state, log⟩

section Questions

variable (read) (c)

theorem duration_learns {p : Property} (hp : p.holdsDuration = true) :
    ReflTransGen (Learns read) c (c.duration read p).2 := by
  cases hknown : c.config.durations.lookup p with
  | some known =>
      simp only [duration, hknown]
      exact .refl
  | none =>
      simp only [duration, hknown, TimeoutConfiguration.durationOfValue_fst]
      exact .single (.duration hp hknown _)

theorem firstDuration_learns {properties : List Property}
    (hproperties : ∀ p ∈ properties, p.holdsDuration = true) :
    ReflTransGen (Learns read) c (c.firstDuration read properties).2 := by
  induction properties generalizing c with
  | nil => exact .refl
  | cons p rest ih =>
      obtain ⟨hp, hrest⟩ := List.forall_mem_cons.mp hproperties
      have hfirst := duration_learns read c hp
      rw [firstDuration]
      rcases hduration : c.duration read p with ⟨_ | d, c₁⟩
      · rw [hduration] at hfirst
        exact hfirst.trans (ih c₁ hrest)
      · rw [hduration] at hfirst
        exact hfirst

theorem timeoutFor_learns (kind : Kind) :
    ReflTransGen (Learns read) c (c.timeoutFor read kind).2 :=
  firstDuration_learns read c fun _ => Property.holdsDuration_of_mem_properties

theorem defaultThreadMode_learns :
    ReflTransGen (Learns read) c (c.defaultThreadMode read).2 := by
  cases hknown : c.config.threadMode with
  | some known =>
      simp only [defaultThreadMode, hknown]
      exact .refl
  | none =>
      simp only [defaultThreadMode, hknown, TimeoutConfiguration.threadModeOfValue_fst]
      exact .single (.threadMode hknown _)

theorem chooseThreadMode_learns (declared : ThreadMode) :
    ReflTransGen (Learns read) c (c.chooseThreadMode read declared).2 := by
  cases declared with
  | inferred => exact defaultThreadMode_learns read c
  | sameThread | separateThread => exact .refl

theorem resolve_learns (kind : Kind) (declared : Option DeclaredTimeout) :
    ReflTransGen (Learns read) c (c.resolve read kind declared).2 := by
  cases declared with
  | some declared => exact chooseThreadMode_learns read c _
  | none =>
      have hfirst := timeoutFor_learns read c kind
      rw [resolve]
      rcases htimeout : c.timeoutFor read kind with ⟨_ | d, c₁⟩
      · rw [htimeout] at hfirst
        exact hfirst
      · rw [htimeout] at hfirst
        exact hfirst.trans (chooseThreadMode_learns read c₁ .inferred)

end Questions

/-- Nothing but what has been read changes. -/
theorem Learns.constant (hlearns : ReflTransGen (Learns read) c c') :
    c'.config.source = c.config.source ∧ c'.config.disabled = c.config.disabled := by
  induction hlearns with
  | refl => exact ⟨rfl, rfl⟩
  | tail _ hstep ih => cases hstep <;> exact ih

section Policy

variable {values : Assignment} (hgiven : values.GivenBy read c.config.source)

include hgiven

theorem Learns.backs_step (hlearns : Learns read c c') (hbacks : values.Backs c.config) :
    values.Backs c'.config := by
  cases hlearns with
  | @duration p hp hnew log =>
      have hvalue : (c.ask read p).1 = values p := hgiven p c.state
      refine ⟨fun q hq d hd => ?_, hbacks.threadMode⟩
      rw [List.lookup_append] at hd
      rcases Option.or_eq_some_iff.mp hd with hknown | ⟨-, hadded⟩
      · exact hbacks.durations q hq d hknown
      · by_cases hq' : q = p
        · subst hq'
          simpa [hvalue, eq_comm] using hadded
        · simp [List.lookup_cons, beq_false_of_ne hq'] at hadded
  | threadMode hnew log =>
      have hvalue : (c.ask read .threadMode).1 = values .threadMode := hgiven .threadMode c.state
      refine ⟨hbacks.durations, fun mode hmode => ?_⟩
      cases hmode
      rw [hvalue]
      rfl

/-- What is learnt from a source that gives the values of an assignment is what they say. -/
theorem Learns.backs (hlearns : ReflTransGen (Learns read) c c') (hbacks : values.Backs c.config) :
    values.Backs c'.config := by
  induction hlearns with
  | refl => exact hbacks
  | tail hearlier hstep ih => exact hstep.backs_step ((constant hearlier).1 ▸ hgiven) ih

theorem Learns.remains (hlearns : ReflTransGen (Learns read) c c') :
    c.config.Remains values c'.config :=
  ⟨(constant hlearns).1, (constant hlearns).2, Learns.backs hgiven hlearns⟩

theorem duration_fst {p : Property} (hp : p.holdsDuration = true) (hbacks : values.Backs c.config) :
    (c.duration read p).1 = durationIn (values p) := by
  cases hknown : c.config.durations.lookup p with
  | some known =>
      simp only [duration, hknown]
      exact hbacks.durations p hp known hknown
  | none =>
      have hvalue : (c.ask read p).1 = values p := hgiven p c.state
      simp only [duration, hknown, TimeoutConfiguration.durationOfValue_fst, hvalue]

theorem firstDuration_fst {properties : List Property}
    (hproperties : ∀ p ∈ properties, p.holdsDuration = true) (hbacks : values.Backs c.config) :
    (c.firstDuration read properties).1 = properties.findSome? fun p => durationIn (values p) := by
  induction properties generalizing c with
  | nil => rfl
  | cons p rest ih =>
      obtain ⟨hp, hrest⟩ := List.forall_mem_cons.mp hproperties
      have hlearns := duration_learns read c hp
      have hfirst := duration_fst hgiven hp hbacks
      rw [firstDuration, List.findSome?_cons]
      rcases hduration : c.duration read p with ⟨_ | d, c₁⟩
      · rw [hduration] at hlearns hfirst
        rw [← hfirst]
        exact ih ((Learns.constant hlearns).1 ▸ hgiven) hrest (Learns.backs hgiven hlearns hbacks)
      · rw [hduration] at hfirst
        rw [← hfirst]

theorem timeoutFor_fst (kind : Kind) (hbacks : values.Backs c.config) :
    (c.timeoutFor read kind).1 = values.timeoutFor kind := by
  rw [timeoutFor, firstDuration_fst hgiven (fun _ => Property.holdsDuration_of_mem_properties) hbacks]
  simp only [Kind.properties, List.findSome?_cons, List.findSome?_nil, Assignment.timeoutFor]
  cases durationIn (values (.ofKind kind)) <;>
    cases durationIn (values (.ofCategory kind.category)) <;> cases durationIn (values .default) <;> rfl

theorem defaultThreadMode_fst (hbacks : values.Backs c.config) :
    (c.defaultThreadMode read).1 = values.defaultThreadMode := by
  cases hknown : c.config.threadMode with
  | some known =>
      simp only [defaultThreadMode, hknown]
      exact hbacks.threadMode known hknown
  | none =>
      have hvalue : (c.ask read .threadMode).1 = values .threadMode := hgiven .threadMode c.state
      simp only [defaultThreadMode, hknown, TimeoutConfiguration.threadModeOfValue_fst, hvalue]
      rfl

theorem chooseThreadMode_fst (declared : ThreadMode) (hbacks : values.Backs c.config) :
    (c.chooseThreadMode read declared).1 = values.threadModeFor declared := by
  cases declared with
  | inferred =>
      simp only [chooseThreadMode, defaultThreadMode_fst hgiven hbacks]
      rfl
  | sameThread | separateThread => rfl

/-- A configuration resolves the timeout of an invocation as the policy does. -/
theorem resolve_fst (kind : Kind) (declared : Option DeclaredTimeout) (hbacks : values.Backs c.config) :
    (c.resolve read kind declared).1 = values.resolve kind declared := by
  cases declared with
  | some declared => simp only [resolve, chooseThreadMode_fst hgiven _ hbacks, Assignment.resolve]
  | none =>
      have hlearns := timeoutFor_learns read c kind
      have hfirst := timeoutFor_fst hgiven kind hbacks
      rw [resolve, Assignment.resolve]
      rcases htimeout : c.timeoutFor read kind with ⟨_ | d, c₁⟩
      · rw [htimeout] at hfirst
        rw [← hfirst]
        rfl
      · rw [htimeout] at hlearns hfirst
        have hmode := chooseThreadMode_fst ((Learns.constant hlearns).1 ▸ hgiven) .inferred
          (Learns.backs hgiven hlearns hbacks)
        rw [← hfirst, ← hmode]
        rfl

end Policy

/-- To learn is to read one property that was not known, which is known then. -/
theorem Learns.reads (hlearns : Learns read c c') :
    ∃ p : Property, c'.state = (read c.config.source p.name c.state).2 ∧
      ∀ q, (c'.config.knows q).toNat = (c.config.knows q).toNat + if q = p then 1 else 0 := by
  cases hlearns with
  | @duration p hp hnew log =>
      refine ⟨p, rfl, fun q => ?_⟩
      by_cases hq : q = p
      · subst hq
        rw [TimeoutConfiguration.knows_of_holdsDuration hp, TimeoutConfiguration.knows_of_holdsDuration hp]
        simp [hnew, List.lookup_append]
      · have hsame (p' : Property) (hp' : p' ≠ p) :
            (c.config.durations ++ [(p, durationIn (c.ask read p).1)]).lookup p' =
              c.config.durations.lookup p' := by
          simp [List.lookup_append, List.lookup_cons, beq_false_of_ne hp']
        rw [if_neg hq]
        cases q with
        | mode | threadMode => rfl
        | default | ofCategory | ofKind => simp only [TimeoutConfiguration.knows, hsame _ hq, Nat.add_zero]
  | threadMode hnew log =>
      refine ⟨.threadMode, rfl, fun q => ?_⟩
      cases q with
      | threadMode => simp [TimeoutConfiguration.knows, hnew]
      | mode | default | ofCategory | ofKind => rfl

section Count

variable {source : S} {count : σ → Property → Nat}

/-- No property has been read more often than it has become known. -/
theorem Learns.count_le (hread : ∀ (p : Property) (state : σ) (q : Property),
      count (read source p.name state).2 q ≤ count state q + if q = p then 1 else 0)
    (hlearns : ReflTransGen (Learns read) c c') (hsource : c.config.source = source) (q : Property) :
    count c'.state q + (c.config.knows q).toNat ≤ count c.state q + (c'.config.knows q).toNat := by
  induction hlearns with
  | refl => exact Nat.le_refl _
  | tail hearlier hstep ih =>
      obtain ⟨p, hstate, hknows⟩ := hstep.reads
      rw [(constant hearlier).1, hsource] at hstate
      have hlast := hstate ▸ hread p _ q
      have hnew := hknows q
      omega

end Count

end Consultation

/-! ## New configurations -/

/-- The mode that a value selects. -/
def timeoutModeIn (value : Option String) : TimeoutMode :=
  (value.bind TimeoutMode.read?).getD .enabled

/-- Timeouts are disabled or not, as the mode that the values select says. In one mode that is what the
debugger has answered. -/
def Assignment.Disables (values : Assignment) (answered : Bool → Prop) (disabled : Bool) : Prop :=
  match timeoutModeIn (values .mode) with
  | .enabled => disabled = false
  | .disabled => disabled = true
  | .disabledOnDebug => answered disabled

theorem Assignment.Disables.mono {values : Assignment} {answered answered' : Bool → Prop}
    {disabled : Bool} (hdisables : values.Disables answered disabled)
    (hanswered : answered disabled → answered' disabled) : values.Disables answered' disabled := by
  rw [Disables] at hdisables ⊢
  cases hmode : timeoutModeIn (values .mode) with
  | enabled | disabled =>
      rw [hmode] at hdisables
      exact hdisables
  | disabledOnDebug =>
      rw [hmode] at hdisables
      exact hanswered hdisables

namespace TimeoutConfiguration

variable {read : S → String → σ → Option String × σ} {probe : σ → Bool × σ} {source : S}
  {values : Assignment}

theorem modeOfValue_fst (value : Option String) : (modeOfValue value).1 = timeoutModeIn value := by
  cases value with
  | none => rfl
  | some text =>
      unfold modeOfValue
      simp only [timeoutModeIn, Option.bind_some]
      cases TimeoutMode.read? text <;> rfl

/-- A new configuration has learnt nothing yet. -/
theorem new_backs (state : σ) (log : List Event) :
    values.Backs (new read probe source state log).config := by
  refine ⟨fun p _ d hd => ?_, fun mode hmode => ?_⟩
  · cases hd
  · cases hmode

/-- A new configuration is disabled as the values of its source say, for which the debugger may be asked
after the mode has been read. -/
theorem new_disables (hgiven : values.GivenBy read source) (state : σ) (log : List Event) :
    values.Disables (fun answer => (probe (read source Property.mode.name state).2).1 = answer)
      (new read probe source state log).config.disabled := by
  have hvalue : (read source Property.mode.name state).1 = values .mode := hgiven .mode state
  simp only [new, modeOfValue_fst, hvalue, Assignment.Disables]
  cases timeoutModeIn (values .mode) <;> rfl

/-- In all modes but one the debugger is not asked. -/
theorem new_probe (hgiven : values.GivenBy read source)
    (hmode : timeoutModeIn (values .mode) ≠ .disabledOnDebug) (probe' : σ → Bool × σ) (state : σ)
    (log : List Event) : new read probe source state log = new read probe' source state log := by
  have hvalue : (read source Property.mode.name state).1 = values .mode := hgiven .mode state
  simp only [new, modeOfValue_fst, hvalue]
  cases hselected : timeoutModeIn (values .mode) with
  | enabled | disabled => rfl
  | disabledOnDebug => exact absurd hselected hmode

/-- Nothing but what a new configuration knows has been read for it. -/
theorem count_new {count : σ → Property → Nat}
    (hread : ∀ (p : Property) (state : σ) (q : Property),
      count (read source p.name state).2 q ≤ count state q + if q = p then 1 else 0)
    (hprobe : ∀ state, count (probe state).2 = count state) (state : σ) (log : List Event)
    (q : Property) : count (new read probe source state log).state q ≤
      count state q + ((new read probe source state log).config.knows q).toNat := by
  have hmode (mode : TimeoutMode) (state : σ) : count (mode.isDisabled probe state).2 = count state := by
    cases mode with
    | enabled | disabled => rfl
    | disabledOnDebug => exact hprobe state
  have hone := hread .mode state q
  simp only [new, hmode]
  cases q <;> exact hone

end TimeoutConfiguration

end TimedInvocation
