import Mathlib.Data.List.Nodup
import TimedInvocation.Timeout.Configuration

/-!
# Consulting a configuration

A configuration keeps what it has read. Its answers are those of a policy that has no memory, applied to
the values that the properties had when they were read for the first time. The readings show what the
memory is for: no property is read twice, none is read before it is needed, and a value that cannot be
read is warned about once, however often it is asked for and whatever becomes of the source meanwhile.
-/

namespace TimedInvocation

variable {S σ : Type}

namespace Property

/-- Whether the value of a property is a duration. -/
def holdsDuration : Property → Bool
  | mode | threadMode => false
  | default | ofCategory _ | ofKind _ => true

/-- Whether a value is one that a property may have. -/
def accepts : Property → String → Bool
  | mode, value => (TimeoutMode.read? value).isSome
  | threadMode, value => (ThreadMode.read? value).any (· ≠ .inferred)
  | default, value | ofCategory _, value | ofKind _, value => (Duration.read value).isOk

def all : List Property :=
  [mode, threadMode, default, ofCategory .lifecycle, ofCategory .testable] ++ Kind.all.map ofKind

theorem mem_all (p : Property) : p ∈ all := by
  rcases p with _ | _ | _ | ⟨_ | _⟩ | ⟨_ | _ | _ | _ | _ | _ | _⟩ <;> decide

theorem nodup_names : (all.map name).Nodup := by
  decide

theorem name_inj {p q : Property} : p.name = q.name ↔ p = q :=
  ⟨List.inj_on_of_nodup_map nodup_names (mem_all p) (mem_all q), congrArg name⟩

theorem holdsDuration_of_mem_properties {kind : Kind} {p : Property}
    (hp : p ∈ kind.properties) : p.holdsDuration := by
  simp only [Kind.properties, List.mem_cons, List.not_mem_nil, or_false] at hp
  rcases hp with rfl | rfl | rfl <;> rfl

end Property

/-- A question to a configuration. -/
inductive Inquiry where
  | timeoutFor (kind : Kind)
  | defaultThreadMode
  | resolve (kind : Kind) (declared : Option DeclaredTimeout)

@[reducible] def Inquiry.Answer : Inquiry → Type
  | timeoutFor _ => Option Duration
  | defaultThreadMode => Option ThreadMode
  | resolve _ _ => Option EffectiveTimeout

/-- Puts a question to a configuration. -/
def Inquiry.ask (read : S → String → σ → Option String × σ) :
    (q : Inquiry) → Consultation S σ → q.Answer × Consultation S σ
  | timeoutFor kind, c => c.timeoutFor read kind
  | defaultThreadMode, c => c.defaultThreadMode read
  | resolve kind declared, c => c.resolve read kind declared

/-! ## The policy -/

/-- The duration that a value writes, if it writes one. -/
def durationIn (value : Option String) : Option Duration :=
  value.bind fun text => (Duration.read text).toOption

/-- The default thread mode that a value selects, if it selects one. -/
def threadModeIn (value : Option String) : Option ThreadMode :=
  (value.bind ThreadMode.read?).filter (· ≠ .inferred)

/-- A value for every property that has one. -/
abbrev Assignment := Property → Option String

namespace Assignment

/-- The first valid duration of a kind, of its category and of the global default. -/
def timeoutFor (values : Assignment) (kind : Kind) : Option Duration :=
  (durationIn (values (.ofKind kind))).or
    ((durationIn (values (.ofCategory kind.category))).or (durationIn (values .default)))

/-- It is the first valid duration of the properties of the kind. -/
theorem timeoutFor_eq (values : Assignment) (kind : Kind) :
    values.timeoutFor kind = kind.properties.findSome? fun p => durationIn (values p) := by
  simp only [timeoutFor, Kind.properties, List.findSome?_cons, List.findSome?_nil]
  cases durationIn (values (.ofKind kind)) <;>
    cases durationIn (values (.ofCategory kind.category)) <;>
      cases durationIn (values .default) <;> rfl

def defaultThreadMode (values : Assignment) : Option ThreadMode :=
  threadModeIn (values .threadMode)

/-- The declared thread mode unless it is `inferred`, else the default one, else the caller's
thread. -/
def threadModeFor (values : Assignment) (declared : ThreadMode) : ThreadMode :=
  if declared = .inferred then values.defaultThreadMode.getD .sameThread else declared

/-- The declared duration if there is one, else the one of the kind, with its thread mode. -/
def resolve (values : Assignment) (kind : Kind) :
    Option DeclaredTimeout → Option EffectiveTimeout
  | some declared => some ⟨declared.duration, values.threadModeFor declared.threadMode⟩
  | none => (values.timeoutFor kind).map fun duration => ⟨duration, values.threadModeFor .inferred⟩

def answer (values : Assignment) : (q : Inquiry) → q.Answer
  | .timeoutFor kind => values.timeoutFor kind
  | .defaultThreadMode => values.defaultThreadMode
  | .resolve kind declared => values.resolve kind declared

end Assignment

/-! ## Readings -/

/-- A value that was read from a source, with the name it was asked for. -/
structure Reading where
  name : String
  value : Option String

/-- Readings in the order in which they were made. -/
abbrev Journal := List Reading

namespace Journal

/-- What the first reading of a property gave; none if it was not read. -/
def first? (journal : Journal) (p : Property) : Option (Option String) :=
  (journal.find? fun reading => reading.name = p.name).map Reading.value

/-- The values that the properties had when they were read first. -/
def values (journal : Journal) : Assignment :=
  fun p => (journal.first? p).join

/-- A property was read and had a value that it does not accept. -/
def malformed (journal : Journal) (p : Property) : Bool :=
  (journal.values p).any fun value => !p.accepts value

/-- A property was read and gave no duration. -/
def Failed (journal : Journal) (p : Property) : Prop :=
  ∃ value, journal.first? p = some value ∧ durationIn value = none

theorem first?_append_of_some {journal : Journal} {p : Property} {value : Option String}
    (hfirst : journal.first? p = some value) (later : Journal) :
    Journal.first? (journal ++ later) p = some value := by
  obtain ⟨reading, hfind, rfl⟩ := Option.map_eq_some_iff.mp hfirst
  simp [first?, List.find?_append, hfind]

theorem first?_append_single {journal : Journal} {p : Property} (hnew : journal.first? p = none)
    (value : Option String) (q : Property) :
    Journal.first? (journal ++ [⟨p.name, value⟩]) q =
      if q = p then some value else journal.first? q := by
  rw [first?, Option.map_eq_none_iff] at hnew
  by_cases hq : q = p
  · subst hq
    simp [first?, List.find?_append, hnew]
  · have hname : p.name ≠ q.name := fun h => hq (Property.name_inj.mp h).symm
    simp [first?, List.find?_append, hname, hq]

theorem first?_eq_none_iff {journal : Journal} {p : Property} :
    journal.first? p = none ↔ p.name ∉ journal.map Reading.name := by
  simp [first?]

end Journal

/-- A source that keeps a journal of what is read from it. -/
def journaled (read : S → String → σ → Option String × σ) :
    S → String → σ × Journal → Option String × (σ × Journal) :=
  fun source name (state, journal) =>
    let (value, state) := read source name state
    (value, (state, journal ++ [⟨name, value⟩]))

def Consultation.withJournal (c : Consultation S σ) (journal : Journal) :
    Consultation S (σ × Journal) :=
  ⟨c.config, (c.state, journal), c.log⟩

/-- The readings that a question causes. -/
def Inquiry.readings (read : S → String → σ → Option String × σ) (q : Inquiry)
    (c : Consultation S σ) : Journal :=
  (q.ask (journaled read) (c.withJournal [])).2.state.2

/-- The kind whose configured duration a question asks for. -/
def Inquiry.configuredKind : Inquiry → Option Kind
  | timeoutFor kind => some kind
  | resolve kind none => some kind
  | defaultThreadMode | resolve _ (some _) => none

/-- A question needs the default thread mode, given what has been read so far. -/
def Inquiry.NeedsThreadMode (journal : Journal) : Inquiry → Prop
  | timeoutFor _ => False
  | defaultThreadMode => True
  | resolve _ (some declared) => declared.threadMode = .inferred
  | resolve kind none => journal.values.timeoutFor kind ≠ none

/-- A property may give the duration of a kind, all more specific ones having failed. -/
def Kind.Reaches (kind : Kind) (journal : Journal) (p : Property) : Prop :=
  ∃ before after, kind.properties = before ++ p :: after ∧ ∀ b ∈ before, journal.Failed b

/-- A property may be read for a question. -/
def Inquiry.Needs (q : Inquiry) (journal : Journal) (p : Property) : Prop :=
  (∃ kind, q.configuredKind = some kind ∧ kind.Reaches journal p) ∨
    p = .threadMode ∧ q.NeedsThreadMode journal

/-- Each reading is of a property that may be read given the ones before it. -/
def Journal.Allowed (needs : Journal → Property → Prop) : Journal → Journal → Prop
  | _, [] => True
  | journal, reading :: rest =>
    (∃ p, reading.name = p.name ∧ needs journal p) ∧
      Allowed needs (journal ++ [reading]) rest

/-! ## Conversations -/

/-- A question, and what has become of the source by the time it is put. -/
structure Turn (σ : Type) where
  meanwhile : σ → σ
  inquiry : Inquiry

/-- A question with its answer and the readings that it caused. -/
structure Exchange where
  inquiry : Inquiry
  answer : inquiry.Answer
  readings : Journal

/-- Puts one question after the other to a configuration. -/
def Consultation.converse (read : S → String → σ → Option String × σ) :
    List (Turn σ) → Consultation S σ → List Exchange × Consultation S σ
  | [], c => ([], c)
  | turn :: rest, c =>
    let c := { c with state := turn.meanwhile c.state }
    let (answer, after) := turn.inquiry.ask read c
    let (exchanges, last) := after.converse read rest
    (⟨turn.inquiry, answer, turn.inquiry.readings read c⟩ :: exchanges, last)

/-- In every exchange, each reading is of a property that its question needs. -/
def Exchange.ReadWhatIsNeeded : Journal → List Exchange → Prop
  | _, [] => True
  | journal, exchange :: rest =>
    Journal.Allowed exchange.inquiry.Needs journal exchange.readings ∧
      ReadWhatIsNeeded (journal ++ exchange.readings) rest

/-! ## Keeping a journal changes nothing -/

namespace Consultation

variable (read : S → String → σ → Option String × σ)

theorem duration_journaled (p : Property) (c : Consultation S σ) :
    ∃ readings : Journal, ∀ journal : Journal,
      (c.withJournal journal).duration (journaled read) p =
        ((c.duration read p).1, (c.duration read p).2.withJournal (journal ++ readings)) := by
  cases hknown : c.config.durations.lookup p with
  | some known => exact ⟨[], fun journal => by simp [duration, withJournal, hknown]⟩
  | none =>
    refine ⟨[⟨p.name, (c.ask read p).1⟩], fun journal => ?_⟩
    simp [duration, withJournal, hknown, ask, journaled]

theorem firstDuration_journaled (properties : List Property) (c : Consultation S σ) :
    ∃ readings : Journal, ∀ journal : Journal,
      (c.withJournal journal).firstDuration (journaled read) properties =
        ((c.firstDuration read properties).1,
          (c.firstDuration read properties).2.withJournal (journal ++ readings)) := by
  induction properties generalizing c with
  | nil => exact ⟨[], fun journal => by simp [firstDuration]⟩
  | cons p rest ih =>
    obtain ⟨readings, hreadings⟩ := duration_journaled read p c
    rcases hfirst : c.duration read p with ⟨_ | d, c₁⟩
    · obtain ⟨later, hlater⟩ := ih c₁
      refine ⟨readings ++ later, fun journal => ?_⟩
      simp [firstDuration, hreadings, hfirst, hlater]
    · exact ⟨readings, fun journal => by simp [firstDuration, hreadings, hfirst]⟩

theorem defaultThreadMode_journaled (c : Consultation S σ) :
    ∃ readings : Journal, ∀ journal : Journal,
      (c.withJournal journal).defaultThreadMode (journaled read) =
        ((c.defaultThreadMode read).1,
          (c.defaultThreadMode read).2.withJournal (journal ++ readings)) := by
  cases hknown : c.config.threadMode with
  | some known => exact ⟨[], fun journal => by simp [defaultThreadMode, withJournal, hknown]⟩
  | none =>
    refine ⟨[⟨Property.threadMode.name, (c.ask read .threadMode).1⟩], fun journal => ?_⟩
    simp [defaultThreadMode, withJournal, hknown, ask, journaled]

theorem chooseThreadMode_journaled (declared : ThreadMode) (c : Consultation S σ) :
    ∃ readings : Journal, ∀ journal : Journal,
      (c.withJournal journal).chooseThreadMode (journaled read) declared =
        ((c.chooseThreadMode read declared).1,
          (c.chooseThreadMode read declared).2.withJournal (journal ++ readings)) := by
  cases declared with
  | inferred =>
    obtain ⟨readings, hreadings⟩ := defaultThreadMode_journaled read c
    exact ⟨readings, fun journal => by simp [chooseThreadMode, hreadings]⟩
  | sameThread => exact ⟨[], fun journal => by simp [chooseThreadMode]⟩
  | separateThread => exact ⟨[], fun journal => by simp [chooseThreadMode]⟩

theorem resolve_journaled (kind : Kind) (declared : Option DeclaredTimeout)
    (c : Consultation S σ) :
    ∃ readings : Journal, ∀ journal : Journal,
      (c.withJournal journal).resolve (journaled read) kind declared =
        ((c.resolve read kind declared).1,
          (c.resolve read kind declared).2.withJournal (journal ++ readings)) := by
  cases declared with
  | some declared =>
    obtain ⟨readings, hreadings⟩ := chooseThreadMode_journaled read declared.threadMode c
    exact ⟨readings, fun journal => by simp [resolve, hreadings]⟩
  | none =>
    obtain ⟨readings, hreadings⟩ := firstDuration_journaled read kind.properties c
    rcases hfirst : c.firstDuration read kind.properties with ⟨_ | d, c₁⟩
    · exact ⟨readings, fun journal => by simp [resolve, timeoutFor, hreadings, hfirst]⟩
    · obtain ⟨later, hlater⟩ := chooseThreadMode_journaled read .inferred c₁
      refine ⟨readings ++ later, fun journal => ?_⟩
      simp [resolve, timeoutFor, hreadings, hfirst, hlater]

end Consultation

/-- Whether a journal is kept makes no difference to a question, and the readings that the question
causes do not depend on what is in the journal. -/
theorem Inquiry.ask_journaled (read : S → String → σ → Option String × σ) (q : Inquiry)
    (c : Consultation S σ) (journal : Journal) :
    q.ask (journaled read) (c.withJournal journal) =
      ((q.ask read c).1, (q.ask read c).2.withJournal (journal ++ q.readings read c)) := by
  have hobserved : ∃ readings : Journal, ∀ journal : Journal,
      q.ask (journaled read) (c.withJournal journal) =
        ((q.ask read c).1, (q.ask read c).2.withJournal (journal ++ readings)) := by
    cases q with
    | timeoutFor kind => exact Consultation.firstDuration_journaled read kind.properties c
    | defaultThreadMode => exact Consultation.defaultThreadMode_journaled read c
    | resolve kind declared => exact Consultation.resolve_journaled read kind declared c
  obtain ⟨readings, hreadings⟩ := hobserved
  have hsame : q.readings read c = readings := by
    rw [Inquiry.readings, hreadings]
    rfl
  rw [hsame, hreadings]

/-! ## What is kept -/

theorem Journal.Allowed.append {needs : Journal → Property → Prop} {journal earlier later : Journal}
    (hearlier : Allowed needs journal earlier) (hlater : Allowed needs (journal ++ earlier) later) :
    Allowed needs journal (earlier ++ later) := by
  induction earlier generalizing journal with
  | nil => simpa using hlater
  | cons reading rest ih =>
    exact ⟨hearlier.1, ih hearlier.2 (by simpa using hlater)⟩

theorem Journal.Allowed.mono {needs needs' : Journal → Property → Prop} {journal readings : Journal}
    (hallowed : Allowed needs journal readings)
    (himp : ∀ journal p, needs journal p → needs' journal p) :
    Allowed needs' journal readings := by
  induction readings generalizing journal with
  | nil => trivial
  | cons reading rest ih =>
    obtain ⟨⟨p, hname, hneeds⟩, hrest⟩ := hallowed
    exact ⟨⟨p, hname, himp _ _ hneeds⟩, ih hrest⟩

/-- An event is a warning about a property. -/
def Event.warnsAbout (p : Property) (e : Event) : Bool :=
  e.level = .warn ∧ e.fields = [⟨"property", .text p.name⟩]

theorem Event.warnsAbout_warning (p q : Property) (message : String) :
    (TimeoutConfiguration.warning q message).warnsAbout p = decide (p = q) := by
  simp [warnsAbout, TimeoutConfiguration.warning, Property.name_inj, eq_comm]

/-- The values of an assignment are those that were read first. -/
def Assignment.Fits (values : Assignment) (journal : Journal) : Prop :=
  ∀ p value, journal.first? p = some value → values p = value

theorem Journal.values_fits (journal later : Journal) :
    Journal.values (journal ++ later) |>.Fits journal := by
  intro p value hfirst
  simp [Journal.values, Journal.first?_append_of_some hfirst]

/-- A configuration keeps exactly what the journal says was read, nothing was read twice, and the
warnings since a log had some events are about the malformed values, one about each. -/
structure Settled (start : List Event) (journal : Journal) (c : Consultation S σ) : Prop where
  once : (journal.map Reading.name).Nodup
  durations : ∀ p, p.holdsDuration →
    c.config.durations.lookup p = (journal.first? p).map durationIn
  threadMode : c.config.threadMode = (journal.first? .threadMode).map threadModeIn
  warnings : ∀ p, c.log.countP (Event.warnsAbout p) =
    start.countP (Event.warnsAbout p) + if journal.malformed p then 1 else 0

namespace Settled

variable {start : List Event} {journal : Journal} {c c' : Consultation S σ} {p : Property}
  {value : Option String} {events : List Event}

/-- A property that was not read before is read and what it gives is kept. -/
theorem read_new (hc : Settled start journal c) (hnew : journal.first? p = none)
    (hdurations : ∀ q, q.holdsDuration → c'.config.durations.lookup q =
      if q = p then some (durationIn value) else c.config.durations.lookup q)
    (hthreadMode : c'.config.threadMode =
      if p = .threadMode then some (threadModeIn value) else c.config.threadMode)
    (hlog : c'.log = events ++ c.log)
    (hevents : ∀ q, events.countP (Event.warnsAbout q) =
      if q = p ∧ value.any fun text => !p.accepts text then 1 else 0) :
    Settled start (journal ++ [⟨p.name, value⟩]) c' := by
  have hfirst := Journal.first?_append_single hnew value
  refine ⟨?_, fun q hq => ?_, ?_, fun q => ?_⟩
  · have hfresh := Journal.first?_eq_none_iff.mp hnew
    simpa [List.nodup_append, hc.once] using hfresh
  · rw [hdurations q hq, hfirst, hc.durations q hq]
    split <;> rfl
  · rw [hthreadMode, hfirst, hc.threadMode]
    simp only [eq_comm (a := p)]
    split <;> rfl
  · have hmalformed : Journal.malformed (journal ++ [⟨p.name, value⟩]) q =
        if q = p then value.any fun text => !p.accepts text else journal.malformed q := by
      simp only [Journal.malformed, Journal.values, hfirst]
      split
      · rename_i h
        simp [h]
      · rfl
    rw [hlog, List.countP_append, hevents, hc.warnings, hmalformed]
    by_cases hq : q = p
    · subst hq
      have hold : journal.malformed q = false := by simp [Journal.malformed, Journal.values, hnew]
      simp [hold, Nat.add_comm]
    · simp [hq]

end Settled

namespace TimeoutConfiguration

theorem durationOfValue_fst (p : Property) (value : Option String) :
    (durationOfValue p value).1 = durationIn value := by
  cases value with
  | none => rfl
  | some text =>
    simp only [durationOfValue, durationIn, Option.bind_some]
    cases Duration.read text <;> rfl

theorem countP_durationOfValue {p : Property} (hp : p.holdsDuration) (value : Option String)
    (q : Property) :
    (durationOfValue p value).2.countP (Event.warnsAbout q) =
      if q = p ∧ value.any fun text => !p.accepts text then 1 else 0 := by
  cases value with
  | none => simp [durationOfValue]
  | some text =>
    have haccepts : p.accepts text = (Duration.read text).isOk := by
      cases p with
      | mode | threadMode => cases hp
      | default | ofCategory | ofKind => rfl
    simp only [durationOfValue, Option.any_some, haccepts]
    cases Duration.read text with
    | ok d => simp [Except.isOk, Except.toBool]
    | error e => simp [Except.isOk, Except.toBool, List.countP_cons, Event.warnsAbout_warning]

theorem threadModeOfValue_fst (value : Option String) :
    (threadModeOfValue value).1 = threadModeIn value := by
  cases value with
  | none => rfl
  | some text =>
    -- `simp` would first prove an equation for this case, and compute in the table of modes for it.
    unfold threadModeOfValue
    simp only [threadModeIn, Option.bind_some]
    rcases ThreadMode.read? text with _ | _ | _ | _ <;> simp [Option.filter]

theorem countP_threadModeOfValue (value : Option String) (q : Property) :
    (threadModeOfValue value).2.countP (Event.warnsAbout q) =
      if q = .threadMode ∧ value.any fun text => !Property.threadMode.accepts text
      then 1 else 0 := by
  cases value with
  | none => simp [threadModeOfValue.eq_def]
  | some text =>
    unfold threadModeOfValue
    rcases hread : ThreadMode.read? text with _ | _ | _ | _ <;>
      simp [Property.accepts, hread, List.countP_cons, Event.warnsAbout_warning]

theorem countP_modeOfValue (value : Option String) (q : Property) :
    (modeOfValue value).2.countP (Event.warnsAbout q) =
      if q = .mode ∧ value.any fun text => !Property.mode.accepts text then 1 else 0 := by
  cases value with
  | none => simp [modeOfValue.eq_def]
  | some text =>
    unfold modeOfValue
    cases hread : TimeoutMode.read? text <;>
      simp [Property.accepts, hread, List.countP_cons, Event.warnsAbout_warning]

end TimeoutConfiguration

/-! ## Every operation follows the policy -/

/-- A part of a consultation reads only what it needs, keeps what it reads and answers as a policy
does on the values that were read first. -/
structure Faithful {α : Type} (start : List Event) (needs : Journal → Property → Prop)
    (policy : Assignment → α) (c : Consultation S (σ × Journal))
    (result : α × Consultation S (σ × Journal)) : Prop where
  settled : Settled start result.2.state.2 result.2
  readings : ∃ readings : Journal, result.2.state.2 = c.state.2 ++ readings ∧
    Journal.Allowed needs c.state.2 readings
  answer : ∀ values : Assignment, values.Fits result.2.state.2 → result.1 = policy values

namespace Faithful

variable {α : Type} {start : List Event} {needs needs' : Journal → Property → Prop}
  {policy policy' : Assignment → α} {c c₁ : Consultation S (σ × Journal)}
  {result : α × Consultation S (σ × Journal)}

/-- A part that reads nothing. -/
theorem of_unread {a : α} (hc : Settled start c.state.2 c)
    (hanswer : ∀ values : Assignment, values.Fits c.state.2 → a = policy values) :
    Faithful start needs policy c (a, c) :=
  ⟨hc, ⟨[], by simp, trivial⟩, hanswer⟩

theorem mono (hresult : Faithful start needs policy c result)
    (himp : ∀ journal p, needs journal p → needs' journal p)
    (hpolicy : ∀ values : Assignment, values.Fits result.2.state.2 →
      policy values = policy' values) :
    Faithful start needs' policy' c result := by
  obtain ⟨readings, hgrow, hallowed⟩ := hresult.readings
  exact ⟨hresult.settled, ⟨readings, hgrow, hallowed.mono himp⟩,
    fun values hvalues => (hresult.answer values hvalues).trans (hpolicy values hvalues)⟩

/-- What comes after some readings that were needed. -/
theorem after {earlier : Journal} (hgrow : c₁.state.2 = c.state.2 ++ earlier)
    (hallowed : Journal.Allowed needs c.state.2 earlier)
    (hresult : Faithful start needs policy c₁ result) : Faithful start needs policy c result := by
  obtain ⟨later, hgrow', hlater⟩ := hresult.readings
  refine ⟨hresult.settled, ⟨earlier ++ later, ?_, hallowed.append (hgrow ▸ hlater)⟩, hresult.answer⟩
  rw [hgrow', hgrow, List.append_assoc]

end Faithful

namespace Consultation

variable {start : List Event} {needs : Journal → Property → Prop}
  {c : Consultation S (σ × Journal)} (read : S → String → σ → Option String × σ)

/-- A duration is the one in the value that was read first, and was read if it was needed. -/
theorem duration_faithful {p : Property} (hp : p.holdsDuration) (hc : Settled start c.state.2 c)
    (hneeds : needs c.state.2 p) :
    Faithful start needs (fun values => durationIn (values p)) c
        (c.duration (journaled read) p) ∧
      ∃ value, Journal.first? (c.duration (journaled read) p).2.state.2 p = some value ∧
        (c.duration (journaled read) p).1 = durationIn value := by
  have hlookup := hc.durations p hp
  cases hfirst : Journal.first? c.state.2 p with
  | some value =>
    have hsame : c.duration (journaled read) p = (durationIn value, c) := by
      simp [duration, hlookup, hfirst]
    rw [hsame]
    refine ⟨.of_unread hc fun values hvalues => ?_, value, hfirst, rfl⟩
    rw [hvalues p value hfirst]
  | none =>
    rcases hread : read c.config.source p.name c.state.1 with ⟨value, state⟩
    have hnone : c.config.durations.lookup p = none := by rw [hlookup, hfirst]; rfl
    have hresult : c.duration (journaled read) p = (durationIn value,
        ⟨{ c.config with durations := c.config.durations ++ [(p, durationIn value)] },
          (state, c.state.2 ++ [⟨p.name, value⟩]),
          (TimeoutConfiguration.durationOfValue p value).2 ++ c.log⟩) := by
      simp [duration, hnone, ask, journaled, hread, ← TimeoutConfiguration.durationOfValue_fst p]
    have hnew := Journal.first?_append_single hfirst value p
    rw [if_pos rfl] at hnew
    rw [hresult]
    refine ⟨⟨?_, ⟨[⟨p.name, value⟩], rfl, ⟨p, rfl, hneeds⟩, trivial⟩, fun values hvalues => ?_⟩,
      value, hnew, rfl⟩
    · refine hc.read_new hfirst (fun q _ => ?_) ?_ rfl
        (TimeoutConfiguration.countP_durationOfValue hp value)
      · by_cases hq : q = p
        · subst hq
          simp [List.lookup_append, hnone]
        · simp [List.lookup_append, List.lookup_cons, beq_false_of_ne hq, hq]
      · have hother : p ≠ .threadMode := by rintro rfl; cases hp
        simp [hother]
    · rw [hvalues p value hnew]

theorem defaultThreadMode_faithful (hc : Settled start c.state.2 c)
    (hneeds : needs c.state.2 .threadMode) :
    Faithful start needs Assignment.defaultThreadMode c
      (c.defaultThreadMode (journaled read)) := by
  cases hfirst : Journal.first? c.state.2 .threadMode with
  | some value =>
    have hsame : c.defaultThreadMode (journaled read) = (threadModeIn value, c) := by
      simp [defaultThreadMode, hc.threadMode, hfirst]
    rw [hsame]
    refine .of_unread hc fun values hvalues => ?_
    rw [Assignment.defaultThreadMode, hvalues _ value hfirst]
  | none =>
    rcases hread : read c.config.source Property.threadMode.name c.state.1 with ⟨value, state⟩
    have hnone : c.config.threadMode = none := by rw [hc.threadMode, hfirst]; rfl
    have hresult : c.defaultThreadMode (journaled read) = (threadModeIn value,
        ⟨{ c.config with threadMode := some (threadModeIn value) },
          (state, c.state.2 ++ [⟨Property.threadMode.name, value⟩]),
          (TimeoutConfiguration.threadModeOfValue value).2 ++ c.log⟩) := by
      simp [defaultThreadMode, hnone, ask, journaled, hread,
        ← TimeoutConfiguration.threadModeOfValue_fst]
    have hnew := Journal.first?_append_single hfirst value .threadMode
    rw [if_pos rfl] at hnew
    rw [hresult]
    refine ⟨?_, ⟨[⟨Property.threadMode.name, value⟩], rfl, ⟨_, rfl, hneeds⟩, trivial⟩,
      fun values hvalues => ?_⟩
    · refine hc.read_new hfirst (fun q hq => ?_) rfl rfl
        (TimeoutConfiguration.countP_threadModeOfValue value)
      have hother : q ≠ .threadMode := by rintro rfl; cases hq
      simp [hother]
    · rw [Assignment.defaultThreadMode, hvalues _ value hnew]

theorem chooseThreadMode_faithful (declared : ThreadMode) (hc : Settled start c.state.2 c)
    (hneeds : declared = .inferred → needs c.state.2 .threadMode) :
    Faithful start needs (fun values => values.threadModeFor declared) c
      (c.chooseThreadMode (journaled read) declared) := by
  cases declared with
  | inferred =>
    have hdefault := defaultThreadMode_faithful read hc (hneeds rfl)
    exact ⟨hdefault.settled, hdefault.readings, fun values hvalues =>
      congrArg (fun mode => Option.getD mode ThreadMode.sameThread) (hdefault.answer values hvalues)⟩
  | sameThread => exact .of_unread hc fun _ _ => rfl
  | separateThread => exact .of_unread hc fun _ _ => rfl

/-- The durations of the properties of a kind are asked for up to the first one that there is, after
those of the more specific properties have failed. -/
theorem firstDuration_faithful {kind : Kind} {done rest : List Property}
    (hchain : kind.properties = done ++ rest) (hc : Settled start c.state.2 c)
    (hdone : ∀ p ∈ done, Journal.Failed c.state.2 p) :
    Faithful start kind.Reaches
      (fun values => rest.findSome? fun p => durationIn (values p)) c
      (c.firstDuration (journaled read) rest) := by
  induction rest generalizing done c with
  | nil => exact .of_unread hc fun _ _ => rfl
  | cons p rest ih =>
    have hmem : p ∈ kind.properties := by simp [hchain]
    have hp : p.holdsDuration := Property.holdsDuration_of_mem_properties hmem
    have hreached : kind.Reaches c.state.2 p := ⟨done, rest, hchain, hdone⟩
    obtain ⟨hfaithful, value, hfirst, hvalue⟩ := duration_faithful read hp hc hreached
    rcases hduration : c.duration (journaled read) p with ⟨d, c₁⟩
    rw [hduration] at hfaithful hfirst hvalue
    obtain ⟨readings, hgrow, hallowed⟩ := hfaithful.readings
    cases d with
    | some d =>
      simp only [firstDuration, hduration]
      refine ⟨hfaithful.settled, hfaithful.readings, fun values hvalues => ?_⟩
      simp [← hfaithful.answer values hvalues]
    | none =>
      have hchain' : kind.properties = done ++ [p] ++ rest := by simp [hchain]
      have hlater := ih hchain' hfaithful.settled fun q hq => by
        rcases List.mem_append.mp hq with hq | hq
        · obtain ⟨old, hold, hnone⟩ := hdone q hq
          exact ⟨old, hgrow ▸ Journal.first?_append_of_some hold readings, hnone⟩
        · rw [List.mem_singleton.mp hq]
          exact ⟨value, hfirst, hvalue.symm⟩
      obtain ⟨later, hgrow', -⟩ := hlater.readings
      simp only [firstDuration, hduration]
      refine (hlater.after hgrow hallowed).mono (fun _ _ h => h) fun values hvalues => ?_
      have hread : values p = value :=
        hvalues p value (hgrow' ▸ Journal.first?_append_of_some hfirst later)
      simp [hread, ← hvalue]

theorem timeoutFor_faithful (kind : Kind) (hc : Settled start c.state.2 c) :
    Faithful start kind.Reaches (fun values => values.timeoutFor kind) c
      (c.timeoutFor (journaled read) kind) := by
  have hchain : kind.properties = [] ++ kind.properties := rfl
  exact (firstDuration_faithful read hchain hc (by simp)).mono (fun _ _ h => h) fun values _ =>
    (values.timeoutFor_eq kind).symm

theorem resolve_faithful (kind : Kind) (declared : Option DeclaredTimeout)
    (hc : Settled start c.state.2 c) :
    Faithful start (Inquiry.resolve kind declared).Needs
      (fun values => values.resolve kind declared) c
      (c.resolve (journaled read) kind declared) := by
  cases declared with
  | some declared =>
    have hmode : Faithful start (Inquiry.resolve kind (some declared)).Needs _ c _ :=
      chooseThreadMode_faithful read declared.threadMode hc fun hinferred => .inr ⟨rfl, hinferred⟩
    refine ⟨hmode.settled, hmode.readings, fun values hvalues => ?_⟩
    simp only [resolve, Assignment.resolve, hmode.answer values hvalues]
  | none =>
    have hduration : Faithful start (Inquiry.resolve kind none).Needs
        (fun values => values.timeoutFor kind) c (c.timeoutFor (journaled read) kind) :=
      (timeoutFor_faithful read kind hc).mono (fun _ _ h => .inl ⟨kind, rfl, h⟩) fun _ _ => rfl
    rcases hfirst : c.timeoutFor (journaled read) kind with ⟨d, c₁⟩
    rw [hfirst] at hduration
    cases d with
    | none =>
      simp only [resolve, hfirst]
      refine ⟨hduration.settled, hduration.readings, fun values hvalues => ?_⟩
      simp [Assignment.resolve, ← hduration.answer values hvalues]
    | some d =>
      obtain ⟨readings, hgrow, hallowed⟩ := hduration.readings
      have hfound := hduration.answer _ (by simpa using Journal.values_fits c₁.state.2 [])
      have hneeds : (Inquiry.resolve kind none).Needs c₁.state.2 .threadMode :=
        .inr ⟨rfl, by simp [Inquiry.NeedsThreadMode, ← hfound]⟩
      have hmode := chooseThreadMode_faithful read .inferred hduration.settled fun _ => hneeds
      have hboth := hmode.after hgrow hallowed
      obtain ⟨later, hgrow', -⟩ := hmode.readings
      simp only [resolve, hfirst]
      refine ⟨hboth.settled, hboth.readings, fun values hvalues => ?_⟩
      have hearlier : values.Fits c₁.state.2 := fun p value hp =>
        hvalues p value (hgrow' ▸ Journal.first?_append_of_some hp later)
      simp [Assignment.resolve, ← hduration.answer values hearlier,
        ← hmode.answer values hvalues]

end Consultation

/-- A question to a settled configuration reads only what it needs and is answered as the policy says,
and leaves the configuration settled. -/
theorem Inquiry.ask_faithful {start : List Event} (read : S → String → σ → Option String × σ)
    (q : Inquiry) {c : Consultation S (σ × Journal)} (hc : Settled start c.state.2 c) :
    Faithful start q.Needs (fun values => values.answer q) c (q.ask (journaled read) c) := by
  cases q with
  | timeoutFor kind =>
    exact (Consultation.timeoutFor_faithful read kind hc).mono
      (fun _ _ h => .inl ⟨kind, rfl, h⟩) fun _ _ => rfl
  | defaultThreadMode => exact Consultation.defaultThreadMode_faithful read hc (.inr ⟨rfl, trivial⟩)
  | resolve kind declared => exact Consultation.resolve_faithful read kind declared hc

/-! ## Conversations follow the policy -/

theorem Settled.withJournal {start : List Event} {journal : Journal} {c : Consultation S σ}
    (hc : Settled start journal c) : Settled start journal (c.withJournal journal) :=
  ⟨hc.once, hc.durations, hc.threadMode, hc.warnings⟩

theorem Settled.of_withJournal {start : List Event} {journal later : Journal}
    {c : Consultation S σ} (hc : Settled start journal (c.withJournal later)) :
    Settled start journal c :=
  ⟨hc.once, hc.durations, hc.threadMode, hc.warnings⟩

/-- One exchange, whatever has become of the source. -/
theorem Inquiry.exchange_faithful {start : List Event} {journal : Journal}
    (read : S → String → σ → Option String × σ) (q : Inquiry) {c : Consultation S σ}
    (hc : Settled start journal c) :
    Settled start (journal ++ q.readings read c) (q.ask read c).2 ∧
      Journal.Allowed q.Needs journal (q.readings read c) ∧
      ∀ values : Assignment, values.Fits (journal ++ q.readings read c) →
        (q.ask read c).1 = values.answer q := by
  have hfaithful := q.ask_faithful read (c := c.withJournal journal) hc.withJournal
  rw [q.ask_journaled read c journal] at hfaithful
  obtain ⟨readings, hgrow, hallowed⟩ := hfaithful.readings
  have hsame : q.readings read c = readings := List.append_cancel_left hgrow
  exact ⟨hfaithful.settled.of_withJournal, hsame ▸ hallowed, hfaithful.answer⟩

namespace Consultation

variable {start : List Event} {journal : Journal} (read : S → String → σ → Option String × σ)

theorem converse_inquiries (turns : List (Turn σ)) (c : Consultation S σ) :
    (c.converse read turns).1.map Exchange.inquiry = turns.map Turn.inquiry := by
  induction turns generalizing c with
  | nil => rfl
  | cons turn rest ih => simp [converse, ih]

theorem converse_faithful (turns : List (Turn σ)) {c : Consultation S σ}
    (hc : Settled start journal c) :
    let exchanges := (c.converse read turns).1
    let final := journal ++ exchanges.flatMap Exchange.readings
    Settled start final (c.converse read turns).2 ∧
      Exchange.ReadWhatIsNeeded journal exchanges ∧
      ∀ values : Assignment, values.Fits final →
        ∀ e ∈ exchanges, e.answer = values.answer e.inquiry := by
  induction turns generalizing journal c with
  | nil => exact ⟨by simpa [converse] using hc, trivial, by simp [converse]⟩
  | cons turn rest ih =>
    let asked : Consultation S σ := { c with state := turn.meanwhile c.state }
    have hasked : Settled start journal asked :=
      ⟨hc.once, hc.durations, hc.threadMode, hc.warnings⟩
    obtain ⟨hafter, hallowed, hanswer⟩ := turn.inquiry.exchange_faithful read hasked
    obtain ⟨hlast, hneeded, hanswers⟩ := ih hafter
    refine ⟨by simpa [converse] using hlast, ⟨hallowed, hneeded⟩, fun values hvalues e he => ?_⟩
    simp only [converse, List.flatMap_cons, ← List.append_assoc] at hvalues
    rcases List.mem_cons.mp he with rfl | he
    · exact hanswer values fun p value hp =>
        hvalues p value (Journal.first?_append_of_some hp _)
    · exact hanswers values hvalues e he

end Consultation

/-! ## What a question needs is read -/

namespace Assignment

variable {journal : Journal} {p : Property}

/-- A property that was not read may have any value. -/
theorem fits_update (hunread : journal.first? p = none) (value : Option String) :
    Assignment.Fits (Function.update journal.values p value) journal := by
  intro q read hread
  have hother : q ≠ p := by
    rintro rfl
    simp [hunread] at hread
  simp [Function.update_of_ne hother, Journal.values, hread]

/-- Once the more specific properties have failed, a property that was not read would decide about the
duration. -/
theorem timeoutFor_update {kind : Kind} (hreached : kind.Reaches journal p)
    (hunread : journal.first? p = none) {text : String} {d : Duration}
    (htext : durationIn (some text) = some d) :
    Assignment.timeoutFor (Function.update journal.values p (some text)) kind = some d := by
  obtain ⟨before, after, hchain, hfailed⟩ := hreached
  have hnone : ∀ b ∈ before,
      durationIn (Function.update journal.values p (some text) b) = none := by
    intro b hb
    obtain ⟨value, hread, hvalue⟩ := hfailed b hb
    rwa [fits_update hunread (some text) b value hread]
  rw [timeoutFor_eq, hchain, List.findSome?_append, List.findSome?_eq_none_iff.mpr hnone]
  simp [htext]

end Assignment

/-- An answer that is the one of the policy whatever the properties are that were not read does not come
without reading what the question needs. -/
theorem Inquiry.read_of_needs {journal : Journal} {q : Inquiry} {a : q.Answer} {p : Property}
    (hanswer : ∀ values : Assignment, values.Fits journal → a = values.answer q)
    (hneeds : q.Needs journal p) : journal.first? p ≠ none := by
  intro hunread
  have hsame (text text' : String) :
      Assignment.answer (Function.update journal.values p (some text)) q =
        Assignment.answer (Function.update journal.values p (some text')) q :=
    (hanswer _ (Assignment.fits_update hunread _)).symm.trans
      (hanswer _ (Assignment.fits_update hunread _))
  rcases hneeds with ⟨kind, hkind, hreached⟩ | ⟨rfl, hmode⟩
  · -- One second and two seconds would give different answers.
    have hone : Assignment.timeoutFor (Function.update journal.values p (some "1 s")) kind =
        some ⟨1, .seconds, by decide, by decide⟩ :=
      Assignment.timeoutFor_update hreached hunread (by decide)
    have htwo : Assignment.timeoutFor (Function.update journal.values p (some "2 s")) kind =
        some ⟨2, .seconds, by decide, by decide⟩ :=
      Assignment.timeoutFor_update hreached hunread (by decide)
    have hdiffer := hsame "1 s" "2 s"
    cases q with
    | timeoutFor kind' =>
      cases hkind
      simp [Assignment.answer, hone, htwo] at hdiffer
    | defaultThreadMode => cases hkind
    | resolve kind' declared =>
      cases declared with
      | some declared => cases hkind
      | none =>
        cases hkind
        simp [Assignment.answer, Assignment.resolve, hone, htwo] at hdiffer
  · -- So would the two thread modes.
    have hdiffer := hsame "same_thread" "separate_thread"
    have hsameThread : threadModeIn (some "same_thread") = some .sameThread := by decide
    have hseparate : threadModeIn (some "separate_thread") = some .separateThread := by decide
    cases q with
    | timeoutFor kind => exact hmode
    | defaultThreadMode =>
      simp [Assignment.answer, Assignment.defaultThreadMode, hsameThread, hseparate] at hdiffer
    | resolve kind declared =>
      cases declared with
      | some declared =>
        have hinferred : declared.threadMode = .inferred := hmode
        simp [Assignment.answer, Assignment.resolve, Assignment.threadModeFor,
          Assignment.defaultThreadMode, hinferred, hsameThread, hseparate] at hdiffer
      | none =>
        have hduration (value : Option String) :
            Assignment.timeoutFor (Function.update journal.values .threadMode value) kind =
              journal.values.timeoutFor kind := by
          simp [Assignment.timeoutFor]
        obtain ⟨d, hd⟩ := Option.ne_none_iff_exists'.mp hmode
        simp [Assignment.answer, Assignment.resolve, Assignment.threadModeFor, hduration, hd,
          Assignment.defaultThreadMode, hsameThread, hseparate] at hdiffer

/-- The readings that are made when a configuration is made. -/
def TimeoutConfiguration.readings (read : S → String → σ → Option String × σ)
    (probe : σ → Bool × σ) (source : S) (state : σ) : Journal :=
  let unseen : σ × Journal → Bool × (σ × Journal) := fun (state, journal) =>
    let (answer, state) := probe state
    (answer, (state, journal))
  (new (journaled read) unseen source (state, []) []).state.2

theorem TimeoutConfiguration.readings_eq (read : S → String → σ → Option String × σ)
    (probe : σ → Bool × σ) (source : S) (state : σ) :
    readings read probe source state =
      [⟨Property.mode.name, (read source Property.mode.name state).1⟩] := by
  simp only [readings, new, journaled]
  cases (modeOfValue (read source Property.mode.name state).1).1 <;> rfl

theorem TimeoutConfiguration.new_settled (read : S → String → σ → Option String × σ)
    (probe : σ → Bool × σ) (source : S) (state : σ) (log : List Event) :
    Settled log (readings read probe source state) (new read probe source state log) := by
  have hempty : Settled log [] (⟨⟨source, false, [], none⟩, state, log⟩ : Consultation S σ) :=
    ⟨List.nodup_nil, fun _ _ => rfl, rfl, fun p => by
      simp [Journal.malformed, Journal.values, Journal.first?]⟩
  let value := (read source Property.mode.name state).1
  obtain ⟨mode, disabled, hlog⟩ : ∃ mode disabled, (new read probe source state log).log =
      (modeEvent mode disabled :: (modeOfValue value).2) ++ log := ⟨_, _, rfl⟩
  rw [readings_eq]
  refine hempty.read_new (p := .mode) rfl (fun q hq => ?_) rfl hlog fun q => ?_
  · have hother : q ≠ .mode := by rintro rfl; cases hq
    simp [new, hother]
  · rw [List.countP_cons, countP_modeOfValue]
    simp [Event.warnsAbout, modeEvent, value]

/-- Whatever the source answers and however it changes, and whatever a configuration is asked in
whatever order: no property is read twice or before it is needed, and none is left unread that is needed.
Every answer is the one of the policy on the values that were read first, whatever the other properties
may be. There is one warning for each malformed value. -/
theorem configuration_refines_policy (read : S → String → σ → Option String × σ)
    (probe : σ → Bool × σ) (source : S) (state : σ) (log : List Event) (turns : List (Turn σ)) :
    let opening := TimeoutConfiguration.new read probe source state log
    let exchanges := (opening.converse read turns).1
    let last := (opening.converse read turns).2
    let unasked := TimeoutConfiguration.readings read probe source state
    let journal : Journal := unasked ++ exchanges.flatMap Exchange.readings
    exchanges.map Exchange.inquiry = turns.map Turn.inquiry ∧
    (journal.map Reading.name).Nodup ∧
    Journal.Allowed (fun _ p => p = .mode) [] unasked ∧
    Exchange.ReadWhatIsNeeded unasked exchanges ∧
    (∀ e ∈ exchanges, ∀ p, e.inquiry.Needs journal p → journal.first? p ≠ none) ∧
    (∀ values : Assignment, values.Fits journal →
      ∀ e ∈ exchanges, e.answer = values.answer e.inquiry) ∧
    (∀ q a b readings readings', ⟨q, a, readings⟩ ∈ exchanges → ⟨q, b, readings'⟩ ∈ exchanges →
      a = b) ∧
    ∀ p, last.log.countP (Event.warnsAbout p) =
      log.countP (Event.warnsAbout p) + if journal.malformed p then 1 else 0 := by
  intro opening exchanges last unasked journal
  obtain ⟨hsettled, hneeded, hanswers⟩ := Consultation.converse_faithful read turns
    (TimeoutConfiguration.new_settled read probe source state log)
  have hpolicy : ∀ e ∈ exchanges, e.answer = journal.values.answer e.inquiry :=
    hanswers journal.values (by simpa using journal.values_fits [])
  refine ⟨opening.converse_inquiries read turns, hsettled.once, ?_, hneeded, ?_, hanswers, ?_,
    hsettled.warnings⟩
  · rw [show unasked = _ from TimeoutConfiguration.readings_eq read probe source state]
    exact ⟨⟨.mode, rfl, rfl⟩, trivial⟩
  · exact fun e he p hneeds => Inquiry.read_of_needs (fun values hfits => hanswers values hfits e he)
      hneeds
  · intro q a b _ _ ha hb
    exact (hpolicy _ ha).trans (hpolicy _ hb).symm

end TimedInvocation
