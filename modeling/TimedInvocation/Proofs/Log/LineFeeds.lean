import TimedInvocation.Error.Invocation
import TimedInvocation.Extension
import TimedInvocation.Timeout.Configuration

/-!
# Line feeds in what is shown

How many line feeds a text has, for everything that log events show. Numbers, measured times and quoted texts
have none. What describes an executable, a key or an error has those of the texts that it is made of: names,
types and messages, which are shown as they are.
-/

namespace TimedInvocation

namespace Text

def lineFeeds (s : String) : Nat :=
  s.toList.count '\n'

/-- The number of line feeds in several texts. -/
@[simp]
def lineFeedsIn : List String → Nat
  | [] => 0
  | text :: rest => lineFeeds text + lineFeedsIn rest

theorem lineFeeds_eq_zero {s : String} : lineFeeds s = 0 ↔ '\n' ∉ s.toList :=
  List.count_eq_zero

@[simp]
theorem lineFeeds_append (s t : String) : lineFeeds (s ++ t) = lineFeeds s + lineFeeds t := by
  simp [lineFeeds]

@[simp]
theorem lineFeedsIn_append (texts others : List String) :
    lineFeedsIn (texts ++ others) = lineFeedsIn texts + lineFeedsIn others := by
  induction texts with
  | nil => simp
  | cons text rest ih => simp [ih, Nat.add_assoc]

theorem lineFeedsIn_eq_zero {texts : List String} :
    lineFeedsIn texts = 0 ↔ ∀ text ∈ texts, '\n' ∉ text.toList := by
  induction texts with
  | nil => simp
  | cons text rest ih => simp [lineFeeds_eq_zero, ih]

@[simp]
theorem lineFeeds_join (texts : List String) : lineFeeds (String.join texts) = lineFeedsIn texts := by
  induction texts with
  | nil => rfl
  | cons text rest ih => simp [ih]

theorem lineFeeds_intercalate {separator : String} (hseparator : lineFeeds separator = 0)
    (texts : List String) : lineFeeds (separator.intercalate texts) = lineFeedsIn texts := by
  induction texts with
  | nil => simp [lineFeeds]
  | cons text rest ih =>
      cases rest with
      | nil => simp
      | cons next rest => simp [hseparator, ih]

/-- Texts that are written out have no line feeds unless one is among their characters. -/
theorem lineFeeds_literal {characters : List Char} (hplain : '\n' ∉ characters) :
    lineFeeds (String.ofList characters) = 0 := by
  rw [lineFeeds_eq_zero, String.toList_ofList]
  exact hplain

theorem exists_digitChar_of_mem_toDigits {b n : Nat} {c : Char} (hb : 1 < b) (hc : c ∈ b.toDigits n) :
    ∃ d, c = Nat.digitChar d := by
  induction n using Nat.strongRecOn with
  | ind n ih =>
      rw [Nat.toDigits_eq_if hb] at hc
      split at hc
      · exact ⟨n, List.mem_singleton.mp hc⟩
      · next hlarge =>
          rcases List.mem_append.mp hc with hfront | hlast
          · exact ih (n / b) (Nat.div_lt_self (by omega) hb) hfront
          · exact ⟨n % b, List.mem_singleton.mp hlast⟩

theorem digitChar_ne_lineFeed (d : Nat) : Nat.digitChar d ≠ '\n' := by
  rcases Nat.lt_or_ge d 16 with hdigit | hlarge
  · exact (by decide : ∀ d < 16, Nat.digitChar d ≠ '\n') d hdigit
  · have hstar : Nat.digitChar d = '*' := by
      unfold Nat.digitChar
      repeat rw [if_neg (by omega)]
    rw [hstar]
    decide

theorem lineFeed_not_mem_toDigits {b : Nat} (hb : 1 < b) (n : Nat) : '\n' ∉ b.toDigits n := by
  intro hmem
  obtain ⟨d, hd⟩ := exists_digitChar_of_mem_toDigits hb hmem
  exact digitChar_ne_lineFeed d hd.symm

@[simp]
theorem lineFeeds_repr (n : Nat) : lineFeeds n.repr = 0 := by
  rw [lineFeeds_eq_zero]
  simpa using lineFeed_not_mem_toDigits (b := 10) (by decide) n

@[simp]
theorem lineFeeds_quantity (span : Span) : lineFeeds span.quantity = 0 := by
  rw [lineFeeds_eq_zero]
  intro hmem
  rcases span.isDigit_or_mem_of_mem_quantity hmem with hdigit | hunit
  · exact absurd hdigit (by decide)
  · exact absurd hunit (by decide)

theorem lineFeed_not_mem_quoteChar (c : Char) : '\n' ∉ quoteChar c := by
  have hhex : '\n' ∉ hexDigits c.toNat := lineFeed_not_mem_toDigits (by decide) _
  by_cases hfeed : c = '\n'
  · subst hfeed
    decide
  · unfold quoteChar
    -- every other character has an escape without a line feed, or stands for itself
    repeat' split
    all_goals simp [hhex, Ne.symm hfeed]

@[simp]
theorem lineFeeds_quote (s : String) : lineFeeds (quote s) = 0 := by
  rw [lineFeeds_eq_zero]
  simp [quote, lineFeed_not_mem_quoteChar]

/-- Several texts that are composed of further texts have the line feeds of all of these. -/
theorem lineFeedsIn_map {α : Type} {show_ : α → String} {texts : α → List String}
    (htexts : ∀ a, lineFeeds (show_ a) = lineFeedsIn (texts a)) (list : List α) :
    lineFeedsIn (list.map show_) = lineFeedsIn (list.flatMap texts) := by
  induction list with
  | nil => rfl
  | cons a rest ih => simp [htexts, ih]

end Text

open Text

/-! ## Names and keys -/

/-- The texts that describe a parameter. -/
def Parameter.texts (p : Parameter) : List String :=
  [p.name, p.type.name]

@[simp]
theorem Parameter.lineFeeds_describe (p : Parameter) : lineFeeds p.describe = lineFeedsIn p.texts := by
  simp [describe, texts]
  rfl

/-- The texts that describe an executable. -/
def Executable.texts (x : Executable) : List String :=
  x.declaringType :: x.name :: x.parameters.flatMap Parameter.texts

@[simp]
theorem Executable.lineFeeds_signature (x : Executable) : lineFeeds x.signature = lineFeedsIn x.texts := by
  have hparameters : lineFeeds (", ".intercalate (x.parameters.map Parameter.describe)) =
      lineFeedsIn (x.parameters.flatMap Parameter.texts) := by
    rw [lineFeeds_intercalate rfl, lineFeedsIn_map Parameter.lineFeeds_describe]
  simp only [signature, lineFeeds_append, hparameters]
  repeat rw [lineFeeds_literal]
  · simp [texts]
    omega
  all_goals decide

@[simp]
theorem Executable.lineFeeds_describe (x : Executable) : lineFeeds x.describe = lineFeedsIn x.texts := by
  have hkind : lineFeeds x.kind.name = 0 := by cases x.kind <;> rfl
  simp only [describe, lineFeeds_append, lineFeeds_signature, hkind]
  repeat rw [lineFeeds_literal]
  · simp
  all_goals decide

/-- The texts that describe a key. -/
def Key.texts (k : Key) : List String :=
  k.name :: k.scope.parts

theorem Namespace.lineFeeds_describe (n : Namespace) : lineFeeds n.describe = lineFeedsIn n.parts := by
  unfold describe
  split
  · next hglobal =>
      rw [List.isEmpty_iff.mp hglobal]
      rfl
  · rw [lineFeeds_append, lineFeeds_append, lineFeeds_intercalate rfl]
    repeat rw [lineFeeds_literal]
    · simp
    all_goals decide

theorem Key.lineFeeds_describe (k : Key) : lineFeeds k.describe = lineFeedsIn k.texts := by
  simp only [describe, lineFeeds_append, Namespace.lineFeeds_describe]
  repeat rw [lineFeeds_literal]
  · simp [texts]
  all_goals decide

@[simp]
theorem Extension.lineFeeds_describe {Code : Reply → Type} (e : Extension Code) :
    lineFeeds e.describe = lineFeeds e.name := by
  have hmark : lineFeeds "#" = 0 := rfl
  simp [describe, hmark]

/-! ## Errors -/

/-- The texts that describe the parameter of an error. -/
def ParameterSummary.texts (p : ParameterSummary) : List String :=
  p.parameter.texts ++ p.executable.texts

theorem ParameterSummary.lineFeeds_describe (p : ParameterSummary) :
    lineFeeds p.describe = lineFeedsIn p.texts := by
  delta describe
  simp only [lineFeeds_append, Nat.toString_eq_repr, lineFeeds_repr, Parameter.lineFeeds_describe,
    Executable.lineFeeds_describe]
  repeat rw [lineFeeds_literal]
  · simp [texts]
  all_goals decide

/-- The texts that the message of an error of resolution shows. -/
def ResolutionError.texts (e : ResolutionError) : List String :=
  e.target.texts ++ match e.cause with
    | .noResolver => []
    | .ambiguousResolvers resolvers => resolvers
    | .primitiveNull resolver => [resolver, e.target.parameter.type.name]
    | .typeMismatch resolver actual => [resolver, actual.name, e.target.parameter.type.name]
    | .resolverFailed error => if Text.isBlankText error.message then [] else [error.message]

theorem ResolutionError.lineFeeds_message (e : ResolutionError) :
    lineFeeds e.message = lineFeedsIn e.texts := by
  obtain ⟨target, cause⟩ := e
  have htarget := target.lineFeeds_describe
  cases cause with
  | noResolver =>
      simp only [message, lineFeeds_append, htarget]
      repeat rw [lineFeeds_literal]
      · simp [texts]
      all_goals decide
  | ambiguousResolvers resolvers =>
      have hresolvers : lineFeeds (", ".intercalate resolvers) = lineFeedsIn resolvers :=
        lineFeeds_intercalate rfl resolvers
      simp only [message, lineFeeds_append, htarget, hresolvers]
      repeat rw [lineFeeds_literal]
      · simp [texts]
      all_goals decide
  | primitiveNull resolver =>
      simp only [message, lineFeeds_append, htarget]
      repeat rw [lineFeeds_literal]
      · simp [texts]
        omega
      all_goals decide
  | typeMismatch resolver actual =>
      simp only [message, lineFeeds_append, htarget]
      repeat rw [lineFeeds_literal]
      · simp [texts]
        omega
      all_goals decide
  | resolverFailed error =>
      simp only [message, lineFeeds_append, htarget]
      by_cases hblank : Text.isBlankText error.message
      · simp only [hblank, ↓reduceIte]
        repeat rw [lineFeeds_literal]
        · simp [texts, hblank]
        all_goals decide
      · simp only [hblank, Bool.false_eq_true, ↓reduceIte, lineFeeds_append]
        repeat rw [lineFeeds_literal]
        · simp [texts, hblank]
        all_goals decide

@[simp]
theorem Duration.lineFeeds_describe (d : Duration) : lineFeeds d.describe = 0 := by
  have hunit : lineFeeds d.unit.singular = 0 := by cases d.unit <;> rfl
  have hplural : lineFeeds (if d.magnitude = 1 then "" else "s") = 0 := by split <;> rfl
  have hspace : lineFeeds " " = 0 := rfl
  simp [describe, hunit, hplural, hspace]

/-- The text that could not be read as a timeout. -/
def DurationError.input : DurationError → String
  | invalidFormat input | overflow input => input

@[simp]
theorem DurationError.lineFeeds_message (e : DurationError) : lineFeeds e.message = lineFeeds e.input := by
  cases e <;> delta message <;>
  · simp only [lineFeeds_append]
    repeat rw [lineFeeds_literal]
    · simp [input]
    all_goals decide

/-- A complaint that lists the known words has a line feed before them. -/
theorem lineFeeds_complaint {lead : String} {words : List String} (hlead : lineFeeds lead = 0)
    (hwords : lineFeedsIn words = 0) (value : String) :
    lineFeeds (lead ++ value ++ "\n(known values: " ++ ", ".intercalate words ++ ")") =
      lineFeeds value + 1 := by
  have hlisting : lineFeeds "\n(known values: " = 1 := rfl
  have hclosing : lineFeeds ")" = 0 := rfl
  have hjoined : lineFeeds (", ".intercalate words) = 0 := by
    rw [lineFeeds_intercalate rfl, hwords]
  simp only [lineFeeds_append, hlead, hlisting, hjoined, hclosing]
  omega

@[simp]
theorem TimeoutMode.lineFeeds_unknownMessage (value : String) :
    lineFeeds (unknownMessage value) = lineFeeds value + 1 :=
  lineFeeds_complaint rfl rfl value

@[simp]
theorem ThreadMode.lineFeeds_unknownMessage (value : String) :
    lineFeeds (unknownMessage value) = lineFeeds value + 1 :=
  lineFeeds_complaint rfl rfl value

@[simp]
theorem TimeoutMode.lineFeeds_name (mode : TimeoutMode) : lineFeeds mode.name = 0 := by
  cases mode <;> rfl

@[simp]
theorem ThreadMode.lineFeeds_word (mode : ThreadMode) : lineFeeds mode.word = 0 := by
  cases mode <;> rfl

@[simp]
theorem Text.lineFeeds_toString_bool (b : Bool) : lineFeeds (toString b) = 0 := by
  cases b <;> rfl

@[simp]
theorem Kind.lineFeeds_name (kind : Kind) : lineFeeds kind.name = 0 := by
  cases kind <;> rfl

/-- The texts that the message of an error of an invocation shows. -/
def InvocationError.texts : InvocationError → List String
  | resolution error => error.texts
  | callback name extension _ => [name, extension]
  | timeout _ | cancelled _ | store _ | workerSpawn _ | action _ => []

@[simp]
theorem InvocationError.lineFeeds_message (e : InvocationError) :
    lineFeeds e.message = lineFeedsIn e.texts := by
  cases e with
  | resolution error => exact error.lineFeeds_message
  | timeout error =>
      simp only [message, TimeoutError.message, lineFeeds_append, Kind.lineFeeds_name,
        Duration.lineFeeds_describe]
      repeat rw [lineFeeds_literal]
      · simp [texts]
      all_goals decide
  | cancelled kind =>
      simp only [message, lineFeeds_append, Kind.lineFeeds_name]
      repeat rw [lineFeeds_literal]
      · simp [texts]
      all_goals decide
  | callback name extension error =>
      simp only [message, lineFeeds_append]
      repeat rw [lineFeeds_literal]
      · simp [texts]
      all_goals decide
  | store | workerSpawn | action =>
      simp only [message]
      rw [lineFeeds_literal]
      · simp [texts]
      · decide

@[simp]
theorem CleanupError.lineFeeds_message (e : CleanupError) :
    lineFeeds e.message = lineFeedsIn e.key.texts := by
  delta message
  simp only [lineFeeds_append, Key.lineFeeds_describe]
  repeat rw [lineFeeds_literal]
  · simp
  all_goals decide

end TimedInvocation
