import TimedInvocation.Proofs.Log.LineFeeds
import TimedInvocation.Proofs.Log.Notices

/-!
# Entries of the log

An entry has one line feed at its end. Before that it has those of the message and of the fields that are
shown, while the texts that are quoted have none. The only text of the library's own with a line feed is the
list of known values in the complaint about a mode; all others come from the texts that an event is about.
-/

namespace TimedInvocation

open Text

/-- What a field shows as it is, if it does so. -/
@[simp]
def FieldValue.shown? : FieldValue → Option String
  | shown s => some s
  | text _ | measured _ => none

theorem FieldValue.lineFeeds_write (value : FieldValue) :
    lineFeeds value.write = lineFeedsIn value.shown?.toList := by
  cases value <;> simp [write, shown?]

/-- The texts of a field that are written as they are. -/
@[simp]
def Field.texts (f : Field) : List String :=
  f.name :: f.value.shown?.toList

namespace Event

/-- The texts of an event that are written as they are. -/
@[simp]
def texts (e : Event) : List String :=
  e.message :: e.fields.flatMap Field.texts

/-- Before its end an entry has the line feeds of these, whatever the texts in it that are quoted. -/
theorem lineFeeds_body (e : Event) : lineFeeds e.body = lineFeedsIn e.texts := by
  have hlabel : lineFeeds e.level.label = 0 := by cases e.level <;> rfl
  have hcolon : lineFeeds ": " = 0 := rfl
  have hfield (f : Field) : lineFeeds (" " ++ f.name ++ "=" ++ f.value.write) = lineFeedsIn f.texts := by
    have hspace : lineFeeds " " = 0 := rfl
    have hequals : lineFeeds "=" = 0 := rfl
    simp [Field.texts, FieldValue.lineFeeds_write, hspace, hequals]
  simp [body, texts, hlabel, hcolon, lineFeedsIn_map hfield]

theorem lineFeeds_entry (e : Event) : lineFeeds e.entry = lineFeeds e.body + 1 := by
  rw [entry, lineFeeds_append]
  rfl

end Event

/-- An outcome is described without the texts of its error. -/
@[simp]
theorem InvocationOutcome.lineFeeds_describe {ρ : Type} (outcome : InvocationOutcome ρ) :
    lineFeeds outcome.describe = 0 := by
  cases outcome with
  | resolutionFailed error =>
      have hcode : lineFeeds error.cause.code = 0 := by
        cases error.cause <;>
        · rw [ResolutionCause.code, lineFeeds_literal]
          decide
      change lineFeeds ("resolution failed (" ++ error.cause.code ++ ")") = 0
      rw [lineFeeds_append, lineFeeds_append, hcode]
      rfl
  | success result => exact (rfl : lineFeeds "succeeded" = 0)
  | timedOut error => exact (rfl : lineFeeds "timed out" = 0)
  | cancelled kind => exact (rfl : lineFeeds "cancelled" = 0)
  | failed error => exact (rfl : lineFeeds "failed" = 0)

@[simp]
theorem ShutdownSignal.lineFeeds_name (signal : ShutdownSignal) : lineFeeds signal.name = 0 := by
  cases signal <;> rfl

namespace Notice

variable {H : Host}

/-- The texts of others that are written as they are: values, names, parts of keys and messages of errors. -/
def texts : Notice H → List String
  | unknownMode value | unknownThreadMode value => [value]
  | badDuration _ error => [error.input]
  | lateCleanup error => error.key.texts ++ [error.cause.message]
  | closingScope uniqueId => [uniqueId]
  | resolved context resolver _ =>
      resolver.name :: (context.parameter.texts ++ context.executable.texts)
  | furtherAfterEach _ extension error => extension.name :: error.texts
  | hiddenAfterEach _ error => error.texts
  | finished _ _ executable _ _ => executable.texts
  | modeRead _ _ | inferredThreadMode | closingStore _ | untimed _ | timed _ _ | overran _ _
  | stopped _ _ | abandoned _ _ _ | signalled _ => []

/-- The complaints about a mode list the known values, on a line of their own. -/
def listsValues : Notice H → Bool
  | unknownMode _ | unknownThreadMode _ => true
  | _ => false

/-- The line feeds in an entry before its end are that of the complaint about a mode and those of the texts
of others. -/
theorem lineFeeds_body (n : Notice H) : lineFeeds n.event.body = n.listsValues.toNat + lineFeedsIn n.texts := by
  rw [Event.lineFeeds_body]
  -- what is left when the texts of others are counted are messages and names that are written out
  cases n with
  | unknownMode | unknownThreadMode =>
      simp [event, TimeoutConfiguration.warning]
      repeat rw [lineFeeds_literal]
      · simp [texts, listsValues]
        omega
      all_goals decide
  | modeRead | inferredThreadMode | badDuration | closingStore | lateCleanup | closingScope | resolved
  | furtherAfterEach | hiddenAfterEach | finished | untimed | timed | overran | stopped | abandoned
  | signalled =>
      simp [event, TimeoutConfiguration.modeEvent, TimeoutConfiguration.warning, Routine.lateCleanupEvent,
        ParameterContext.resolvedEvent, Routine.finishedEvent, kindField, workerField, elapsedField]
      repeat rw [lineFeeds_literal]
      · simp [texts, listsValues]
      all_goals decide

end Notice

end TimedInvocation
