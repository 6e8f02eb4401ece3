import TimedInvocation.Log.Event
import TimedInvocation.Number.Word
import TimedInvocation.Text.Blank
import TimedInvocation.Text.Digits

/-!
# Log filters

A filter is a list of directives separated by commas. A directive gives the most detailed level that
is let through, and may restrict itself to targets that start with some text and to events that have
certain fields. Of the directives that care about an event, the most specific one decides.
-/

namespace TimedInvocation

/-- The bound of a directive: nothing, or all levels up to one. -/
abbrev LevelBound := Option Level

/-- One directive of a filter. -/
structure Directive where
  target : Option String
  fieldNames : List String
  bound : LevelBound
  deriving DecidableEq

/-- Why a text is not a filter. -/
inductive FilterError where
  | tooManyEquals
  | tooManyFieldLists
  | unclosedFieldList
  | unknownLevel
  deriving DecidableEq

def FilterError.message : FilterError → String
  | tooManyEquals =>
      "invalid filter directive: too many '=' in filter directive, expected 0 or 1"
  | tooManyFieldLists =>
      "invalid filter directive: too many '[\x7b' in filter directive, expected 0 or 1"
  | unclosedFieldList => "invalid filter directive: expected fields list to end with '\x7d]'"
  | unknownLevel =>
      "error parsing level filter: expected one of \"off\", \"error\", \"warn\", \"info\", " ++
        "\"debug\", \"trace\", or a number 0-5"

namespace LevelBound

def off : LevelBound := none

/-- The words for bounds. The empty word counts as `error`. -/
def words : List (String × LevelBound) :=
  [("", some .error), ("off", off), ("error", some .error), ("warn", some .warn),
    ("info", some .info), ("debug", some .debug), ("trace", some .trace)]

def numbers : List LevelBound :=
  [off, some .error, some .warn, some .info, some .debug, some .trace]

/-- A natural number of 64 bits, written with decimal digits and possibly a plus sign. -/
def readNumber? (s : List Char) : Option Nat :=
  let digits := match s with
    | '+' :: rest => rest
    | rest => rest
  if digits.isEmpty ∨ ¬ digits.all Char.isDigit then none
  else
    let n := Text.ofDigits 10 digits
    if n < wordCount then some n else none

/-- Reads a bound, given as a number or as a word in any case. -/
def read? (s : String) : Option LevelBound :=
  match (readNumber? s.toList).bind fun n => numbers[n]? with
  | some bound => some bound
  | none => words.lookup (Text.lowerAscii s)

def admits (bound : LevelBound) (level : Level) : Bool :=
  match bound with
  | none => false
  | some most => level.rank ≤ most.rank

end LevelBound

namespace Directive

/-- The pieces between the occurrences of a separator. -/
def splitOn (separator : Char) (s : List Char) : List (List Char) :=
  s.foldr (fun c pieces =>
    if c = separator then [] :: pieces
    else match pieces with
      | piece :: rest => (c :: piece) :: rest
      | [] => [[c]]) [[]]

/-- The pieces between the occurrences of the opening of a field list. -/
def splitFieldLists : List Char → List (List Char)
  | '[' :: '\x7b' :: rest => [] :: splitFieldLists rest
  | c :: rest =>
    match splitFieldLists rest with
    | piece :: pieces => (c :: piece) :: pieces
    | [] => [[c]]
  | [] => [[]]

/-- The text without the closings of field lists at its end, given in reverse. -/
def dropClosings : List Char → List Char
  | ']' :: '\x7d' :: rest => dropClosings rest
  | s => s

/-- The names in a field list, whose closing must be there. -/
def readFields (s : List Char) : Except FilterError (List String) :=
  match s.reverse with
  | ']' :: '\x7d' :: _ =>
      .ok (((splitOn ',' (dropClosings s.reverse).reverse).filter (· ≠ [])).map String.ofList)
  | _ => .error .unclosedFieldList

/-- The target and the field names in front of the equals sign. -/
def readSelector (s : List Char) : Except FilterError (String × List String) :=
  match splitFieldLists s with
  | [target] => .ok (String.ofList target, [])
  | [target, fields] => (readFields fields).map fun names => (String.ofList target, names)
  | _ => .error .tooManyFieldLists

/-- Reads a directive: a selector and a bound, or only a bound, or only a target, which then lets
everything through. -/
def read (s : List Char) : Except FilterError Directive :=
  match splitOn '=' s with
  | [selector, bound] => do
      let (target, fieldNames) ← readSelector selector
      match LevelBound.read? (String.ofList bound) with
      | some bound => .ok ⟨some target, fieldNames, bound⟩
      | none => .error .unknownLevel
  | [word] =>
      match LevelBound.read? (String.ofList word) with
      | some bound => .ok ⟨none, [], bound⟩
      | none => .ok ⟨some (String.ofList word), [], some .trace⟩
  | _ => .error .tooManyEquals

def caresAbout (d : Directive) (e : Event) : Bool :=
  (match d.target with
    | none => true
    | some target => target.toList.isPrefixOf e.origin.target.toList) &&
    d.fieldNames.all e.fieldNames.contains

/-- How specific a directive is: by the length of its target, then by the number of its fields. -/
def specificity (d : Directive) : Nat × Nat :=
  (match d.target with
    | none => 0
    | some target => target.utf8ByteSize + 1, d.fieldNames.length)

def sameSelector (d e : Directive) : Bool :=
  d.target = e.target && d.fieldNames = e.fieldNames

end Directive

/-- A filter: its directives, of which no two have the same selector. -/
structure Filter where
  directives : List Directive
  deriving DecidableEq

namespace Filter

/-- The filter that lets everything through up to `info`. -/
def standard : Filter :=
  ⟨[⟨none, [], some .info⟩]⟩

/-- The filter with one more directive, which replaces one with the same selector. -/
def add (f : Filter) (d : Directive) : Filter :=
  ⟨f.directives.filter (fun e => ¬ d.sameSelector e) ++ [d]⟩

def read (s : String) : Except FilterError Filter := do
  let directives ← (Directive.splitOn ',' s.toList).mapM Directive.read
  .ok (directives.foldl add ⟨[]⟩)

/-- The more specific of two directives. Between equally specific ones the greater field names win. -/
def moreSpecific (d e : Directive) : Directive :=
  let (a, b) := d.specificity
  let (a', b') := e.specificity
  if a < a' ∨ (a = a' ∧ (b < b' ∨ (b = b' ∧ d.fieldNames < e.fieldNames))) then e else d

/-- The most specific directive that applies to an event. -/
def directiveFor? (f : Filter) (e : Event) : Option Directive :=
  match f.directives.filter fun d => d.caresAbout e with
  | [] => none
  | d :: rest => some (rest.foldl moreSpecific d)

def admits (f : Filter) (e : Event) : Bool :=
  match f.directiveFor? e with
  | none => false
  | some d => d.bound.admits e.level

/-- The filter for the given setting, and the complaint about a setting that is no filter. A blank
setting selects the standard filter. -/
def ofSetting (s : String) : Filter × Option String :=
  if Text.isBlankText s then (standard, none)
  else
    match read s with
    | .ok f => (f, none)
    | .error e =>
        (standard, some ("warning: ignoring invalid PROCTOR_LOG `" ++ s ++ "`: " ++ e.message))

/-- The complaint about a setting that is not text. -/
def notTextComplaint : String :=
  "warning: ignoring PROCTOR_LOG because it is not valid UTF-8"

/-- The filter for a setting given as bytes, and the complaint about one that is no filter. -/
def ofBytes (bytes : ByteArray) : Filter × Option String :=
  match String.fromUTF8? bytes with
  | some s => ofSetting s
  | none => (standard, some notTextComplaint)

end Filter

/-- What is written for a list of events under a filter. -/
def writeLog (f : Filter) (events : List Event) : String :=
  String.join ((events.filter f.admits).map Event.entry)

end TimedInvocation
