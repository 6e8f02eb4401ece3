import TimedInvocation.Text.Digits

/-!
# Dates and times of a document

A moment is a date, a time of day, or both, and then perhaps with its distance from universal time.
It is kept as a text in one fixed form.
-/

namespace TimedInvocation.Layers.Document

/-- A number of decimal digits off the front of a text. -/
def field? (count : Nat) (s : List Char) : Option (Nat × List Char) :=
  let digits := s.take count
  if digits.length = count ∧ digits.all Char.isDigit then
    some (Text.ofDigits 10 digits, s.drop count)
  else none

def after? (c : Char) : List Char → Option (List Char)
  | d :: rest => if c = d then some rest else none
  | [] => none

def two (n : Nat) : String :=
  (if n < 10 then "0" else "") ++ toString n

def daysOf (year month : Nat) : Nat :=
  if month = 2 then
    if year % 4 = 0 ∧ (year % 100 ≠ 0 ∨ year % 400 = 0) then 29 else 28
  else if month = 4 ∨ month = 6 ∨ month = 9 ∨ month = 11 then 30
  else 31

/-- A date, as it is written. -/
def date? (s : List Char) : Option (String × List Char) := do
  let (year, rest) ← field? 4 s
  let (month, rest) ← field? 2 (← after? '-' rest)
  let (day, rest) ← field? 2 (← after? '-' rest)
  if 1 ≤ month ∧ month ≤ 12 ∧ 1 ≤ day ∧ day ≤ daysOf year month then
    some (String.ofList (s.take 10), rest)
  else none

/-- The fraction of a second, cut to nine places and without zeros at its end. -/
def fraction? : List Char → Option (String × List Char)
  | '.' :: rest =>
    match (rest.takeWhile Char.isDigit).take 9 with
    | [] => none
    | digits =>
      let shown := (digits.reverse.dropWhile (· = '0')).reverse
      some ("." ++ String.ofList (if shown.isEmpty then ['0'] else shown),
        rest.dropWhile Char.isDigit)
  | s => some ("", s)

/-- The seconds of a time and their fraction; both may be missing. -/
def seconds? : List Char → Option (String × List Char)
  | ':' :: rest => do
      let (second, rest) ← field? 2 rest
      let (fraction, rest) ← fraction? rest
      if second ≤ 60 then some (":" ++ two second ++ fraction, rest) else none
  | s => some ("", s)

def clock? (s : List Char) : Option (String × List Char) := do
  let (hour, rest) ← field? 2 s
  let (minute, rest) ← field? 2 (← after? ':' rest)
  if hour ≤ 23 ∧ minute ≤ 59 then some (two hour ++ ":" ++ two minute, rest) else none

def time? (s : List Char) : Option (String × List Char) := do
  let (clock, rest) ← clock? s
  let (seconds, rest) ← seconds? rest
  some (clock ++ seconds, rest)

/-- The distance from universal time. Nothing to the west of it is written as if to the east. -/
def offset? : List Char → Option String
  | [] => some ""
  | ['Z'] => some "Z"
  | ['z'] => some "Z"
  | '+' :: rest => whole "+" rest
  | '-' :: rest => whole (if rest = "00:00".toList then "+" else "-") rest
  | _ => none
where
  /-- The distance with a sign, if nothing follows it. -/
  whole (direction : String) (s : List Char) : Option String :=
    match clock? s with
    | some (clock, []) => some (direction ++ clock)
    | _ => none

def moment? (s : List Char) : Option String :=
  match date? s with
  | none =>
    match time? s with
    | some (time, []) => some time
    | _ => none
  | some (date, []) => some date
  | some (date, separator :: rest) =>
    if separator = 'T' ∨ separator = 't' ∨ separator = ' ' then do
      let (time, rest) ← time? rest
      let offset ← offset? rest
      some (date ++ "T" ++ time ++ offset)
    else none

end TimedInvocation.Layers.Document
