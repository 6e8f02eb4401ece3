import TimedInvocation.Layers.Node
import TimedInvocation.Number.Word
import TimedInvocation.Text.Digits

/-!
# Numbers of a document

Integers in four bases, of 64 bits with a sign, and floating-point numbers. An underscore may stand
between two digits.
-/

namespace TimedInvocation.Layers.Document

/-- The digits of a run of digits in which single underscores stand between digits. -/
def digits? (isDigit : Char → Bool) : List Char → Option (List Char)
  | [] => none
  | [c] => if isDigit c then some [c] else none
  | c :: '_' :: rest => if isDigit c then (digits? isDigit rest).map (c :: ·) else none
  | c :: rest => if isDigit c then (digits? isDigit rest).map (c :: ·) else none

/-- A sign in front of a text, and the text after it. -/
def sign : List Char → Bool × List Char
  | '-' :: rest => (true, rest)
  | '+' :: rest => (false, rest)
  | s => (false, s)

def fitting? (n : Int) : Option Node :=
  if fitsSigned n then some (.integer n) else none

/-- Decimal digits without a needless zero in front. -/
def whole? (s : List Char) : Option (List Char) :=
  match digits? Char.isDigit s with
  | some ('0' :: _ :: _) => none
  | digits => digits

def decimal? (s : List Char) : Option Node :=
  let (negative, s) := sign s
  (whole? s).bind fun digits =>
    let n : Int := Text.ofDigits 10 digits
    fitting? (if negative then -n else n)

/-- An integer in a base other than ten, which has no sign. -/
def based? (base : Nat) (isDigit : Char → Bool) (s : List Char) : Option Node :=
  (digits? isDigit s).bind fun digits => fitting? (Text.ofDigits base digits)

def integer? : List Char → Option Node
  | '0' :: 'x' :: rest => based? 16 Text.isHexDigit rest
  | '0' :: 'o' :: rest => based? 8 (fun c => '0' ≤ c && c ≤ '7') rest
  | '0' :: 'b' :: rest => based? 2 (fun c => c = '0' || c = '1') rest
  | s => decimal? s

/-- The parts of a text around the first character of a kind, if there is one. -/
def around? (separates : Char → Bool) (s : List Char) : Option (List Char × List Char) :=
  match s.dropWhile fun c => !separates c with
  | [] => none
  | _ :: rest => some (s.takeWhile fun c => !separates c, rest)

/-- The digits before and after the decimal point, and how many there are after it. -/
def mantissa? (s : List Char) : Option (List Char × Nat) :=
  match around? (· = '.') s with
  | none => (whole? s).map fun digits => (digits, 0)
  | some (before, after) => do
      let before ← whole? before
      let after ← digits? Char.isDigit after
      some (before ++ after, after.length)

def exponent? (s : List Char) : Option Int :=
  let (negative, s) := sign s
  (digits? Char.isDigit s).map fun digits =>
    let n : Int := Text.ofDigits 10 digits
    if negative then -n else n

def magnitude? (negative : Bool) (s : List Char) : Option Node := do
  let (body, exponent) ← match around? (fun c => c = 'e' || c = 'E') s with
    | none => some (s, (0 : Int))
    | some (body, power) => (exponent? power).map fun exponent => (body, exponent)
  let (digits, places) ← mantissa? body
  let x ← Binary64.ofDecimal? negative (Text.ofDigits 10 digits) (exponent - places)
  some (.float x)

def float? (s : List Char) : Option Node :=
  match sign s with
  | (negative, ['i', 'n', 'f']) => some (.float (.infinite negative))
  | (_, ['n', 'a', 'n']) => some (.float .notANumber)
  | (negative, s) => magnitude? negative s

def number? (s : List Char) : Option Node :=
  match integer? s with
  | some node => some node
  | none =>
    if s.any fun c => c = '.' || c = 'e' || c = 'E' || c = 'n' then float? s else none

end TimedInvocation.Layers.Document
