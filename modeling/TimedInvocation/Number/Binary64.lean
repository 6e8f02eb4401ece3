/-!
# Binary floating-point numbers

The numbers of the 64-bit binary format, held exactly: a finite one is an integer significand times a
power of two. A decimal fraction is rounded to the nearest of them, to the even significand at a tie,
and is refused if it is too large. A number is written with the fewest decimal digits that read back
as the same number, without an exponent.
-/

namespace TimedInvocation

/-- The magnitude of a finite number, `significand * 2 ^ exponent`. -/
structure Magnitude where
  significand : Nat
  exponent : Int
  deriving DecidableEq

/-- A number of the 64-bit binary format. -/
inductive Binary64 where
  | finite (negative : Bool) (magnitude : Magnitude)
  | infinite (negative : Bool)
  | notANumber
  deriving DecidableEq

namespace Magnitude

def minExponent : Int := -1074

def maxExponent : Int := 971

/-- The greatest power of two below the bound of significands, which have 53 bits. -/
def leadingBit : Nat := 4503599627370496

def zero : Magnitude :=
  ⟨0, minExponent⟩

/-- The numerator and the denominator of `num / den` times a power of a base. -/
def scaled (base num den : Nat) (power : Int) : Nat × Nat :=
  if 0 ≤ power then (num * Nat.pow base power.toNat, den)
  else (num, den * Nat.pow base (-power).toNat)

/-- The greatest power of two that a positive fraction reaches. -/
def log2 (num den : Nat) : Int :=
  let guess : Int := (Nat.log2 num : Int) - (Nat.log2 den : Int)
  let (n, d) := scaled 2 num den (-guess)
  if d ≤ n then guess else guess - 1

/-- The integer nearest to a fraction, the even one at a tie. -/
def roundEven (num den : Nat) : Nat :=
  let low := num / den
  let rest := 2 * (num % den)
  if den < rest ∨ (rest = den ∧ low % 2 = 1) then low + 1 else low

/-- The magnitude nearest to a fraction, unless the fraction is too large. -/
def ofFraction? (num den : Nat) : Option Magnitude :=
  if num = 0 then some zero
  else
    let exponent := max minExponent (log2 num den - 52)
    let (n, d) := scaled 2 num den (-exponent)
    let significand := roundEven n d
    let m : Magnitude :=
      if significand = 2 * leadingBit then ⟨leadingBit, exponent + 1⟩ else ⟨significand, exponent⟩
    if maxExponent < m.exponent then none else some m

def digitCount (n : Nat) : Nat :=
  (Nat.toDigits 10 n).length

/-- The magnitude nearest to `digits * 10 ^ power`, unless that is too large. Numbers that are far
out of the range of the format are told apart by their size alone. -/
def ofDecimal? (digits : Nat) (power : Int) : Option Magnitude :=
  let size := (digitCount digits : Int) + power
  if digits = 0 ∨ size < -330 then some zero
  else if 330 < size then none
  else
    let (num, den) := scaled 10 digits 1 power
    ofFraction? num den

/-- The numerator and the denominator of a magnitude. -/
def fraction (m : Magnitude) : Nat × Nat :=
  scaled 2 m.significand 1 m.exponent

/-- The number of digits before the decimal point of a positive magnitude, negative or zero if it
starts behind it. Four hundred decimal places reach beyond the least magnitude. -/
def decimalSize (m : Magnitude) : Int :=
  let (num, den) := m.fraction
  let (n, d) := scaled 10 num den 400
  (digitCount (n / d) : Int) - 400

/-- The decimal with a number of significant digits that reads back as a magnitude, if there is one:
the nearer one of the two neighbours if both do. -/
def decimalOf? (m : Magnitude) (count : Nat) : Option (Nat × Int) :=
  let power := m.decimalSize - count
  let (num, den) := m.fraction
  let (n, d) := scaled 10 num den (-power)
  let low := n / d
  let lowReads := ofDecimal? low power = some m
  let highReads := ofDecimal? (low + 1) power = some m
  let nearLow := 2 * (n % d) < d
  if lowReads ∧ (nearLow ∨ ¬ highReads) then some (low, power)
  else if highReads then some (low + 1, power)
  else none

/-- The shortest decimal that reads back as a magnitude. Seventeen digits always suffice. -/
def shortest (m : Magnitude) : Nat × Int :=
  ((((List.range 17).map (· + 1)).findSome? m.decimalOf?)).getD (0, 0)

/-- A decimal without an exponent and without needless zeros. -/
def positional (digits : Nat) (power : Int) : String :=
  let shown := Nat.toDigits 10 digits
  if 0 ≤ power then String.ofList (shown ++ List.replicate power.toNat '0')
  else
    let places := (-power).toNat
    let padded := List.replicate (places + 1 - shown.length) '0' ++ shown
    let whole := padded.take (padded.length - places)
    let part := ((padded.drop (padded.length - places)).reverse.dropWhile (· = '0')).reverse
    String.ofList (if part.isEmpty then whole else whole ++ '.' :: part)

def text (m : Magnitude) : String :=
  if m.significand = 0 then "0" else positional m.shortest.1 m.shortest.2

end Magnitude

namespace Binary64

/-- The number nearest to `digits * 10 ^ power` with a sign, unless that is too large. -/
def ofDecimal? (negative : Bool) (digits : Nat) (power : Int) : Option Binary64 :=
  (Magnitude.ofDecimal? digits power).map (finite negative)

def text : Binary64 → String
  | finite negative m => (if negative then "-" else "") ++ m.text
  | infinite negative => if negative then "-inf" else "inf"
  | notANumber => "NaN"

end Binary64

end TimedInvocation
