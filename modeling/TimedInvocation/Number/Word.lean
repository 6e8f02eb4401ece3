/-!
# Numbers of 64 bits

The bounds of the numbers that fit into 64 bits, without and with a sign.
-/

namespace TimedInvocation

/-- How many numbers there are without a sign: two to the sixty-fourth, the least that does not fit. -/
abbrev wordCount : Nat := 18446744073709551616

def fitsSigned (n : Int) : Bool :=
  -9223372036854775808 ≤ n && n ≤ 9223372036854775807

theorem wordCount_eq : wordCount = Nat.pow 2 64 := by
  decide

end TimedInvocation
