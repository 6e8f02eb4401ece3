/-!
# Capabilities

What an extension can do: resolve parameters, run before each test, run after each test. A set of
capabilities is also a number with one bit for each.
-/

namespace TimedInvocation

/-- A set of capabilities. -/
structure Capabilities where
  parameterResolver : Bool
  beforeEach : Bool
  afterEach : Bool
  deriving DecidableEq

namespace Capabilities

/-- The set whose only capability is to resolve parameters. -/
def resolver : Capabilities := ⟨true, false, false⟩

/-- The set whose only capability is to run before each test. -/
def before : Capabilities := ⟨false, true, false⟩

/-- The set whose only capability is to run after each test. -/
def after : Capabilities := ⟨false, false, true⟩

/-- The set of a number. Bits that stand for nothing are ignored. -/
def ofBits (bits : Nat) : Capabilities :=
  ⟨bits.testBit 0, bits.testBit 1, bits.testBit 2⟩

def toBits (c : Capabilities) : Nat :=
  c.parameterResolver.toNat + 2 * c.beforeEach.toNat + 4 * c.afterEach.toNat

/-- The set of a number without bits that stand for nothing. -/
def ofBits? (bits : Nat) : Option Capabilities :=
  if (ofBits bits).toBits = bits then some (ofBits bits) else none

def union (a b : Capabilities) : Capabilities :=
  ⟨a.parameterResolver || b.parameterResolver, a.beforeEach || b.beforeEach,
    a.afterEach || b.afterEach⟩

/-- Whether the first set has every capability of the second. -/
def contains (a b : Capabilities) : Bool :=
  (!b.parameterResolver || a.parameterResolver) && (!b.beforeEach || a.beforeEach) &&
    (!b.afterEach || a.afterEach)

def intersects (a b : Capabilities) : Bool :=
  (a.parameterResolver && b.parameterResolver) || (a.beforeEach && b.beforeEach) ||
    (a.afterEach && b.afterEach)

def names (c : Capabilities) : List String :=
  (if c.parameterResolver then ["parameter-resolver"] else []) ++
    (if c.beforeEach then ["before-each"] else []) ++
    (if c.afterEach then ["after-each"] else [])

def constants (c : Capabilities) : List String :=
  (if c.parameterResolver then ["PARAMETER_RESOLVER"] else []) ++
    (if c.beforeEach then ["BEFORE_EACH_CALLBACK"] else []) ++
    (if c.afterEach then ["AFTER_EACH_CALLBACK"] else [])

def describe (c : Capabilities) : String :=
  "Capabilities(" ++ (if c.constants.isEmpty then "0x0" else " | ".intercalate c.constants) ++ ")"

end Capabilities

end TimedInvocation
