import DocumentStore.Double

/-!
# Numbers

A number is an integer that fits in 64 bits, signed or unsigned, or a finite
double. `1` and `1.0` are two numbers, told apart in print and by `==`; by value
they are compared as doubles, so they are then equal, and so are two integers
that round to the same double.
-/

namespace DocumentStore

/-- Integers that fit in 64 bits with a sign go from `-2 ^ 63` to
`2 ^ 63 - 1`. -/
abbrev FitsSigned (n : Int) : Prop :=
  -0x8000000000000000 ≤ n ∧ n < 0x8000000000000000

/-- Integers that fit in 64 bits, with a sign or without, go up to
`2 ^ 64 - 1`. -/
abbrev Fits (n : Int) : Prop :=
  -0x8000000000000000 ≤ n ∧ n < 0x10000000000000000

inductive Number where
  | int (value : Int) (fits : Fits value := by omega)
  | double (value : Double)
deriving DecidableEq

namespace Number

/-- The integer as a number, if it fits. -/
def ofInt? (n : Int) : Option Number :=
  if h : Fits n then some (.int n h) else none

/-- The integer if it fits in signed 64 bits: no double is one. -/
def asInt? : Number → Option Int
  | .int n _ => if FitsSigned n then some n else none
  | .double _ => none

/-- The integer if it is not negative. -/
def asNat? : Number → Option Nat
  | .int n _ => if 0 ≤ n then some n.toNat else none
  | .double _ => none

/-- The nearest double. An integer that fits in 64 bits always has one. -/
def toDouble : Number → Double
  | .int n _ => (Double.ofInt? n).getD (Double.zero false)
  | .double x => x

/-- The value that comparisons see, in the unit of the doubles. -/
def units (n : Number) : Int := n.toDouble.units

/-- By value: both numbers have the same nearest double. -/
def alike (m n : Number) : Bool := m.units == n.units

/-- Strictly: an integer is no double, and the two zeros are one. -/
def same : Number → Number → Bool
  | .int m _, .int n _ => m == n
  | .double x, .double y => x.units == y.units
  | _, _ => false

def isZero (n : Number) : Bool := n.units == 0

def isOne (n : Number) : Bool := n.units == Double.one

def isPositive (n : Number) : Bool := decide (0 < n.units)

def isNegative (n : Number) : Bool := decide (n.units < 0)

/-- Whether the value is whole, whichever way it is written. -/
def isIntegral (n : Number) : Bool := n.toDouble.isIntegral

/-- Below this, a whole result of arithmetic is an integer and not a double. -/
def wholeLimit : Nat := 9000000000000000

/-- The result of arithmetic as a number: whole values of moderate size become
integers. -/
def ofDouble (x : Double) : Number :=
  if x.isIntegral && decide (x.magnitude < wholeLimit * Double.one) then
    (ofInt? x.floor).getD (.double x)
  else
    .double x

end Number

end DocumentStore
