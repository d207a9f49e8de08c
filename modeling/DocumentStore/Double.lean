/-!
# Finite doubles

A number with a point or an exponent is a finite binary64 number. It is held
the way the format counts: a sign, an integer significand of at most 53 bits,
and how often it is doubled, the unit being `2 ^ -1074`, the least positive
double. So every double is a whole number of units, and comparing two of them
or adding them is comparing or adding integers.

Three facts travel with the fields: the significand fits, the shift stays in
range, and a shifted significand uses all its bits. The last makes the pair
unique, so two doubles are the same bits exactly if they have the same fields.
The bounds `2 ^ 53` and `2 ^ 52` are written in base sixteen.

Everything rounds in one place, `Double.ofRatio?`: to the nearest double, a tie
to the even significand, and to nothing when the result is out of range.
-/

namespace DocumentStore

structure Double where
  negative : Bool
  significand : Nat
  shift : Nat
  significand_lt : significand < 0x20000000000000
  shift_le : shift ≤ 2045
  normal : shift = 0 ∨ 0x10000000000000 ≤ significand
deriving DecidableEq

namespace Double

/-- The exponent of the unit: one is `2 ^ unitBits` units. -/
def unitBits : Nat := 1074

/-- How many units one is. -/
def one : Nat := 1 <<< unitBits

/-- The absolute value, in units. -/
def magnitude (x : Double) : Nat := x.significand <<< x.shift

/-- The value, in units. The two zeros have the same one. -/
def units (x : Double) : Int :=
  if x.negative then -(x.magnitude : Int) else x.magnitude

/-- The double with these fields, if they are in range. -/
def pack? (negative : Bool) (significand shift : Nat) : Option Double :=
  if h : significand < 0x20000000000000 ∧ shift ≤ 2045 ∧
      (shift = 0 ∨ 0x10000000000000 ≤ significand) then
    some ⟨negative, significand, shift, h.1, h.2.1, h.2.2⟩
  else
    none

/-- Zero with the given sign. -/
def zero (negative : Bool) : Double :=
  ⟨negative, 0, 0, by decide, by decide, .inl rfl⟩

/-! ## Rounding -/

/-- The quotient to the nearest integer, a half going to the even one. -/
def roundHalfEven (num den : Nat) : Nat :=
  let below := num / den
  let twice := 2 * (num % den)
  if twice > den ∨ (twice = den ∧ below % 2 = 1) then below + 1 else below

/-- The nearest double to `num / den` units, or nothing if that is past the
greatest one. -/
def ofRatio? (negative : Bool) (num den : Nat) : Option Double :=
  let shift := (num / den).log2 - 52
  let rounded := roundHalfEven num (den <<< shift)
  if rounded = 0x20000000000000 then pack? negative 0x10000000000000 (shift + 1)
  else pack? negative rounded shift

/-- The nearest double to a whole number of units. -/
def ofUnits? (units : Int) : Option Double :=
  ofRatio? (units < 0) units.natAbs 1

/-- The nearest double to an integer. Integers past the range have none. -/
def ofInt? (n : Int) : Option Double :=
  ofRatio? (n < 0) (n.natAbs * one) 1

/-! ## Arithmetic

An operation whose result is out of range, or that has none, gives nothing; the
caller cannot come back from there, so one absent value stands for the
infinities and for what is not a number. -/

def add? (x y : Double) : Option Double := ofUnits? (x.units + y.units)

def sub? (x y : Double) : Option Double := ofUnits? (x.units - y.units)

def mul? (x y : Double) : Option Double :=
  ofRatio? (x.negative != y.negative) (x.magnitude * y.magnitude) one

def div? (x y : Double) : Option Double :=
  if y.magnitude = 0 then none
  else ofRatio? (x.negative != y.negative) (x.magnitude * one) y.magnitude

/-- Whether there is nothing after the point. -/
def isIntegral (x : Double) : Bool := x.magnitude % one == 0

/-- The greatest integer that is not above the number. -/
def floor (x : Double) : Int := x.units.fdiv one

/-- The least integer that is not below the number. -/
def ceil (x : Double) : Int := -(-x.units).fdiv one

def abs (x : Double) : Double := { x with negative := false }

/-! ## The machine's numbers

Roots and powers are the machine's own, so a double can be handed over as one
and taken back. In the bits of a double the shift stands directly above the
significand, whose highest bit counts as one more. -/

def toFloat (x : Double) : Float :=
  let sign := if x.negative then 0x8000000000000000 else 0
  Float.ofBits (UInt64.ofNat (sign + x.shift <<< 52 + x.significand))

def ofFloat? (f : Float) : Option Double :=
  let bits := f.toBits.toNat
  let negative := bits >>> 63 == 1
  let exponent := (bits >>> 52) % 2048
  let fraction := bits % 0x10000000000000
  if exponent = 0 then pack? negative fraction 0
  else if exponent = 2047 then none
  else pack? negative (0x10000000000000 + fraction) (exponent - 1)

def sqrt? (x : Double) : Option Double := ofFloat? x.toFloat.sqrt

def pow? (x y : Double) : Option Double := ofFloat? (x.toFloat.pow y.toFloat)

end Double

end DocumentStore
