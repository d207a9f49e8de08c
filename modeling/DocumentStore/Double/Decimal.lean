import DocumentStore.Double

/-!
# Doubles in decimal

Reading a decimal takes the nearest double, exactly: the decimal is a quotient
of two integers, and `Double.ofRatio?` rounds quotients. A faster way is to read
with the arithmetic of doubles, which can miss the nearest one by the last
place: it makes `51.24817837550541` of `51.248178375505404`, and
`9.999999999999999e-31` of `1e-30`. No such reader is modelled.

Writing takes the fewest digits that read back. For one digit, two digits and
so on, the two points of that decimal grid around the number are tried by
reading them; of two that read back the nearer is taken, and the even one if
they are equally near. Seventeen digits always suffice, but nothing here hangs
on that: the last resort is the exact expansion, which reads back whatever the
number is.
-/

namespace DocumentStore

/-- A decimal number: an integer of `digits` times a power of ten. -/
structure Decimal where
  digits : Nat
  exponent : Int
deriving DecidableEq

namespace Decimal

/-- Ten to a power. -/
def tenTo (n : Nat) : Nat := Nat.pow 10 n

/-- How many decimal digits an integer has. -/
def width (n : Nat) : Nat := (Nat.toDigits 10 n).length

/-- The same number without the zeros at the end of the digits. -/
def trim (d : Decimal) : Decimal :=
  let zeros := ((Nat.toDigits 10 d.digits).reverse.takeWhile (· = '0')).length
  ⟨d.digits / tenTo zeros, d.exponent + zeros⟩

/-- The power of ten of the first digit. -/
def leading (d : Decimal) : Int := d.exponent + width d.digits - 1

end Decimal

namespace Double

/-- Past this power of ten in the first digit there is no double. -/
def greatestLeading : Int := 400

/-- Below this power of ten in the first digit the nearest double is zero. -/
def leastLeading : Int := -400

/-- The nearest double to a decimal, or nothing if that is out of range. The
two limits only keep the powers of ten small. -/
def ofDecimal? (negative : Bool) (d : Decimal) : Option Double :=
  if d.digits = 0 then some (zero negative)
  else if greatestLeading < d.leading then none
  else if d.leading < leastLeading then some (zero negative)
  else if 0 ≤ d.exponent then ofRatio? negative
    (d.digits * Decimal.tenTo d.exponent.toNat * one) 1
  else ofRatio? negative (d.digits * one) (Decimal.tenTo (-d.exponent).toNat)

/-! ## The fewest digits that read back -/

/-- The power of ten of the first digit of a positive double. No double is
below `10 ^ -324`, so scaled by that power every one has a digit before the
point. -/
def leadingExponent (x : Double) : Int :=
  (Decimal.width (x.magnitude * Decimal.tenTo 324 / one) : Int) - 1 - 324

/-- The decimal of `count` digits that reads back as the number, if there is
one: the nearest if there are two, the even one in a tie. -/
def decimalOfWidth? (x : Double) (count : Nat) : Option Decimal :=
  let exponent := x.leadingExponent - count + 1
  let num := if exponent < 0 then x.magnitude * Decimal.tenTo (-exponent).toNat
    else x.magnitude
  let den := if exponent < 0 then one else one * Decimal.tenTo exponent.toNat
  let below := num / den
  let reads (digits : Nat) : Bool :=
    decide (ofDecimal? x.negative ⟨digits, exponent⟩ = some x)
  let nearest := roundHalfEven num den
  let other := if nearest = below then below + 1 else below
  if reads nearest then some ⟨nearest, exponent⟩
  else if reads other then some ⟨other, exponent⟩
  else none

/-- All digits of a double, in units of `10 ^ -1074`: a half of a decimal digit
is five of the next. -/
def expansion (x : Double) : Decimal :=
  ⟨x.magnitude * Nat.pow 5 unitBits, -(unitBits : Int)⟩

/-- The decimal that a double is written as. -/
def toDecimal (x : Double) : Decimal :=
  if x.significand = 0 then ⟨0, 0⟩
  else
    (((List.range 17).findSome? fun i => x.decimalOfWidth? (i + 1)).getD
      x.expansion).trim

end Double

end DocumentStore
