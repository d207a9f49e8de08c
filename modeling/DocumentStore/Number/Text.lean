import DocumentStore.Double.Decimal
import DocumentStore.Number

/-!
# Numbers as text

An integer is written in decimal. A double shows that it is one: with a point
and at least one digit after it while its first digit stands between the fifth
place after the point and the sixteenth before it, and with an exponent
otherwise (`100.0`, `0.00001`, `1e-6`, `1.5e+20`).

Text is a double if it has a point or an exponent, or if it is an integer that
64 bits do not hold; the integer `-0` is a double as well, for only there it
can keep its sign.

A double is read exactly, as the nearest one, and so read back as it was
written. Of a reader that can miss the nearest double by the last place this is
true of those doubles only that it does not miss.
-/

namespace DocumentStore.Number

/-! ## Writing -/

/-- The least power of ten of a first digit that is written without exponent. -/
def leastPlain : Int := -5

/-- The greatest power of ten of a first digit that is written without
exponent. -/
def greatestPlain : Int := 15

def integerChars (n : Int) : List Char :=
  if n < 0 then '-' :: Nat.toDigits 10 n.natAbs else Nat.toDigits 10 n.natAbs

/-- Digits with a point: `leading` is the power of ten of the first one. -/
def plainChars (digits : List Char) (leading : Int) : List Char :=
  if leading < 0 then
    '0' :: '.' :: (List.replicate (-leading - 1).toNat '0' ++ digits)
  else
    let whole := leading.toNat + 1
    let padded := digits ++ List.replicate (whole - digits.length) '0'
    let fraction := padded.drop whole
    padded.take whole ++ '.' :: (if fraction.isEmpty then ['0'] else fraction)

/-- Digits with an exponent: one before the point, and no point if there is no
other. -/
def scientificChars (digits : List Char) (leading : Int) : List Char :=
  let mantissa := match digits with
    | first :: second :: rest => first :: '.' :: second :: rest
    | _ => digits
  let sign := if leading < 0 then '-' else '+'
  mantissa ++ 'e' :: sign :: Nat.toDigits 10 leading.natAbs

def doubleChars (x : Double) : List Char :=
  let decimal := x.toDecimal
  let digits := Nat.toDigits 10 decimal.digits
  let leading := decimal.leading
  let unsigned :=
    if leastPlain ≤ leading ∧ leading ≤
      greatestPlain then plainChars digits leading
    else scientificChars digits leading
  if x.negative then '-' :: unsigned else unsigned

def toChars : Number → List Char
  | .int n _ => integerChars n
  | .double x => doubleChars x

/-! ## Reading -/

/-- The digits at the front, if there is at least one, and what follows. -/
def digits? (text : List Char) : Option (List Char × List Char) :=
  match text.span Char.isDigit with
  | ([], _) => none
  | (digits, rest) => some (digits, rest)

/-- The digits before the point: a first zero stands alone. -/
def whole? (text : List Char) : Option (List Char × List Char) := do
  let (digits, rest) ← digits? text
  match digits with
  | '0' :: _ :: _ => none
  | _ => some (digits, rest)

/-- The digits after a point, if there is one. -/
def fraction? : List Char → Option (List Char × List Char)
  | '.' :: rest => digits? rest
  | text => some ([], text)

/-- The digits of an exponent, which must end the text. -/
def exponentDigits? (text : List Char) : Option Int :=
  match digits? text with
  | some (digits, []) => some (Nat.ofDigitChars 10 digits 0 : Nat)
  | _ => none

/-- The exponent, zero if there is none. -/
def exponent? : List Char → Option Int
  | [] => some 0
  | mark :: rest =>
      if mark = 'e' ∨ mark = 'E' then
        match rest with
        | '-' :: rest => (exponentDigits? rest).map (- ·)
        | '+' :: rest => exponentDigits? rest
        | rest => exponentDigits? rest
      else none

/-- The sign in front of a number, and what follows. -/
def sign : List Char → Bool × List Char
  | '-' :: rest => (true, rest)
  | text => (false, text)

/-- The number that a whole text stands for. -/
def ofChars? (text : List Char) : Option Number := do
  let (negative, text) := sign text
  let (whole, text) ← whole? text
  if text.isEmpty then
    let magnitude := Nat.ofDigitChars 10 whole 0
    let value : Int := if negative then -magnitude else magnitude
    if negative ∧ magnitude = 0 then
      some (.double (Double.zero true))
    else
      match ofInt? value with
      | some n => some n
      | none => (Double.ofDecimal? negative ⟨magnitude, 0⟩).map .double
  else
    let (fraction, text) ← fraction? text
    let exponent ← exponent? text
    let digits := Nat.ofDigitChars 10 (whole ++ fraction) 0
    (Double.ofDecimal? negative ⟨digits, exponent - fraction.length⟩).map .double

end DocumentStore.Number
