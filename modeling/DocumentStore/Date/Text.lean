import DocumentStore.Date.Instant

/-!
# Instants as text

The form of RFC 3339. Read is `2024-01-01T00:00:00Z` with exactly four digits
of a year, a `T` in either case or one blank between day and time, any number
of digits of a second (those after the ninth count for nothing), and `Z` in
either case or an offset of less than a day. A second may be 60, which is a
leap second. Nothing may stand around it.

Written is always the offset zero, as `+00:00`, and as few digits of a second
as are exact out of none, three, six and nine. A year outside 0 to 9999 is
written with its sign, so it cannot be read again.
-/

namespace DocumentStore.Instant

/-! ## Reading -/

/-- The number that these characters write, if they are all digits. -/
def digits? (chars : List Char) : Option Nat :=
  if chars.all Char.isDigit then some (Nat.ofDigitChars 10 chars 0) else none

/-- The fraction of a second in nanoseconds, and what follows it. -/
def fraction? : List Char → Option (Nat × List Char)
  | '.' :: rest =>
      match rest.span Char.isDigit with
      | ([], _) => none
      | (digits, rest) =>
          some (Nat.ofDigitChars 10 ((digits ++ List.replicate 9 '0').take 9) 0,
            rest)
  | rest => some (0, rest)

/-- The offset from universal time in seconds, which ends the text. The minus
sign of typography is one as well. -/
def offset? : List Char → Option Int
  | ['Z'] => some 0
  | ['z'] => some 0
  | [sign, h1, h2, ':', m1, m2] => do
      let hours ← digits? [h1, h2]
      let minutes ← digits? [m1, m2]
      if 23 < hours ∨ 59 < minutes then none
      else
        let seconds : Int := (hours * 60 + minutes) * 60
        if sign = '+' then some seconds
        else if sign = '-' ∨ sign = '\u2212' then some (-seconds)
        else none
  | _ => none

/-- The instant of a day and a time of day, at an offset. Second 60 is the one
before it, run for longer. -/
def ofParts? (day : Date.Day) (hour minute second nanos : Nat) (offset : Int) :
    Option Instant :=
  if h : day.isValid ∧ hour ≤ 23 ∧ minute ≤ 59 ∧ second ≤ 60 ∧
    nanos < 1000000000 then
    let seconds :=
      day.toNumber * 86400 +
        (hour * 3600 + minute * 60 + min second 59 : Nat) - offset
    if second = 60 then some ⟨seconds, nanos + 1000000000, by omega⟩
    else some ⟨seconds, nanos, by omega⟩
  else
    none

/-- The instant that a text names. -/
def ofChars? : List Char → Option Instant
  | y1 :: y2 :: y3 :: y4 :: s1 :: m1 :: m2 :: s2 :: d1 :: d2 :: s3 ::
      h1 :: h2 :: s4 :: n1 :: n2 :: s5 :: c1 :: c2 :: rest => do
    if s1 = '-' ∧ s2 = '-' ∧ (s3 = 'T' ∨ s3 = 't' ∨ s3 = ' ') ∧ s4 = ':' ∧
      s5 = ':' then
      let year ← digits? [y1, y2, y3, y4]
      let month ← digits? [m1, m2]
      let day ← digits? [d1, d2]
      let hour ← digits? [h1, h2]
      let minute ← digits? [n1, n2]
      let second ← digits? [c1, c2]
      let (nanos, rest) ← fraction? rest
      let offset ← offset? rest
      ofParts? ⟨year, month, day⟩ hour minute second nanos offset
    else
      none
  | _ => none

def ofString? (text : String) : Option Instant := ofChars? text.toList

/-! ## Writing -/

/-- A number with zeros in front, to at least `width` digits. -/
def padded (width n : Nat) : List Char :=
  let digits := Nat.toDigits 10 n
  List.replicate (width - digits.length) '0' ++ digits

def yearChars (year : Int) : List Char :=
  if 0 ≤ year ∧ year ≤ 9999 then padded 4 year.natAbs
  else (if year < 0 then '-' else '+') :: padded 4 year.natAbs

/-- The fraction of a second, in the fewest groups of three digits. -/
def fractionChars (nanos : Nat) : List Char :=
  if nanos = 0 then []
  else if nanos % 1000000 = 0 then '.' :: padded 3 (nanos / 1000000)
  else if nanos % 1000 = 0 then '.' :: padded 6 (nanos / 1000)
  else '.' :: padded 9 nanos

def toChars (t : Instant) : List Char :=
  let day := Date.Day.ofNumber (t.seconds.fdiv 86400)
  let time := (t.seconds.fmod 86400).toNat
  let second := time % 60 + t.nanos / 1000000000
  yearChars day.year ++ '-' :: padded 2 day.month ++ '-' :: padded 2 day.day ++
    'T' :: padded 2 (time / 3600) ++ ':' :: padded 2 (time / 60 % 60) ++
    ':' :: padded 2 second ++ fractionChars (t.nanos % 1000000000) ++
    ['+', '0', '0', ':', '0', '0']

protected def toString (t : Instant) : String := String.ofList t.toChars

end DocumentStore.Instant
