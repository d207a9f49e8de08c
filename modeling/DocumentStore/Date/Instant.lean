import DocumentStore.Date.Calendar

/-!
# Instants

An instant is a second, counted from the start of 1970, and how far it has run.
A leap second has no count of its own: it is the second before it, run further
than a second. So instants are ordered by the count first and the fraction
second, and a leap second falls between its neighbours.
-/

namespace DocumentStore

structure Instant where
  seconds : Int
  nanos : Nat
  nanos_lt : nanos < 2000000000
deriving DecidableEq

namespace Instant

/-- The years that milliseconds can name. -/
def leastYear : Int := -262143

def greatestYear : Int := 262142

/-- The instant so many milliseconds after the start of 1970. -/
def ofMillis? (millis : Int) : Option Instant :=
  let seconds := millis.fdiv 1000
  let year := (Date.Day.ofNumber (seconds.fdiv 86400)).year
  if leastYear ≤ year ∧ year ≤ greatestYear then
    some ⟨seconds, (millis.fmod 1000).toNat % 1000 * 1000000, by omega⟩
  else
    none

protected def compare (a b : Instant) : Ordering :=
  (compare a.seconds b.seconds).then (compare a.nanos b.nanos)

end Instant

end DocumentStore
