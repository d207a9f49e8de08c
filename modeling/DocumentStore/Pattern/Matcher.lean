import DocumentStore.Pattern

/-!
# Matching

A text of `n` characters has `n + 1` places. A pattern leads from a set of
places to the set of places where a match that starts in the first set can end,
and a text matches if that set is not empty when a match may start anywhere. So
there is no backtracking, and greed, which only chooses among matches, does not
matter.

A match never goes back, so more than `n` repetitions that all move are not
possible, and one that does not move can be left out or done again: counts
above `n + 1` come to the same as `n + 1`.
-/

namespace DocumentStore.Pattern

/-- A set of places, as one bit for each. -/
abbrev Places := List Bool

/-- The characters before and after every place of a text. -/
def surroundings (before : Option Char) :
    List Char → List (Option Char × Option Char)
  | [] => [(before, none)]
  | c :: rest => (before, some c) :: surroundings (some c) rest

def Places.union (xs ys : Places) : Places := List.zipWith (· || ·) xs ys

/-- Lead a set of places on so many times. -/
def iterate (f : Places → Places) : Nat → Places → Places
  | 0, starts => starts
  | n + 1, starts => iterate f n (f starts)

/-- Lead a set of places on at most so many times, and collect all that is
reached. -/
def collect (f : Places → Places) : Nat → Places → Places
  | 0, starts => starts
  | n + 1, starts =>
      let more := starts.union (f starts)
      if more = starts then starts else collect f n more

/-- The places where a match can end that starts at one of the given places. -/
def ends (text : List Char) : Pattern → Places → Places
  | .empty, starts => starts
  | .one set, starts =>
      false :: List.zipWith (fun b c => b && set.contains c) starts text
  | .anchor a, starts =>
      List.zipWith (fun b (before, after) => b && a.holds before after) starts
        (surroundings none text)
  | .seq p q, starts => ends text q (ends text p starts)
  | .either p q, starts => (ends text p starts).union (ends text q starts)
  | .repeated p least most, starts =>
      let limit := text.length + 1
      let after := iterate (ends text p) (min least limit) starts
      let more := match most with
        | none => limit
        | some most => min (most - least) limit
      collect (ends text p) more after

/-- Whether a part of the text matches. -/
def isMatch (p : Pattern) (text : List Char) : Bool :=
  (ends text p (List.replicate (text.length + 1) true)).any id

end DocumentStore.Pattern
