import DocumentStore.Path
import DocumentStore.Text.Blank

/-!
# Reading paths

Dots separate units. A unit is a plain segment, any number of brackets after it,
or brackets alone. A plain segment is any text without dots and opening
brackets, and stands for an index if it is the decimal of one. Brackets hold a
quoted key, in which everything but the quote may stand, or an index, which may
have blanks around it.

The text is read once from left to right, and what is read decides what may
come next.
-/

namespace DocumentStore

namespace Segment

/-- The indices that a segment can have. -/
def indexLimit : Nat := 0x10000000000000000

/-- Whether digits are written as they are printed: without zeros in front. -/
def isCanonical : List Char → Bool
  | [] => false
  | ['0'] => true
  | first :: rest => first != '0' && first.isDigit && rest.all Char.isDigit

/-- The segment that a plain text stands for. -/
def ofPlain (raw : List Char) : Segment :=
  if isCanonical raw ∧ Nat.ofDigitChars 10 raw 0 < indexLimit then
    .index (Nat.ofDigitChars 10 raw 0)
  else
    .key (String.ofList raw)

/-- The index between brackets: digits, with a plus sign before them or not, and
blanks around. -/
def ofBracket? (inner : List Char) : Option Segment :=
  let digits := match Text.trim inner with
    | '+' :: rest => rest
    | text => text
  if digits ≠ [] ∧ digits.all Char.isDigit ∧
    Nat.ofDigitChars 10 digits 0 < indexLimit then
    some (.index (Nat.ofDigitChars 10 digits 0))
  else
    none

end Segment

namespace Path

/-- Where the reader stands. What was read of a segment is kept backwards. -/
inductive Place where
  /-- A unit has to start. -/
  | unit
  /-- In a plain segment, which has at least this character. -/
  | plain (last : Char) (read : List Char)
  /-- After a closing bracket. -/
  | closed
  /-- After an opening bracket. -/
  | opened
  /-- In an index. -/
  | index (read : List Char)
  /-- In a quoted key. -/
  | quoted (quote : Char) (read : List Char)
  /-- After the quote that ends a key. -/
  | unquoted (read : List Char)

/-- The place, and the segments that are complete, the last one first. -/
structure Scan where
  place : Place
  segments : List Segment

def isQuote (c : Char) : Bool := c = '\'' || c = '"'

/-- Read one character. -/
def Scan.step (scan : Scan) (c : Char) : Except PathFault Scan :=
  match scan.place with
  | .unit =>
      if c = '.' then .error .emptySegment
      else if c = '[' then .ok { scan with place := .opened }
      else .ok { scan with place := .plain c [] }
  | .plain last read =>
      let segment := Segment.ofPlain (last :: read).reverse
      if c = '.' then .ok ⟨.unit, segment :: scan.segments⟩
      else if c = '[' then .ok ⟨.opened, segment :: scan.segments⟩
      else .ok { scan with place := .plain c (last :: read) }
  | .closed =>
      if c = '.' then .ok { scan with place := .unit }
      else if c = '[' then .ok { scan with place := .opened }
      else .error .missingSeparator
  | .opened =>
      if isQuote c then .ok { scan with place := .quoted c [] }
      else if c = ']' then .error .badIndex
      else .ok { scan with place := .index [c] }
  | .index read =>
      if c = ']' then
        match Segment.ofBracket? read.reverse with
        | some segment => .ok ⟨.closed, segment :: scan.segments⟩
        | none => .error .badIndex
      else .ok { scan with place := .index (c :: read) }
  | .quoted quote read =>
      if c = quote then .ok { scan with place := .unquoted read }
      else .ok { scan with place := .quoted quote (c :: read) }
  | .unquoted read =>
      if c = ']' then
        .ok ⟨.closed, .key (String.ofList read.reverse) :: scan.segments⟩
      else .error .missingBracket

/-- The segments at the end of the text. -/
def Scan.finish (scan : Scan) : Except PathFault (List Segment) :=
  match scan.place with
  | .unit =>
      if scan.segments.isEmpty then .error .empty else .error .trailingDot
  | .plain last read =>
      .ok (Segment.ofPlain (last :: read).reverse :: scan.segments).reverse
  | .closed => .ok scan.segments.reverse
  | .opened => .error .openBracket
  | .index _ => .error .openBracket
  | .quoted _ _ => .error .openQuote
  | .unquoted _ => .error .missingBracket

/-- The segments that a text names. -/
def scan (text : List Char) : Except PathFault (List Segment) := do
  let scan ← text.foldlM Scan.step ⟨.unit, []⟩
  scan.finish

/-- The path that a text names. -/
def parse (text : String) : Result Path :=
  match scan text.toList with
  | .ok segments =>
      if h : segments ≠ [] then .ok ⟨segments, h⟩
      else .error (.invalidPath (.malformed text .empty))
  | .error fault => .error (.invalidPath (.malformed text fault))

end Path

end DocumentStore
