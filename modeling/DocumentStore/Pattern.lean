import DocumentStore.Text.Blank
import DocumentStore.Text.Digit
import DocumentStore.Text.Fold
import DocumentStore.Text.Word

/-!
# Patterns

A pattern describes texts: characters from a set, places between characters, and
what is made of these by sequence, choice and repetition. Flags do not occur in
it. What a flag changes, such as which characters a dot stands for, is settled
when a pattern is read.
-/

namespace DocumentStore

/-- A set of characters. -/
inductive CharSet where
  | empty
  | range (first last : Char)
  | digit
  | blank
  | word
  | compl (s : CharSet)
  | union (s t : CharSet)
  | inter (s t : CharSet)
  | diff (s t : CharSet)
  | symmDiff (s t : CharSet)
  /-- The characters that have a variant in the set. -/
  | folded (s : CharSet)
deriving DecidableEq

/-- A place in a text, by the characters before and after it. -/
inductive Anchor where
  | textStart
  | textEnd
  | lineStart
  | lineEnd
  /-- The start of a line, where a carriage return ends a line as well. -/
  | anyLineStart
  /-- The end of a line, where a carriage return ends a line as well. -/
  | anyLineEnd
  | wordBoundary
  | noWordBoundary
  | wordStart
  | wordEnd
  | beforeWord
  | afterWord
deriving DecidableEq

inductive Pattern where
  | empty
  | one (set : CharSet)
  | anchor (a : Anchor)
  | seq (first second : Pattern)
  | either (first second : Pattern)
  /-- At least `least` times, and at most `most` times if there is a bound. -/
  | repeated (p : Pattern) (least : Nat) (most : Option Nat)
deriving DecidableEq

namespace CharSet

def single (c : Char) : CharSet := .range c c

def contains : CharSet → Char → Bool
  | .empty, _ => false
  | .range first last, c => first ≤ c && c ≤ last
  | .digit, c => Text.isDigit c
  | .blank, c => Text.isBlank c
  | .word, c => Text.isWord c
  | .compl s, c => !s.contains c
  | .union s t, c => s.contains c || t.contains c
  | .inter s t, c => s.contains c && t.contains c
  | .diff s t, c => s.contains c && !t.contains c
  | .symmDiff s t, c => s.contains c != t.contains c
  | .folded s, c => (Text.variants c).any s.contains

end CharSet

namespace Anchor

/-- Whether a place is between these characters; at an end of the text there is
none. -/
def holds (a : Anchor) (before after : Option Char) : Bool :=
  let word (c : Option Char) : Bool := c.any Text.isWord
  match a with
  | .textStart => before.isNone
  | .textEnd => after.isNone
  | .lineStart => before.isNone || before == some '\n'
  | .lineEnd => after.isNone || after == some '\n'
  | .anyLineStart =>
      before.isNone || before ==
        some '\n' || (before == some '\r' && after != some '\n')
  | .anyLineEnd =>
      after.isNone || after ==
        some '\r' || (after == some '\n' && before != some '\r')
  | .wordBoundary => word before != word after
  | .noWordBoundary => word before == word after
  | .wordStart => !word before && word after
  | .wordEnd => word before && !word after
  | .beforeWord => !word before
  | .afterWord => !word after

end Anchor

end DocumentStore
