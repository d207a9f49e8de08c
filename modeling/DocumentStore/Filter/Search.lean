import DocumentStore.Error
import DocumentStore.Pattern.Matcher
import DocumentStore.Pattern.Reader
import DocumentStore.Value.Wrapper

/-!
# Searching with patterns

A pattern comes with a string of options. Of its letters four mean something:
`i` for cases that do not matter, `m` for lines, `s` for a dot that stands for
everything, and `x` for the verbose mode; all others count for nothing.
-/

namespace DocumentStore.Filter

/-- The flags that a string of options sets. -/
def flags (options : List Char) : Pattern.Flags where
  fold := options.contains 'i'
  lines := options.contains 'm'
  dotAll := options.contains 's'
  verbose := options.contains 'x'
  carriage := false

/-- The pattern that values describe. Options that are no string are none. -/
def compile (pattern : Value) (options : Option Value) : Result Pattern :=
  match pattern with
  | .string text =>
      let letters := (options.bind Value.asString?).elim [] String.toList
      match Pattern.read? (flags letters) text.toList with
      | some p => .ok p
      | none => .error (.invalidQuery (.pattern text))
  | _ => .error (.invalidQuery .patternText)

/-- Whether a value is a string in which a pattern is found. -/
def isFound (p : Pattern) : Option Value → Bool
  | some (.string s) => p.isMatch s.toList
  | _ => false

end DocumentStore.Filter
