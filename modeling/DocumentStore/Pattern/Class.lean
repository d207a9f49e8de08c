import DocumentStore.Pattern.Escape

/-!
# Bracketed classes

A class lists characters, ranges, escapes, the named classes of ASCII and other
classes. Between lists may stand operators, which all bind alike and to the
left: `&&` for what is in both, `--` for what is only in the first and `~~` for
what is in one of them. A caret at the front means all other characters.

Hyphens at the front, and a closing bracket there, stand for themselves. So does
a hyphen before the closing bracket; elsewhere it makes a range.

Where cases do not matter every list is closed under variants, before an
operator or a caret is applied to it.
-/

namespace DocumentStore.Pattern

inductive SetOperator where
  | inter
  | diff
  | symmDiff

def SetOperator.apply : SetOperator → CharSet → CharSet → CharSet
  | .inter => .inter
  | .diff => .diff
  | .symmDiff => .symmDiff

/-- What is to be done when the list that is being read is complete. -/
inductive ClassFrame where
  /-- Add it to the list outside the brackets. -/
  | bracket (outside : CharSet) (negated : Bool)
  /-- Combine it with the list before an operator. -/
  | operand (operator : SetOperator) (left : CharSet)

/-- The list so far, and what lies around it. -/
structure ClassState where
  list : CharSet
  around : List ClassFrame

/-- The list with all variants, where cases do not matter. -/
def closure (flags : Flags) (s : CharSet) : CharSet :=
  if flags.fold then .folded s else s

/-- The other characters, after a caret. -/
def negate (negated : Bool) (s : CharSet) : CharSet :=
  if negated then .compl s else s

def ranges (rs : List (Char × Char)) : CharSet :=
  rs.foldl (fun s (first, last) => .union s (.range first last)) .empty

/-- The characters of a named class of ASCII. -/
def namedClass? : String → Option (List (Char × Char))
  | "alnum" => some [('0', '9'), ('A', 'Z'), ('a', 'z')]
  | "alpha" => some [('A', 'Z'), ('a', 'z')]
  | "ascii" => some [('\x00', '\x7f')]
  | "blank" => some [('\t', '\t'), (' ', ' ')]
  | "cntrl" => some [('\x00', '\x1f'), ('\x7f', '\x7f')]
  | "digit" => some [('0', '9')]
  | "graph" => some [('!', '~')]
  | "lower" => some [('a', 'z')]
  | "print" => some [(' ', '~')]
  | "punct" => some [('!', '/'), (':', '@'), ('[', '\x60'), ('\x7b', '~')]
  | "space" => some [('\t', '\r'), (' ', ' ')]
  | "upper" => some [('A', 'Z')]
  | "word" => some [('0', '9'), ('A', 'Z'), ('_', '_'), ('a', 'z')]
  | "xdigit" => some [('0', '9'), ('A', 'F'), ('a', 'f')]
  | _ => none

/-- The named class at the front of a text, its opening bracket already read.
Anything else after the bracket is a class inside the class. -/
def namedClassAt? (flags : Flags) : List Char → Option (CharSet × List Char)
  | ':' :: rest =>
      let (negated, rest) := match rest with
        | '^' :: rest => (true, rest)
        | _ => (false, rest)
      match rest.span (· != ':') with
      | (name, ':' :: ']' :: rest) =>
          (namedClass? (String.ofList name)).map fun rs =>
            (negate negated (closure flags (ranges rs)), rest)
      | _ => none
  | _ => none

/-- Hyphens at the front of a class, each without what counts for nothing after
it. -/
def leadingHyphens (flags : Flags) : Nat → List Char → Bool × List Char
  | fuel + 1, '-' :: rest =>
      (true, (leadingHyphens flags fuel (skip flags rest)).2)
  | _, text => (false, text)

/-- The start of a class, its bracket already read: whether there is a caret,
and what stands for itself at the front. -/
def openClass? (flags : Flags) (text : List Char) :
    Option (Bool × CharSet × List Char) :=
  let text := skip flags text
  let (negated, text) := match text with
    | '^' :: rest => (true, skip flags rest)
    | _ => (false, text)
  match leadingHyphens flags text.length text with
  | (true, rest) =>
      if rest.isEmpty then none else some (negated, .single '-', rest)
  | (false, ']' :: rest) => some (negated, .single ']', rest)
  | (false, rest) => if rest.isEmpty then none else some (negated, .empty, rest)

/-- One element of a list, which may also be an end of a range. -/
def classItem? (flags : Flags) : List Char → Option (Escape × List Char)
  | [] => none
  | '\\' :: rest => escape? flags rest
  | c :: rest => some (.char c, rest)

/-- An element or a range. -/
def classRange? (flags : Flags) (text : List Char) :
    Option (CharSet × List Char) := do
  let (first, rest) ← classItem? flags text
  let alone : Option (CharSet × List Char) :=
    match first with
    | .char c => some (.single c, skip flags rest)
    | .set s => some (s, skip flags rest)
    | .anchor _ => none
  match skip flags rest with
  | '-' :: after =>
      let after := skip flags after
      if after.head? = some ']' ∨ after.head? = some '-' then alone
      else
        match first, ← classItem? flags after with
        | .char a, (.char b, rest) =>
            if a ≤ b then some (.range a b, rest) else none
        | _, _ => none
  | _ => alone

namespace ClassState

/-- Put characters into the list. -/
def add (state : ClassState) (s : CharSet) : ClassState :=
  { state with list := .union state.list s }

/-- Combine the list with the one before the operator, if there is one. -/
def combine (flags : Flags) (state : ClassState) : ClassState :=
  match state.around with
  | .operand operator left :: around =>
      ⟨operator.apply (closure flags left) (closure flags state.list), around⟩
  | _ => state

/-- Start the list after an operator. -/
def operator (flags : Flags) (state : ClassState)
    (op : SetOperator) : ClassState :=
  let left := state.combine flags
  ⟨.empty, .operand op left.list :: left.around⟩

/-- Close a bracket. -/
def close (flags : Flags) (state : ClassState) : ClassState :=
  let inner := state.combine flags
  match inner.around with
  | .bracket outside negated :: around =>
      ⟨.union outside (negate negated (closure flags inner.list)), around⟩
  | _ => inner

end ClassState

/-- Read up to the bracket that closes the outermost class. Each recursion is on
a shorter text, and `fuel` is the length of the first. -/
def readClass? (flags : Flags) :
    Nat → ClassState → List Char → Option (CharSet × List Char)
  | 0, _, _ => none
  | fuel + 1, state, text =>
      match skip flags text with
      | [] => none
      | '[' :: rest =>
          match namedClassAt? flags rest with
          | some (s, rest) => readClass? flags fuel (state.add s) rest
          | none => do
              let (negated, start, rest) ← openClass? flags rest
              readClass? flags fuel ⟨start,
                .bracket state.list negated :: state.around⟩ rest
      | ']' :: rest =>
          let state := state.close flags
          if state.around.isEmpty then some (state.list, rest)
          else readClass? flags fuel state rest
      | '&' :: '&' :: rest =>
          readClass? flags fuel (state.operator flags .inter) rest
      | '-' :: '-' :: rest =>
          readClass? flags fuel (state.operator flags .diff) rest
      | '~' :: '~' :: rest =>
          readClass? flags fuel (state.operator flags .symmDiff) rest
      | text => do
          let (s, rest) ← classRange? flags text
          readClass? flags fuel (state.add s) rest

/-- The class at the front of a text, its bracket already read. -/
def class? (flags : Flags) (text : List Char) :
    Option (CharSet × List Char) := do
  let (negated, start, rest) ← openClass? flags text
  readClass? flags (rest.length + 1) ⟨start, [.bracket .empty negated]⟩ rest

end DocumentStore.Pattern
