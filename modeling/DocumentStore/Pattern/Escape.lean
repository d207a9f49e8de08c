import DocumentStore.Pattern

/-!
# Escapes

What a backslash makes of the characters after it: a character, a set of
characters or a place. In the verbose mode blanks and comments between the
characters of an escape count for nothing, as everywhere.

Letters and digits have to be known escapes, for a letter that means nothing
today may mean something later. Every other ASCII character stands for itself,
except for the angle brackets, which are the ends of words.

The escapes `\p` and `\P` for the properties of characters are not among the
known ones: whatever property they name, a pattern with one of them is refused.
-/

namespace DocumentStore.Pattern

/-- What can be said about the text of a pattern before it is read. -/
structure Flags where
  /-- Cases do not matter. -/
  fold : Bool
  /-- Lines have a start and an end of their own. -/
  lines : Bool
  /-- A dot stands for a line feed too. -/
  dotAll : Bool
  /-- Blanks and comments count for nothing. -/
  verbose : Bool
  /-- A carriage return ends a line as well. -/
  carriage : Bool
deriving DecidableEq

/-- What an escape stands for. -/
inductive Escape where
  | char (c : Char)
  | set (s : CharSet)
  | anchor (a : Anchor)

/-- Skip blanks, and comments up to the end of the line. -/
def skipBlanks (inComment : Bool) : List Char → List Char
  | [] => []
  | c :: rest =>
      if inComment then skipBlanks (c != '\n') rest
      else if Text.isBlank c then skipBlanks false rest
      else if c = '#' then skipBlanks true rest
      else c :: rest

/-- Skip what counts for nothing under the flags. -/
def skip (flags : Flags) (text : List Char) : List Char :=
  if flags.verbose then skipBlanks false text else text

/-- The value of hexadecimal digits. -/
def hexNumber? (digits : List Char) : Option Nat :=
  digits.foldlM (fun n c =>
    if '0' ≤ c ∧ c ≤ '9' then some (n * 16 + (c.toNat - '0'.toNat))
    else if 'a' ≤ c ∧ c ≤ 'f' then some (n * 16 + (c.toNat - 'a'.toNat + 10))
    else if 'A' ≤ c ∧ c ≤ 'F' then some (n * 16 + (c.toNat - 'A'.toNat + 10))
    else none) 0

/-- The character with a code point, if there is one. -/
def charOfPoint? (n : Nat) : Option Char :=
  if n.isValidChar then some (Char.ofNat n) else none

/-- So many characters, without what counts for nothing before each. -/
def takeChars? (flags : Flags) :
    Nat → List Char → Option (List Char × List Char)
  | 0, text => some ([], text)
  | n + 1, text =>
      match skip flags text with
      | [] => none
      | c :: rest =>
          (takeChars? flags n rest).map fun (taken, rest) => (c :: taken, rest)

/-- The characters up to a closing brace. Each recursion is on a shorter text,
and `fuel` is the length of the first. -/
def takeBraced? (flags : Flags) :
    Nat → List Char → Option (List Char × List Char)
  | 0, _ => none
  | fuel + 1, text =>
      match skip flags text with
      | [] => none
      | '\x7d' :: rest => some ([], rest)
      | c :: rest =>
          (takeBraced? flags fuel rest).map fun (taken, rest) =>
            (c :: taken, rest)

/-- A code point in hexadecimal: so many digits, or any number in braces. -/
def hexEscape? (flags : Flags) (width : Nat) (text : List Char) :
    Option (Escape × List Char) := do
  let (digits, rest) ←
    match skip flags text with
    | '\x7b' :: rest => takeBraced? flags (rest.length + 1) rest
    | text => takeChars? flags width text
  if digits.isEmpty then none
  else
    let c ← charOfPoint? (← hexNumber? digits)
    some (.char c, rest)

/-- A boundary of words with its name in braces, if that is what follows. -/
def namedBoundary? (flags : Flags) (text : List Char) :
    Option (Option (Anchor × List Char)) :=
  match text with
  | '\x7b' :: inner =>
      match skip flags inner with
      | [] => none
      | c :: _ =>
          if c.isAlpha ∨ c = '-' then
            match takeBraced? flags (inner.length + 1) inner with
            | none => none
            | some (name, rest) =>
                match String.ofList name with
                | "start" => some (some (.wordStart, rest))
                | "end" => some (some (.wordEnd, rest))
                | "start-half" => some (some (.beforeWord, rest))
                | "end-half" => some (some (.afterWord, rest))
                | _ => none
          else some none
  | _ => some none

/-- The escape at the front of a text, the backslash already read. -/
def escape? (flags : Flags) : List Char → Option (Escape × List Char)
  | [] => none
  | c :: rest =>
      match c with
      | 'd' => some (.set .digit, rest)
      | 'D' => some (.set (.compl .digit), rest)
      | 's' => some (.set .blank, rest)
      | 'S' => some (.set (.compl .blank), rest)
      | 'w' => some (.set .word, rest)
      | 'W' => some (.set (.compl .word), rest)
      | 'x' => hexEscape? flags 2 rest
      | 'u' => hexEscape? flags 4 rest
      | 'U' => hexEscape? flags 8 rest
      | 'a' => some (.char '\x07', rest)
      | 'f' => some (.char '\x0c', rest)
      | 't' => some (.char '\t', rest)
      | 'n' => some (.char '\n', rest)
      | 'r' => some (.char '\r', rest)
      | 'v' => some (.char '\x0b', rest)
      | 'A' => some (.anchor .textStart, rest)
      | 'z' => some (.anchor .textEnd, rest)
      | 'B' => some (.anchor .noWordBoundary, rest)
      | '<' => some (.anchor .wordStart, rest)
      | '>' => some (.anchor .wordEnd, rest)
      | 'b' =>
          (namedBoundary? flags rest).map fun named =>
            match named with
            | some (a, rest) => (.anchor a, rest)
            | none => (.anchor .wordBoundary, rest)
      | c => if c.isAlphanum ∨ 128 ≤ c.toNat then none else some (.char c, rest)

end DocumentStore.Pattern
