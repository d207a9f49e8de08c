import DocumentStore.Number.Text
import DocumentStore.Value

/-!
# Writing JSON

Two layouts of the same text. The compact one has no blanks at all. The pretty
one gives every element of a container its own line, two spaces further in than
the container, puts one space after a colon, and writes an empty container on
one line.

In strings only what has to be escaped is: the quote, the backslash and the
control characters, which have short escapes where JSON has them.
-/

namespace DocumentStore.Json

/-- The hexadecimal digit, in lower case. -/
def hexDigit (n : Nat) : Char := Nat.digitChar (n % 16)

/-- A character as it stands in a string. -/
def charText (c : Char) : List Char :=
  if c = '"' then ['\\', '"']
  else if c = '\\' then ['\\', '\\']
  else if c = '\x08' then ['\\', 'b']
  else if c = '\x0c' then ['\\', 'f']
  else if c = '\n' then ['\\', 'n']
  else if c = '\r' then ['\\', 'r']
  else if c = '\t' then ['\\', 't']
  else if c.toNat < 0x20 then
    ['\\', 'u', '0', '0', hexDigit (c.toNat / 16), hexDigit c.toNat]
  else [c]

/-- A string in quotes. -/
def stringChars (s : String) : List Char :=
  '"' :: (s.toList.flatMap charText ++ ['"'])

/-! ## Without blanks -/

mutual

def compactChars : Value → List Char
  | .null => ['n', 'u', 'l', 'l']
  | .bool true => ['t', 'r', 'u', 'e']
  | .bool false => ['f', 'a', 'l', 's', 'e']
  | .number n => n.toChars
  | .string s => stringChars s
  | .array items => '[' :: ([','].intercalate (compactItems items) ++ [']'])
  | .object fields => '{' :: ([','].intercalate (compactFields fields) ++ ['}'])

def compactItems : List Value → List (List Char)
  | [] => []
  | v :: rest => compactChars v :: compactItems rest

def compactFields : List (String × Value) → List (List Char)
  | [] => []
  | (key, v) :: rest =>
      (stringChars key ++ ':' :: compactChars v) :: compactFields rest

end

/-! ## With one element a line -/

/-- A line break and the blanks of a level. -/
def newline (level : Nat) : List Char := '\n' :: List.replicate (2 * level) ' '

/-- Elements between brackets, each on a line of its own. -/
def block (level : Nat) (opening closing : Char) (elements : List (List Char)) :
    List Char :=
  if elements.isEmpty then [opening, closing]
  else
    opening :: (newline (level + 1) ++
      (',' :: newline (level + 1)).intercalate elements ++
        newline level ++ [closing])

mutual

def prettyChars (level : Nat) : Value → List Char
  | .array items => block level '[' ']' (prettyItems (level + 1) items)
  | .object fields => block level '{' '}' (prettyFields (level + 1) fields)
  | .null => ['n', 'u', 'l', 'l']
  | .bool true => ['t', 'r', 'u', 'e']
  | .bool false => ['f', 'a', 'l', 's', 'e']
  | .number n => n.toChars
  | .string s => stringChars s

def prettyItems (level : Nat) : List Value → List (List Char)
  | [] => []
  | v :: rest => prettyChars level v :: prettyItems level rest

def prettyFields (level : Nat) : List (String × Value) → List (List Char)
  | [] => []
  | (key, v) :: rest =>
      (stringChars key ++ ':' :: ' ' :: prettyChars level v) ::
        prettyFields level rest

end

/-- The text of a value in one of the two layouts. -/
def chars (pretty : Bool) (v : Value) : List Char :=
  if pretty then prettyChars 0 v else compactChars v

end DocumentStore.Json

namespace DocumentStore.Value

/-- The text of a value without blanks, which is also how error messages show
it. -/
def compact (v : Value) : String := String.ofList (Json.compactChars v)

end DocumentStore.Value
