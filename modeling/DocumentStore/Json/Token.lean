import DocumentStore.Number.Text

/-!
# JSON tokens

The text is read once from left to right. Between tokens stand blanks; a
bracket, a comma or a colon is a token by itself; a quote starts a string;
whatever else stands together is one word, which has to be a number or one of
the three names.

A string ends at its quote. Control characters have to be escaped in it, the
escapes are those of JSON, and code units beyond the basic plane come in pairs:
half a pair alone is refused.
-/

namespace DocumentStore.Json

inductive Token where
  | openArray
  | closeArray
  | openObject
  | closeObject
  | comma
  | colon
  | null
  | bool (b : Bool)
  | number (n : Number)
  | string (s : String)
deriving DecidableEq

/-- Where the reader stands in the text. What was read of a word or a string is
kept backwards. -/
inductive Place where
  | between
  | word (read : List Char)
  | inString (read : List Char)
  | escape (read : List Char)
  /-- Within the digits of an escape: `missing + 1` of them are still to
  come. -/
  | unicode (read : List Char) (high : Option Nat) (missing : Nat) (value : Nat)
  /-- After the first half of a pair. -/
  | half (read : List Char) (high : Nat)
  /-- After the first half of a pair and a backslash. -/
  | halfEscape (read : List Char) (high : Nat)

/-- The place, and the tokens that are complete, the last one first. -/
structure Scan where
  place : Place
  tokens : List Token

def isBlank (c : Char) : Bool := c = ' ' || c = '\t' || c = '\n' || c = '\r'

/-- The tokens of one character. -/
def punctuation? : Char → Option Token
  | '[' => some .openArray
  | ']' => some .closeArray
  | '{' => some .openObject
  | '}' => some .closeObject
  | ',' => some .comma
  | ':' => some .colon
  | _ => none

/-- The token that a word stands for. -/
def wordToken? (word : List Char) : Option Token :=
  if word = ['n', 'u', 'l', 'l'] then some .null
  else if word = ['t', 'r', 'u', 'e'] then some (.bool true)
  else if word = ['f', 'a', 'l', 's', 'e'] then some (.bool false)
  else (Number.ofChars? word).map .number

def hexValue? (c : Char) : Option Nat :=
  if '0' ≤ c ∧ c ≤ '9' then some (c.toNat - '0'.toNat)
  else if 'a' ≤ c ∧ c ≤ 'f' then some (c.toNat - 'a'.toNat + 10)
  else if 'A' ≤ c ∧ c ≤ 'F' then some (c.toNat - 'A'.toNat + 10)
  else none

/-- The character that a short escape stands for. -/
def shortEscape? : Char → Option Char
  | '"' => some '"'
  | '\\' => some '\\'
  | '/' => some '/'
  | 'b' => some '\x08'
  | 'f' => some '\x0c'
  | 'n' => some '\n'
  | 'r' => some '\r'
  | 't' => some '\t'
  | _ => none

/-- A code unit that starts a pair. -/
def isHigh (n : Nat) : Bool := 0xD800 ≤ n && n < 0xDC00

/-- A code unit that ends a pair. -/
def isLow (n : Nat) : Bool := 0xDC00 ≤ n && n < 0xE000

/-- The place after all four digits of an escape. -/
def Place.ofUnit? (read : List Char) (high : Option Nat) (unit : Nat) :
    Option Place :=
  match high with
  | some h =>
      if isLow unit then
        some (.inString
          (Char.ofNat (0x10000 + (h - 0xD800) * 0x400 + (unit - 0xDC00)) :: read))
      else none
  | none =>
      if isHigh unit then some (.half read unit)
      else if isLow unit then none
      else some (.inString (Char.ofNat unit :: read))

/-- The place after a character outside strings. -/
def Scan.outside (scan : Scan) (c : Char) : Scan :=
  if isBlank c then { scan with place := .between }
  else if c = '"' then { scan with place := .inString [] }
  else
    match punctuation? c with
    | some token => ⟨.between, token :: scan.tokens⟩
    | none =>
        match scan.place with
        | .word read => { scan with place := .word (c :: read) }
        | _ => { scan with place := .word [c] }

/-- Whether a character goes on with a word. -/
def goesOn (c : Char) : Bool :=
  !isBlank c && c != '"' && (punctuation? c).isNone

/-- Turn a finished word into its token. -/
def Scan.endWord? (scan : Scan) : Option Scan :=
  match scan.place with
  | .word read =>
      (wordToken? read.reverse).map fun token =>
        ⟨.between, token :: scan.tokens⟩
  | _ => some scan

/-- Read one character. -/
def Scan.step (scan : Scan) (c : Char) : Option Scan :=
  match scan.place with
  | .between => some (scan.outside c)
  | .word _ =>
      if goesOn c then some (scan.outside c)
      else scan.endWord?.map (·.outside c)
  | .inString read =>
      if c = '"' then some ⟨.between,
        .string (String.ofList read.reverse) :: scan.tokens⟩
      else if c = '\\' then some { scan with place := .escape read }
      else if c.toNat < 0x20 then none
      else some { scan with place := .inString (c :: read) }
  | .escape read =>
      if c = 'u' then some { scan with place := .unicode read none 3 0 }
      else (shortEscape? c).map fun e =>
        { scan with place := .inString (e :: read) }
  | .unicode read high missing value => do
      let digit ← hexValue? c
      let value := value * 16 + digit
      match missing with
      | missing + 1 =>
          some { scan with place := .unicode read high missing value }
      | 0 =>
          (Place.ofUnit? read high value).map fun place => { scan with place }
  | .half read high =>
      if c = '\\' then some { scan with place := .halfEscape read high }
      else none
  | .halfEscape read high =>
      if c = 'u' then some { scan with place := .unicode read (some high) 3 0 }
      else none

/-- The tokens of a text. -/
def tokens? (text : List Char) : Option (List Token) := do
  let scan ← text.foldlM Scan.step ⟨.between, []⟩
  let scan ← scan.endWord?
  match scan.place with
  | .between => some scan.tokens.reverse
  | _ => none

end DocumentStore.Json
