import DocumentStore.Pattern.Class

/-!
# Reading patterns

A pattern is a choice of sequences of repeated pieces, with groups for
parentheses. Groups that are still open lie on a stack with what was read before
them; flags that are set in a group hold up to its end.

Whatever could be mistaken is refused: parentheses without partner, a repetition
of nothing, a brace that starts no count, unknown escapes and flags. Looking
around and referring back are refused as well, for a set of places cannot do
that. Patterns are about characters, so the flag that says so can be set but not
taken away: `(?-u:..)`, which elsewhere can turn to bytes, is always refused.

There is no limit on the size of a pattern or on how deep its groups lie in each
other. Where there is one, patterns are refused that are read here.
-/

namespace DocumentStore.Pattern

/-- An element of a sequence. A setting of flags cannot be repeated. -/
inductive Item where
  | piece (p : Pattern)
  | setting

/-- What was read of a group: the choices that are complete and the elements of
the one that is not, both backwards. -/
structure Group where
  choices : List Pattern
  items : List Item

structure ReadState where
  flags : Flags
  /-- The names of groups so far. -/
  names : List (List Char)
  group : Group
  /-- The groups around, with the flags they go on with. -/
  around : List (Flags × Group)

namespace Group

def empty : Group := ⟨[], []⟩

/-- The sequence that is being read. -/
def sequence (g : Group) : Pattern :=
  g.items.foldl (fun after item =>
    match item with
    | .piece p => .seq p after
    | .setting => after) .empty

/-- The choice of all that was read. -/
def pattern (g : Group) : Pattern :=
  g.choices.foldl (fun later choice => .either choice later) g.sequence

/-- Go on to the next choice. -/
def nextChoice (g : Group) : Group := ⟨g.sequence :: g.choices, []⟩

end Group

namespace ReadState

def push (state : ReadState) (item : Item) : ReadState :=
  { state with group := { state.group with
    items := item :: state.group.items } }

/-- Repeat the last element. -/
def repeat? (state : ReadState) (least : Nat) (most : Option Nat) :
    Option ReadState :=
  match state.group.items with
  | .piece p :: before =>
      some { state with
        group := { state.group with
          items := .piece (.repeated p least most) :: before } }
  | _ => none

/-- Open a group that has its own flags. -/
def openGroup (state : ReadState) (flags : Flags) : ReadState :=
  { state with
    flags, group := .empty,
    around := (state.flags, state.group) :: state.around }

/-- Close the innermost group. -/
def closeGroup? (state : ReadState) : Option ReadState :=
  match state.around with
  | (flags, outer) :: around =>
      some ({ state with flags, group := outer, around }.push
        (.piece state.group.pattern))
  | [] => none

end ReadState

/-! ## Single characters -/

/-- The set that a character stands for. -/
def literal (flags : Flags) (c : Char) : Pattern :=
  .one (if flags.fold then .folded (.single c) else .single c)

def dot (flags : Flags) : Pattern :=
  let missing : CharSet :=
    if flags.dotAll then .empty
    else if flags.carriage then .union (.single '\r') (.single '\n')
    else .single '\n'
  .one (.compl missing)

def caret (flags : Flags) : Pattern :=
  .anchor (if !flags.lines then .textStart
    else if flags.carriage then .anyLineStart else .lineStart)

def dollar (flags : Flags) : Pattern :=
  .anchor (if !flags.lines then .textEnd
    else if flags.carriage then .anyLineEnd else .lineEnd)

/-! ## Counts -/

/-- The digits at the front. -/
def countDigits (flags : Flags) : Nat → List Char → List Char × List Char
  | fuel + 1, c :: rest =>
      if c.isDigit then
        let (digits, rest) := countDigits flags fuel (skip flags rest)
        (c :: digits, rest)
      else ([], c :: rest)
  | _, text => ([], text)

/-- A number of 32 bits, with blanks around. -/
def count? (flags : Flags) (text : List Char) : Option (Nat × List Char) :=
  let text := text.dropWhile Text.isBlank
  let (digits, rest) := countDigits flags text.length text
  let n := Nat.ofDigitChars 10 digits 0
  if digits.isEmpty ∨ 0x100000000 ≤ n then none
  else some (n, skip flags (rest.dropWhile Text.isBlank))

/-- The bounds in braces, the opening brace already read: one number for both,
two of them, or only a lower one. -/
def bounds? (flags : Flags) (text : List Char) :
    Option (Nat × Option Nat × List Char) := do
  let (least, rest) ← count? flags (skip flags text)
  match rest with
  | '\x7d' :: rest => some (least, some least, rest)
  | ',' :: rest =>
      match skip flags rest with
      | '\x7d' :: rest => some (least, none, rest)
      | rest =>
          match ← count? flags rest with
          | (most, '\x7d' :: rest) =>
              if least ≤ most then some (least, some most, rest) else none
          | _ => none
  | _ => none

/-- A question mark after a repetition says that it is lazy. -/
def skipLazy : List Char → List Char
  | '?' :: rest => rest
  | text => text

/-! ## Groups -/

def isNameChar (first : Bool) (c : Char) : Bool :=
  c = '_' || (Text.isWord c && !(first && Text.isDigit c)) ||
    (!first && (c = '.' || c = '[' || c = ']'))

/-- The name of a group up to the closing angle bracket. -/
def groupName? (text : List Char) : Option (List Char × List Char) :=
  match text.span (· != '>') with
  | (first :: others, _ :: rest) =>
      if isNameChar true first ∧
        others.all (isNameChar false) then some (first :: others, rest)
      else none
  | _ => none

/-- Set one flag. Greed does not matter for a match, and characters are always
those of Unicode. -/
def Flags.assign? (flags : Flags) (on : Bool) : Char → Option Flags
  | 'i' => some { flags with fold := on }
  | 'm' => some { flags with lines := on }
  | 's' => some { flags with dotAll := on }
  | 'x' => some { flags with verbose := on }
  | 'R' => some { flags with carriage := on }
  | 'U' => some flags
  | 'u' => if on then some flags else none
  | _ => none

/-- The flags after letters, those after a hyphen being taken away. No letter
stands twice. -/
def Flags.update? (flags : Flags) (letters : List Char) : Option Flags :=
  if letters.eraseDups.length ≠ letters.length ∨
    letters.getLast? = some '-' then none
  else do
    let (on, off) := letters.span (· != '-')
    let flags ← on.foldlM (fun flags c => flags.assign? true c) flags
    (off.drop 1).foldlM (fun flags c => flags.assign? false c) flags

/-- The start of a group with a name, which no other group has. -/
def openNamed? (state : ReadState) (text : List Char) :
    Option (ReadState × List Char) := do
  let (name, rest) ← groupName? text
  if state.names.contains name then none
  else some ({ state with names := name :: state.names }.openGroup state.flags,
    rest)

/-- The start of a group, its parenthesis already read. -/
def openGroup? (state : ReadState) (text : List Char) :
    Option (ReadState × List Char) :=
  match skip state.flags text with
  | '?' :: '=' :: _ => none
  | '?' :: '!' :: _ => none
  | '?' :: '<' :: '=' :: _ => none
  | '?' :: '<' :: '!' :: _ => none
  | '?' :: 'P' :: '<' :: rest => openNamed? state rest
  | '?' :: '<' :: rest => openNamed? state rest
  | '?' :: rest =>
      match rest.span fun c => c != ':' && c != ')' with
      | (letters, ':' :: rest) => do
          let flags ← state.flags.update? letters
          some (state.openGroup flags, rest)
      | (letters, ')' :: rest) => do
          let flags ← state.flags.update? letters
          if letters.isEmpty then none
          else some ({ state with flags }.push .setting, rest)
      | _ => none
  | rest => some (state.openGroup state.flags, rest)

/-! ## The whole pattern -/

/-- Read one element, operator or parenthesis. -/
def step? (state : ReadState) : List Char → Option (ReadState × List Char)
  | [] => none
  | '(' :: rest => openGroup? state rest
  | ')' :: rest => state.closeGroup?.map (·, rest)
  | '|' :: rest => some ({ state with group := state.group.nextChoice }, rest)
  | '[' :: rest => do
      let (s, rest) ← class? state.flags rest
      some (state.push (.piece (.one s)), rest)
  | '?' :: rest => (state.repeat? 0 (some 1)).map (·, skipLazy rest)
  | '*' :: rest => (state.repeat? 0 none).map (·, skipLazy rest)
  | '+' :: rest => (state.repeat? 1 none).map (·, skipLazy rest)
  | '\x7b' :: rest => do
      let (least, most, rest) ← bounds? state.flags rest
      (state.repeat? least most).map (·, skipLazy (skip state.flags rest))
  | '\\' :: rest => do
      let (escape, rest) ← escape? state.flags rest
      let piece := match escape with
        | .char c => literal state.flags c
        | .set s => .one s
        | .anchor a => .anchor a
      some (state.push (.piece piece), rest)
  | '.' :: rest => some (state.push (.piece (dot state.flags)), rest)
  | '^' :: rest => some (state.push (.piece (caret state.flags)), rest)
  | '$' :: rest => some (state.push (.piece (dollar state.flags)), rest)
  | c :: rest => some (state.push (.piece (literal state.flags c)), rest)

/-- Read to the end. Each recursion is on a shorter text, and `fuel` is the
length of the first. -/
def readAll? : Nat → ReadState → List Char → Option Pattern
  | fuel, state, text =>
      match skip state.flags text with
      | [] => if state.around.isEmpty then some state.group.pattern else none
      | rest =>
          match fuel with
          | 0 => none
          | fuel + 1 => do
              let (state, rest) ← step? state rest
              readAll? fuel state rest

/-- The pattern that a text describes under flags, if it describes one. -/
def read? (flags : Flags) (text : List Char) : Option Pattern :=
  readAll? text.length ⟨flags, [], .empty, []⟩ text

end DocumentStore.Pattern
