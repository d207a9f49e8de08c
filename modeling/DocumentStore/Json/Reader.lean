import DocumentStore.Json.Token
import DocumentStore.Value

/-!
# Reading JSON

Tokens are put together one at a time. The containers that are still open lie
on a stack, the innermost one first; a value that is complete goes into the
innermost container, or is the result if none is open. The height of the stack
is the depth of what is being read, and a limit on it is a limit on depth.

Where a key stands twice in an object, the last value counts and the first
place: that is what assigning the fields in turn does.
-/

namespace DocumentStore.Json

/-- An open container: the items read so far, the last one first, or the fields
read so far with the key whose value is being read. -/
inductive Frame where
  | array (read : List Value)
  | object (read : List (String × Value)) (key : String)

/-- What may come next, and the open containers around it. -/
inductive Build where
  /-- A value has to start. -/
  | value (stack : List Frame)
  /-- After `[`. -/
  | firstItem (stack : List Frame)
  /-- After an item of an array. -/
  | afterItem (read : List Value) (stack : List Frame)
  /-- After `{`, written as an opening brace. -/
  | firstKey (stack : List Frame)
  /-- After a comma in an object. -/
  | nextKey (read : List (String × Value)) (stack : List Frame)
  /-- After a key. -/
  | colon (read : List (String × Value)) (key : String) (stack : List Frame)
  /-- After a field of an object. -/
  | afterField (read : List (String × Value)) (stack : List Frame)
  /-- The whole value is read. -/
  | done (v : Value)

namespace Build

/-- A value is complete: it goes into the innermost container. -/
def accept (v : Value) : List Frame → Build
  | [] => .done v
  | .array read :: stack => .afterItem (v :: read) stack
  | .object read key :: stack => .afterField (Fields.insert key v read) stack

/-- A token where a value starts. -/
def start (limit : Nat) (stack : List Frame) : Token → Option Build
  | .null => some (accept .null stack)
  | .bool b => some (accept (.bool b) stack)
  | .number n => some (accept (.number n) stack)
  | .string s => some (accept (.string s) stack)
  | .openArray => if stack.length < limit then some (.firstItem stack) else none
  | .openObject => if stack.length < limit then some (.firstKey stack) else none
  | _ => none

/-- A token after the start of an object or after a comma in one. -/
def key (read : List (String × Value)) (stack : List Frame) :
    Token → Option Build
  | .string s => some (.colon read s stack)
  | _ => none

/-- Put one token to what was read. -/
def step (limit : Nat) : Build → Token → Option Build
  | .value stack, token => start limit stack token
  | .firstItem stack, .closeArray => some (accept (.array []) stack)
  | .firstItem stack, token => start limit (.array [] :: stack) token
  | .afterItem read stack, .comma => some (.value (.array read :: stack))
  | .afterItem read stack, .closeArray =>
      some (accept (.array read.reverse) stack)
  | .firstKey stack, .closeObject => some (accept (.object []) stack)
  | .firstKey stack, token => key [] stack token
  | .nextKey read stack, token => key read stack token
  | .colon read name stack, .colon => some (.value (.object read name :: stack))
  | .afterField read stack, .comma => some (.nextKey read stack)
  | .afterField read stack, .closeObject => some (accept (.object read) stack)
  | _, _ => none

end Build

/-- The value that tokens stand for, with at most `limit` containers around
each other. -/
def build? (limit : Nat) (tokens : List Token) : Option Value :=
  match tokens.foldlM (Build.step limit) (.value []) with
  | some (.done v) => some v
  | _ => none

/-- The value that a text stands for. -/
def read? (limit : Nat) (text : List Char) : Option Value :=
  (tokens? text).bind (build? limit)

end DocumentStore.Json
