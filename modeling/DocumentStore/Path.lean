import DocumentStore.Error

/-!
# Field paths

A path leads from a value into its fields and elements, one segment at a time.
A segment is a key or an index. An index addresses the elements of an array,
and in an object the field whose key is the index in decimal; a key addresses
fields only.
-/

namespace DocumentStore

inductive Segment where
  | key (name : String)
  | index (i : Nat)
deriving DecidableEq

/-- At least one segment. -/
structure Path where
  segments : List Segment
  nonempty : segments ≠ []
deriving DecidableEq

namespace Segment

/-- The key that a segment is in an object. -/
def text : Segment → String
  | .key name => name
  | .index i => String.ofList (Nat.toDigits 10 i)

/-- The container that a write makes where there is none for this segment. -/
def emptyContainer : Segment → Value
  | .key _ => .object []
  | .index _ => .array []

end Segment

end DocumentStore
