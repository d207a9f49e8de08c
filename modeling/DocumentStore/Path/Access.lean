import DocumentStore.Path.Reader

/-!
# Following paths

Looking up, assigning and removing at a path.

An assignment makes the containers that are missing on the way, and one that
fails leaves those it has made: that is why `Path.assign` gives the value
afterwards whether it failed or not. There are two ways to fail, both at an
array: a key that is no index, and an index too far past its end. An index just
past the end pads the array with nulls.

A removal takes a field out of an object, but an element of an array is only
replaced by null, so that the other elements keep their places.
-/

namespace DocumentStore.Path

/-! ## Lookup -/

/-- The part of a value that a segment leads to. -/
def child? (segment : Segment) : Value → Option Value
  | .object fields => Fields.get? segment.text fields
  | .array items =>
      match segment with
      | .index i => items[i]?
      | .key _ => none
  | _ => none

/-- The part of a value that segments lead to. -/
def lookup : List Segment → Value → Option Value
  | [], v => some v
  | segment :: rest, v => (child? segment v).bind (lookup rest)

/-- The part of a value that a path leads to, if there is one. -/
def get (p : Path) (v : Value) : Option Value := lookup p.segments v

/-! ## Assignment -/

/-- How far past the end of an array a write may go. -/
def greatestGap : Nat := 10000

/-- A value into which something can be put: what is no container gives way to
an empty one. -/
def container (segment : Segment) : Value → Value
  | .object fields => .object fields
  | .array items => .array items
  | _ => segment.emptyContainer

/-- Whether a segment can be written in a value. -/
def check (segment : Segment) : Value → Result Unit
  | .array items =>
      match segment with
      | .key name => .error (.typeMismatch (.fieldInArray name))
      | .index i =>
          if i - items.length > greatestGap then
            .error (.invalidPath (.farIndex i items.length))
          else .ok ()
  | _ => .ok ()

/-- Put a value where a segment leads, past the end of an array with nulls in
between. -/
def put (segment : Segment) (new : Value) : Value → Value
  | .object fields => .object (Fields.insert segment.text new fields)
  | .array items =>
      match segment with
      | .index i =>
          .array
            ((items ++ List.replicate
              (i + 1 - items.length) Value.null).set i new)
      | .key _ => .array items
  | v => v

/-- Assign at segments: the value afterwards, and the error that stopped it. -/
def assign : List Segment → Value → Value → Value × Result Unit
  | [], new, _ => (new, .ok ())
  | segment :: rest, new, old =>
      let parent := container segment old
      match check segment parent with
      | .error e => (parent, .error e)
      | .ok () =>
          let (child, outcome) :=
            assign rest new ((child? segment parent).getD .null)
          (put segment child parent, outcome)

/-- The value with `new` at a path. -/
def set (p : Path) (new v : Value) : Result Value :=
  match assign p.segments new v with
  | (changed, .ok ()) => .ok changed
  | (_, .error e) => .error e

/-! ## Removal -/

/-- The value without what the segments lead to. -/
def erase : List Segment → Value → Value
  | [], v => v
  | segment :: [], .object fields => .object (Fields.erase segment.text fields)
  | .index i :: [], .array items => .array (items.set i Value.null)
  | segment :: rest, .object fields =>
      .object (Fields.modify segment.text (erase rest) fields)
  | .index i :: rest, .array items => .array (items.modify i (erase rest))
  | _, v => v

/-- What a path leads to, and the value without it. -/
def remove (p : Path) (v : Value) : Option Value × Value :=
  (p.get v, erase p.segments v)

end DocumentStore.Path
