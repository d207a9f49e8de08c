import DocumentStore.Projection
import DocumentStore.Sort

/-!
# Options of a search

What becomes of the documents that were found: they are sorted, some are skipped
and the number of the others is limited, and what is left is projected.
-/

namespace DocumentStore.Find

structure Options where
  projection : Option (List (String × Value)) := none
  sort : Option SortSpec := none
  limit : Option Nat := none
  skip : Option Nat := none

namespace Options

/-- Skip some documents and limit the number of the others. -/
def page (options : Options) (docs : List Value) : List Value :=
  let rest := docs.drop (options.skip.getD 0)
  match options.limit with
  | some n => rest.take n
  | none => rest

/-- The documents under the options. -/
def apply (options : Options) (docs : List Value) : Result (List Value) := do
  let sorted ← match options.sort with
    | some spec => spec.sort docs
    | none => .ok docs
  let page := options.page sorted
  match options.projection with
  | some projection => page.mapM (Projection.apply projection)
  | none => .ok page

end Options

end DocumentStore.Find
