import DocumentStore.Aggregation.Accumulator
import DocumentStore.IdIndex

/-!
# Grouping

Documents belong to one group if the results of an expression for them have the
same text; a missing result counts as null. An index leads from the text to the
place of the group. Groups stand in the order of their first documents, and a
group keeps its documents in order.
-/

namespace DocumentStore.Aggregation

structure Group where
  id : Value
  docs : List Value

/-- A group with one more document. -/
def Group.extend (group : Group) (doc : Value) : Group :=
  { group with docs := group.docs ++ [doc] }

/-- Groups, and the place of the group for each text. -/
structure Grouping where
  slots : IdIndex
  groups : List Group

namespace Grouping

def empty : Grouping := ⟨[], []⟩

/-- Put a document into the group with its identifier, or into a new one at the
end. -/
def add (grouping : Grouping) (id doc : Value) : Grouping :=
  match grouping.slots.find? id with
  | some slot =>
      { grouping with
        groups := grouping.groups.modify slot fun group => group.extend doc }
  | none =>
      { slots := grouping.slots.enter id grouping.groups.length,
        groups := grouping.groups ++ [⟨id, [doc]⟩] }

end Grouping

/-- Put documents into groups, one after another. -/
def groupInto (expr : Value) (grouping : Grouping) :
    List Value → Result Grouping
  | [] => .ok grouping
  | doc :: rest => do
      let id ← Expression.eval doc expr
      groupInto expr (grouping.add (id.getD .null) doc) rest

/-- What the accumulators make of a group, field by field. -/
def accumulate (docs : List Value) :
    List (String × Accumulator) → Result (List (String × Value))
  | [] => .ok []
  | (field, a) :: rest => do
      let v ← a.compute docs
      let others ← accumulate docs rest
      .ok ((field, v) :: others)

/-- The document that a group becomes. -/
def Group.document (accumulators : List (String × Accumulator))
    (group : Group) : Result Value := do
  let fields ← accumulate group.docs accumulators
  .ok (.object ((idKey, group.id) :: fields))

/-- One document for each group. -/
def group (expr : Value) (accumulators : List (String × Accumulator))
    (docs : List Value) :
    Result (List Value) := do
  let grouping ← groupInto expr .empty docs
  grouping.groups.mapM (Group.document accumulators)

end DocumentStore.Aggregation
