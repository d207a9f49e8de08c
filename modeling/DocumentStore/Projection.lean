import DocumentStore.Path.Access

/-!
# Projections

A projection is a list of paths with flags. If one of them other than the
identifier is excluded, the excluded ones are taken out of the document;
otherwise the document is built anew from the paths that are listed, with the
identifier first unless it is excluded. An empty projection changes nothing.
-/

namespace DocumentStore

namespace Projection

/-- Whether a flag excludes: false or zero. -/
def isExcluded (flag : Value) : Bool :=
  match flag with
  | .bool b => !b
  | _ => flag.isZero

/-- The document without the paths whose flags exclude them. -/
def exclude (excluded : Value → Bool) :
    List (String × Value) → Value → Result Value
  | [], doc => .ok doc
  | (field, flag) :: rest, doc =>
      if excluded flag then do
        let path ← Path.parse field
        exclude excluded rest (path.remove doc).2
      else exclude excluded rest doc

/-- An object that has at most an identifier. -/
def idOnly (id : Option Value) : Value :=
  .object (match id with
    | some id => [(idKey, id)]
    | none => [])

/-- Copy the listed paths from a document to another one. The identifier has
been seen to. -/
def keep (doc : Value) : List (String × Value) → Value → Result Value
  | [], result => .ok result
  | (field, flag) :: rest, result =>
      if field = idKey ∨ isExcluded flag then keep doc rest result
      else do
        let path ← Path.parse field
        match path.get doc with
        | some v => do
            let result ← path.set v result
            keep doc rest result
        | none => keep doc rest result

/-- The document under a projection. -/
def apply (projection : List (String × Value)) (doc : Value) : Result Value :=
  if projection.isEmpty then .ok doc
  else if projection.any fun (field, flag) =>
    field != idKey && isExcluded flag then
    exclude isExcluded projection doc
  else
    let id :=
      if (Fields.get? idKey projection).any isExcluded then none
      else doc.field? idKey
    keep doc projection (idOnly id)

end Projection

end DocumentStore
