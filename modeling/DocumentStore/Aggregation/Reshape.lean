import DocumentStore.Expression
import DocumentStore.Projection

/-!
# Reshaping documents

The stages that make one document, or several, of each one, without looking at
the others.
-/

namespace DocumentStore.Aggregation

/-! ## Projecting -/

/-- Whether a field is taken over as it is: by true or by the number one. -/
def isIncluded (spec : Value) : Bool :=
  match spec with
  | .bool b => b
  | _ => Expression.isOne spec

/-- The fields of a projection that computes, from a document to another one.
The identifier has been seen to. -/
def computeFields (doc : Value) : List (String × Value) → Value → Result Value
  | [], result => .ok result
  | (field, spec) :: rest, result =>
      if field = idKey then computeFields doc rest result
      else do
        let path ← Path.parse field
        let v ← if isIncluded spec then .ok (path.get doc)
            else Expression.eval doc spec
        match v with
        | some v => do
            let result ← path.set v result
            computeFields doc rest result
        | none => computeFields doc rest result

/-- The identifier of a projected document: the document's own unless an
expression is given for it. -/
def projectId (doc : Value) (spec : Option Value) : Result (Option Value) :=
  match spec with
  | some spec =>
      if isIncluded spec then .ok (doc.field? idKey)
      else Expression.eval doc spec
  | none => .ok (doc.field? idKey)

/-- The document under `$project`. If a field is excluded, those that are
excluded are taken out; otherwise the document is built anew. -/
def project (fields : List (String × Value)) (doc : Value) : Result Value :=
  if fields.any fun (_, spec) => spec.isZero then
    Projection.exclude Value.isZero fields doc
  else do
    let id ← projectId doc (Fields.get? idKey fields)
    computeFields doc fields (Projection.idOnly id)

/-! ## Adding fields -/

/-- Set computed fields in a document. All of them are computed for `doc`,
whatever was set before. -/
def addFields (doc : Value) : List (Path × Value) → Value → Result Value
  | [], result => .ok result
  | (path, expr) :: rest, result => do
      match ← Expression.eval doc expr with
      | some v => do
          let result ← path.set v result
          addFields doc rest result
      | none => addFields doc rest result

/-! ## Unwinding -/

/-- One document for each element of the array at a path. An empty array gives
none, or the document without it; any other document is left as it is. -/
def unwind (path : Path) (keepEmpty : Bool) (doc : Value) :
    Result (List Value) :=
  match path.get doc with
  | some (.array []) => .ok (if keepEmpty then [(path.remove doc).2] else [])
  | some (.array items) => items.mapM fun item => path.set item doc
  | _ => .ok [doc]

/-! ## Replacing -/

/-- The object that an expression gives for a document. -/
def replaceRoot (expr doc : Value) : Result Value := do
  match ← Expression.eval doc expr with
  | some (.object fields) => .ok (.object fields)
  | other => .error (.typeMismatch (.newRoot other))

end DocumentStore.Aggregation
