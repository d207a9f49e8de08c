import DocumentStore.Error

/-!
# Write models

A write model says what one operation of a bulk write is to do. It is written as
an object whose only key is the name of the operation, with an object of what it
needs. Whatever else stands in that object counts for nothing.
-/

namespace DocumentStore

inductive WriteModel where
  | insertOne (document : Value)
  | updateOne (filter update : Value) (upsert : Bool)
  | updateMany (filter update : Value) (upsert : Bool)
  | replaceOne (filter replacement : Value) (upsert : Bool)
  | deleteOne (filter : Value)
  | deleteMany (filter : Value)
deriving DecidableEq

namespace WriteModel

/-- A field that has to be there. -/
def required (fields : List (String × Value)) (key : String) : Result Value :=
  match Fields.get? key fields with
  | some v => .ok v
  | none => .error .serialization

/-- A flag, which is false if it is not there. -/
def flag (fields : List (String × Value)) (key : String) : Result Bool :=
  match Fields.get? key fields with
  | none => .ok false
  | some (.bool b) => .ok b
  | some _ => .error .serialization

/-- The model of an operation that changes documents. -/
def ofChange (make : Value → Value → Bool → WriteModel) (key : String)
    (fields : List (String × Value)) : Result WriteModel := do
  let filter ← required fields "filter"
  let change ← required fields key
  let upsert ← flag fields "upsert"
  .ok (make filter change upsert)

/-- The write model that a value is. -/
def ofValue : Value → Result WriteModel
  | .object [(name, .object fields)] =>
      match name with
      | "insertOne" => .insertOne <$> required fields "document"
      | "updateOne" => ofChange .updateOne "update" fields
      | "updateMany" => ofChange .updateMany "update" fields
      | "replaceOne" => ofChange .replaceOne "replacement" fields
      | "deleteOne" => .deleteOne <$> required fields "filter"
      | "deleteMany" => .deleteMany <$> required fields "filter"
      | _ => .error .serialization
  | _ => .error .serialization

/-- The write models that a value lists. -/
def listOfValue : Value → Result (List WriteModel)
  | .array models => models.mapM ofValue
  | _ => .error .serialization

/-- The value of an operation that changes documents. -/
def changing (name : String) (filter : Value) (key : String) (change : Value)
    (upsert : Bool) : Value :=
  .object
    [(name, .object [("filter", filter), (key, change),
      ("upsert", .bool upsert)])]

/-- The value that a write model is written as. -/
def toValue : WriteModel → Value
  | .insertOne document =>
      .object [("insertOne", .object [("document", document)])]
  | .updateOne filter update upsert =>
      changing "updateOne" filter "update" update upsert
  | .updateMany filter update upsert =>
      changing "updateMany" filter "update" update upsert
  | .replaceOne filter replacement upsert =>
      changing "replaceOne" filter "replacement" replacement upsert
  | .deleteOne filter => .object [("deleteOne", .object [("filter", filter)])]
  | .deleteMany filter => .object [("deleteMany", .object [("filter", filter)])]

end WriteModel

end DocumentStore
