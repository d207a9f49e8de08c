import DocumentStore.Error

/-!
# Options of updates
-/

namespace DocumentStore

/-- The options of an update. -/
structure UpdateOptions where
  upsert : Bool := false
deriving DecidableEq

/-- The options that an object gives. -/
def UpdateOptions.ofValue : Value → Result UpdateOptions
  | .object fields =>
      match Fields.get? "upsert" fields with
      | none => .ok {}
      | some (.bool upsert) => .ok ⟨upsert⟩
      | some _ => .error .serialization
  | _ => .error .serialization

/-- Which version of a document is given back. -/
inductive ReturnDocument where
  | before
  | after
deriving DecidableEq

/-- The options of finding a document and updating it. -/
structure FindOneAndUpdateOptions where
  upsert : Bool := false
  returned : ReturnDocument := .before
deriving DecidableEq

namespace FindOneAndUpdateOptions

/-- A flag among options. -/
def flag? (name : String) (fields : List (String × Value)) :
    Result (Option Bool) :=
  match Fields.get? name fields with
  | none => .ok none
  | some (.bool b) => .ok (some b)
  | some _ => .error (.invalidQuery (.flag name))

/-- The version that the name `returnDocument` asks for. -/
def returned? (fields : List (String × Value)) :
    Result (Option ReturnDocument) :=
  match Fields.get? "returnDocument" fields with
  | none => .ok none
  | some (.string "before") => .ok (some .before)
  | some (.string "after") => .ok (some .after)
  | some other => .error (.invalidQuery (.returnDocument other))

/-- The options that a value gives. The version can be asked for in two ways, of
which `returnDocument` is the stronger one. -/
def ofValue : Value → Result FindOneAndUpdateOptions
  | .null => .ok {}
  | .object fields => do
      let upsert ← flag? "upsert" fields
      let new ← flag? "new" fields
      let returned ← returned? fields
      let standard : ReturnDocument :=
        if new = some true then .after else .before
      .ok ⟨upsert.getD false, returned.getD standard⟩
  | other => .error (.invalidQuery (.updateOptions other))

end FindOneAndUpdateOptions

end DocumentStore
