import DocumentStore.Error
import DocumentStore.Text.Blank

/-!
# Configuration

Where the collections lie and how their files are written. It is given as JSON
or by two variables of the environment; what is not given is as it is by
default.
-/

namespace DocumentStore

structure Config where
  dataDir : String := "./data"
  pretty : Bool := true
deriving DecidableEq

/-- Join two paths: with one slash between them unless the first is empty or has
it, and the second alone if it is absolute. -/
def joinPaths (first second : String) : String :=
  if second.toList.head? = some '/' then second
  else if first.isEmpty ∨ first.toList.getLast? = some '/' then first ++ second
  else first ++ "/" ++ second

namespace Config

/-- The field under a key of the right kind, or what it is by default. -/
def fieldOr (default : α) (read : Value → Option α) (key : String)
    (fields : List (String × Value)) : Result α :=
  match Fields.get? key fields with
  | none => .ok default
  | some v =>
      match read v with
      | some x => .ok x
      | none => .error .serialization

/-- The configuration that an object gives. -/
def ofValue : Value → Result Config
  | .object fields => do
      let standard : Config := {}
      let dataDir ← fieldOr standard.dataDir Value.asString? "data_dir" fields
      let pretty ← fieldOr standard.pretty Value.asBool? "pretty" fields
      .ok ⟨dataDir, pretty⟩
  | _ => .error .serialization

/-- Whether a text says no. Everything else says yes. -/
def saysNo (text : String) : Bool :=
  let word := (Text.trim text.toList).map Char.toLower
  word = ['0'] || word = ['f', 'a', 'l', 's', 'e']

/-- The configuration that the environment gives. An empty directory counts as
none. -/
def ofEnvironment (dir pretty : Option String) : Config :=
  let standard : Config := {}
  { dataDir := (dir.filter fun d => !d.isEmpty).getD standard.dataDir
    pretty := (pretty.map fun text => !saysNo text).getD standard.pretty }

/-- The name of the file of a collection. -/
def fileName (collection : String) : String := collection ++ ".json"

/-- The path of the file of a collection. -/
def collectionPath (config : Config) (collection : String) : String :=
  joinPaths config.dataDir (fileName collection)

end Config

end DocumentStore
