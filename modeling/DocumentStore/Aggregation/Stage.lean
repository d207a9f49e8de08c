import DocumentStore.Aggregation.Group
import DocumentStore.Aggregation.Reshape
import DocumentStore.Filter
import DocumentStore.Sort

/-!
# Stages

A stage makes a list of documents of another one. It is written as an object
with one field, whose key says which stage it is. Stages that are not known, and
`$lookup`, let the documents pass.
-/

namespace DocumentStore.Aggregation

inductive Stage where
  | select (clause : Value)
  | project (fields : List (String × Value))
  | group (id : Value) (accumulators : List (String × Accumulator))
  | sort (keys : List SortKey)
  | limit (count : Nat)
  | skip (count : Nat)
  | unwind (path : Path) (keepEmpty : Bool)
  | addFields (fields : List (Path × Value))
  | replaceRoot (expr : Value)
  | pass

/-! ## Reading -/

/-- The fields of the object that the value of a stage has to be. -/
def stageFields (name : String) (spec : Value) :
    Result (List (String × Value)) :=
  match spec with
  | .object fields => .ok fields
  | _ => .error (.aggregation (.stageObject name))

/-- The accumulator of a field, or nothing if it is not known. -/
def readAccumulator (field : String) (spec : Value) :
    Result (Option Accumulator) :=
  match spec with
  | .object [(name, expr)] =>
      .ok ((AccumulatorKind.ofName? name).map (⟨·, expr⟩))
  | .object _ => .error (.aggregation (.accumulatorOperators field))
  | _ => .error (.aggregation (.accumulatorObject field))

/-- The accumulators of all fields but the identifier. -/
def readAccumulators :
    List (String × Value) → Result (List (String × Accumulator))
  | [] => .ok []
  | (field, spec) :: rest =>
      if field = idKey then readAccumulators rest
      else do
        let a ← readAccumulator field spec
        let others ← readAccumulators rest
        match a with
        | some a => .ok ((field, a) :: others)
        | none => .ok others

/-- The keys to sort by. -/
def readSortKey (entry : String × Value) : Result SortKey :=
  match SortKey.descending? entry.2 with
  | some descending => do
      let path ← Path.parse entry.1
      .ok ⟨path, descending⟩
  | none => .error (.aggregation .sortDirection)

/-- A number of documents. -/
def readCount (name : String) (spec : Value) : Result Nat :=
  match spec.asNat? with
  | some n => .ok n
  | none => .error (.aggregation (.count name))

/-- The path after a dollar sign. -/
def readReference (stage text : String) : Result Path :=
  match text.toList with
  | '$' :: rest => Path.parse (String.ofList rest)
  | _ => .error (.aggregation (.reference stage))

/-- The path of `$unwind`, alone or with an option. -/
def readUnwind (spec : Value) : Result Stage :=
  match spec with
  | .string text => do
      let path ← readReference "$unwind" text
      .ok (.unwind path false)
  | .object fields =>
      match Fields.get? "path" fields with
      | some (.string text) => do
          let path ← readReference "$unwind" text
          let keepEmpty :=
            (Fields.get? "preserveNullAndEmptyArrays" fields).bind Value.asBool?
          .ok (.unwind path (keepEmpty.getD false))
      | _ => .error (.aggregation .unwindPath)
  | _ => .error (.aggregation .unwindShape)

/-- A path that is to be set, with the expression for it. -/
def readField (entry : String × Value) : Result (Path × Value) := do
  let path ← Path.parse entry.1
  .ok (path, entry.2)

/-- The stage with a name and a value. -/
def readStage (name : String) (spec : Value) : Result Stage :=
  match name with
  | "$match" => .select <$> Filter.ofValue spec
  | "$project" => .project <$> stageFields "$project" spec
  | "$group" => do
      let fields ← stageFields "$group" spec
      match Fields.get? idKey fields with
      | none => .error (.aggregation .groupId)
      | some id => .group id <$> readAccumulators fields
  | "$sort" => do
      let fields ← stageFields "$sort" spec
      .sort <$> fields.mapM readSortKey
  | "$limit" => .limit <$> readCount "$limit" spec
  | "$skip" => .skip <$> readCount "$skip" spec
  | "$unwind" => readUnwind spec
  | "$addFields" => do
      let fields ← stageFields "$addFields" spec
      .addFields <$> fields.mapM readField
  | "$set" => do
      let fields ← stageFields "$addFields" spec
      .addFields <$> fields.mapM readField
  | "$replaceRoot" =>
      match spec.field? "newRoot" with
      | some expr => .ok (.replaceRoot expr)
      | none => .error (.aggregation .newRoot)
  | _ => .ok .pass

/-- The stage that a value is. -/
def Stage.ofValue : Value → Result Stage
  | .object [(name, spec)] => readStage name spec
  | .object _ => .error (.aggregation .stageOperators)
  | _ => .error (.aggregation .stage)

/-! ## Running -/

/-- The documents that a stage makes of documents. -/
def Stage.run (stage : Stage) (docs : List Value) : Result (List Value) :=
  match stage with
  | .select clause => Filter.select clause docs
  | .project fields => docs.mapM (Aggregation.project fields)
  | .group id accumulators => Aggregation.group id accumulators docs
  | .sort keys => .ok (keys.foldl (fun docs key => key.sort docs) docs)
  | .limit n => .ok (docs.take n)
  | .skip n => .ok (docs.drop n)
  | .unwind path keepEmpty =>
      List.flatten <$> docs.mapM (Aggregation.unwind path keepEmpty)
  | .addFields fields =>
      docs.mapM fun doc => Aggregation.addFields doc fields doc
  | .replaceRoot expr => docs.mapM (Aggregation.replaceRoot expr)
  | .pass => .ok docs

end DocumentStore.Aggregation
