import DocumentStore.Aggregation.Stage

/-!
# Aggregation

A pipeline is a list of stages. All of it is read before any of it is run, so a
stage that is wrong is reported whatever the documents are. Each stage works on
what the one before it made.
-/

namespace DocumentStore.Aggregation

/-- The stages that a value lists. -/
def ofValue : Value → Result (List Stage)
  | .array stages => stages.mapM Stage.ofValue
  | _ => .error (.aggregation .pipeline)

/-- Run stages, one after another. -/
def run (stages : List Stage) (docs : List Value) : Result (List Value) :=
  stages.foldlM (fun docs stage => stage.run docs) docs

/-- Read a pipeline and run it. -/
def aggregate (docs : List Value) (pipeline : Value) : Result (List Value) := do
  let stages ← ofValue pipeline
  run stages docs

end DocumentStore.Aggregation
