import DocumentStore.Value.Identity

/-!
# Errors

What can go wrong, by cause. The kinds are those a caller tells apart; within a
kind a cause keeps what its message shows.
-/

namespace DocumentStore

/-- What is wrong with the text of a path. -/
inductive PathFault where
  | empty
  | emptySegment
  | trailingDot
  | missingSeparator
  | openQuote
  | missingBracket
  | openBracket
  | badIndex
deriving DecidableEq

inductive InvalidPath where
  /-- The text is no path. -/
  | malformed (path : String) (fault : PathFault)
  /-- A write would pad an array by too much. -/
  | farIndex (index length : Nat)
  /-- The name cannot be a file. -/
  | collectionName (name : String)
deriving DecidableEq

/-- A value that is not of the kind it has to be. -/
inductive TypeMismatch where
  | fieldInArray (key : String)
  | updateTarget
  | updatePipeline
  | updateSpec (found : Value)
  | operatorFields (operator : String)
  | renameTarget (path : String)
  | popCount (path : String) (found : Value)
  | pullAllValues (path : String)
  | notArray (operator path : String) (found : Value)
  | notNumeric (operator path : String) (found : Value)
  | numericOperand (operator path : String)
  | bitField (path : String)
  | bitOperand (path : String)
  | bitMask (mask path : String)
  | numericArgument (operator : String) (found : Value)
  | concatArgument (found : Value)
  | newRoot (found : Option Value)
  | document
  | replacement
  | immutableId
deriving DecidableEq

inductive InvalidQuery where
  | filter (found : Value)
  | kindTag
  | clauseList (operator : String)
  | patternText
  | pattern (text : String)
  | twoArguments (operator : String)
  | sortText (text : String)
  | emptySort
  | sortDirection (field : String)
  | sortValue (found : Value)
  | projection (found : Value)
  | updateOptions (found : Value)
  | flag (option : String)
  | returnDocument (found : Value)
deriving DecidableEq

inductive AggregationFault where
  | arity (operator : String) (found : Nat)
  | pipeline
  | stage
  | stageOperators
  | stageObject (stage : String)
  | groupId
  | accumulatorObject (field : String)
  | accumulatorOperators (field : String)
  | sortDirection
  | count (stage : String)
  | reference (stage : String)
  | unwindPath
  | unwindShape
  | newRoot
deriving DecidableEq

inductive NotFound where
  | documentId
  | document (id : Value) (collection : String)
deriving DecidableEq

/-- Why the text of a collection, although it is JSON, is none. -/
inductive Corruption where
  | noArray (found : Value)
  | noObject (position : Nat)
deriving DecidableEq

inductive Error where
  /-- The file cannot be read or written. -/
  | io
  /-- The text is not JSON, or the JSON is not of the required shape. -/
  | serialization
  | unknownOperator (name : String)
  | typeMismatch (cause : TypeMismatch)
  | duplicateId (id : Value)
  | notFound (cause : NotFound)
  | invalidPath (cause : InvalidPath)
  | invalidQuery (cause : InvalidQuery)
  | aggregation (cause : AggregationFault)
  | corruption (file : String) (cause : Corruption)
deriving DecidableEq

/-- The kinds of errors that a caller tells apart. -/
inductive ErrorKind where
  | io
  | serialization
  | unknownOperator
  | typeMismatch
  | duplicateId
  | notFound
  | invalidPath
  | invalidQuery
  | aggregation
  | corruption
deriving DecidableEq

def Error.kind : Error → ErrorKind
  | .io => .io
  | .serialization => .serialization
  | .unknownOperator _ => .unknownOperator
  | .typeMismatch _ => .typeMismatch
  | .duplicateId _ => .duplicateId
  | .notFound _ => .notFound
  | .invalidPath _ => .invalidPath
  | .invalidQuery _ => .invalidQuery
  | .aggregation _ => .aggregation
  | .corruption _ _ => .corruption

/-- What every operation answers: a result or the error that stopped it. -/
abbrev Result (α : Type) := Except Error α

instance [DecidableEq α] : DecidableEq (Result α)
  | .ok a, .ok b => decidable_of_iff (a = b) (by simp)
  | .error d, .error e => decidable_of_iff (d = e) (by simp)
  | .ok _, .error _ => isFalse nofun
  | .error _, .ok _ => isFalse nofun

end DocumentStore
