import DocumentStore.Error
import DocumentStore.Json.Printer

/-!
# Error messages

One text for each error: its kind and, after a colon, its cause. Values stand in
messages as compact JSON.
-/

namespace DocumentStore

def PathFault.reason : PathFault → String
  | .empty => "empty path"
  | .emptySegment => "empty segment"
  | .trailingDot => "trailing '.'"
  | .missingSeparator => "expected '.' or '[' after ']'"
  | .openQuote => "unterminated quoted key"
  | .missingBracket => "expected ']' after quoted key"
  | .openBracket => "unterminated '['"
  | .badIndex => "bracket index must be a non-negative integer"

def InvalidPath.message : InvalidPath → String
  | .malformed path fault => s!"'{path}': {fault.reason}"
  | .farIndex index length =>
      s!"array index {index} is too far past the end (length {length})"
  | .collectionName name => s!"invalid collection name '{name}'"

def TypeMismatch.message : TypeMismatch → String
  | .fieldInArray key => s!"cannot create field '{key}' in an array"
  | .updateTarget => "update target must be an object document"
  | .updatePipeline => "update pipelines are not supported"
  | .updateSpec found => s!"update spec must be an object, got {found.compact}"
  | .operatorFields operator => s!"{operator} requires an object of field paths"
  | .renameTarget path => s!"$rename target for '{path}' must be a string"
  | .popCount path found =>
      s!"$pop value for '{path}' must be 1 or -1, got {found.compact}"
  | .pullAllValues path => s!"$pullAll value for '{path}' must be an array"
  | .notArray operator path found =>
      s!"{operator}: field '{path}' is not an array (found {found.compact})"
  | .notNumeric operator path found =>
      s!"{operator}: field '{path}' is not numeric (found {found.compact})"
  | .numericOperand operator path =>
      s!"{operator}: operand for '{path}' must be a number"
  | .bitField path => s!"$bit: field '{path}' is not an integer"
  | .bitOperand path => s!"$bit value for '{path}' must be an object"
  | .bitMask mask path => s!"$bit {mask} mask for '{path}' must be an integer"
  | .numericArgument operator found =>
      s!"{operator} only supports numeric arguments, got {found.compact}"
  | .concatArgument found =>
      s!"$concat only supports strings, got {found.compact}"
  | .newRoot none =>
      "$replaceRoot newRoot must evaluate to an object, got undefined"
  | .newRoot (some found) =>
      s!"$replaceRoot newRoot must evaluate to an object, got {found.compact}"
  | .document => "documents must be JSON objects"
  | .replacement => "replacement must be a JSON object"
  | .immutableId => "_id is immutable"

def InvalidQuery.message : InvalidQuery → String
  | .filter found => s!"filter must be an object, got {found.compact}"
  | .kindTag => "$type requires a string tag"
  | .clauseList operator => s!"{operator} requires array"
  | .patternText => "$regex requires string"
  | .pattern text => s!"invalid $regex '{text}'"
  | .twoArguments operator => s!"$expr {operator} requires two arguments"
  | .sortText text => s!"invalid sort spec '{text}'"
  | .emptySort => "empty sort object"
  | .sortDirection field => s!"sort direction for '{field}' must be 1 or -1"
  | .sortValue found => s!"invalid sort spec {found.compact}"
  | .projection found => s!"projection must be an object, got {found.compact}"
  | .updateOptions found =>
      s!"findOneAndUpdate options must be an object, got {found.compact}"
  | .flag option => s!"option '{option}' must be a boolean"
  | .returnDocument found =>
      s!"returnDocument must be \"before\" or \"after\", got {found.compact}"

def AggregationFault.message : AggregationFault → String
  | .arity operator found =>
      s!"{operator} requires exactly 2 arguments, got {found}"
  | .pipeline => "Pipeline must be an array"
  | .stage => "Stage must be an object"
  | .stageOperators => "Each stage must have exactly one operator"
  | .stageObject name => s!"{name} must be an object"
  | .groupId => "Group stage must have _id field"
  | .accumulatorObject field => s!"Accumulator for '{field}' must be an object"
  | .accumulatorOperators field =>
      s!"Accumulator for '{field}' must have exactly one operator"
  | .sortDirection => "Sort direction must be 1 or -1"
  | .count name => s!"{name} must be a non-negative integer"
  | .reference name => s!"{name} path must start with $"
  | .unwindPath => "$unwind requires a path"
  | .unwindShape => "$unwind must be a string or object"
  | .newRoot => "$replaceRoot requires newRoot"

def NotFound.message : NotFound → String
  | .documentId => "document has no _id"
  | .document id collection => s!"{id.compact} in collection '{collection}'"

/-- A kind of JSON with its article. -/
def kindWithArticle : Value → String
  | .null => "null"
  | .bool _ => "a boolean"
  | .number _ => "a number"
  | .string _ => "a string"
  | .array _ => "an array"
  | .object _ => "an object"

def Corruption.message : Corruption → String
  | .noArray found => s!"expected a JSON array, found {kindWithArticle found}"
  | .noObject position => s!"element {position} is not an object"

def Error.message : Error → String
  | .io => "IO error: the file cannot be read or written"
  | .serialization => "Serialization error: not the expected JSON"
  | .unknownOperator name => s!"Unknown operator: {name}"
  | .typeMismatch cause => s!"Type mismatch: {cause.message}"
  | .duplicateId id => s!"Duplicate _id: {id.compact}"
  | .notFound cause => s!"Document not found: {cause.message}"
  | .invalidPath cause => s!"Invalid path: {cause.message}"
  | .invalidQuery cause => s!"Invalid query: {cause.message}"
  | .aggregation cause => s!"Aggregation error: {cause.message}"
  | .corruption file cause =>
      s!"Collection file corruption: {file}: {cause.message}"

end DocumentStore
