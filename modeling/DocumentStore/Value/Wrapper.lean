import DocumentStore.Date.Text
import DocumentStore.Value

/-!
# Dates and patterns among the values

JSON has no dates and no patterns, so they are objects of a special shape. A
date is an object whose only field is `$date`, with the text of an instant or
with milliseconds since 1970. A pattern is an object with the field `$regex`, a
string, and no other but `$options`.
-/

namespace DocumentStore.Value

def dateKey : String := "$date"

def patternKey : String := "$regex"

def optionsKey : String := "$options"

/-- The instant that the value under the key of a date names. -/
def instant? : Value → Option Instant
  | .string text => Instant.ofString? text
  | .number n => n.asInt?.bind Instant.ofMillis?
  | _ => none

/-- The instant of a date. -/
def asDate? : Value → Option Instant
  | .object [(key, v)] => if key = dateKey then v.instant? else none
  | _ => none

def isDate (v : Value) : Bool := v.asDate?.isSome

/-- An instant as a date. -/
def ofDate (t : Instant) : Value := .object [(dateKey, .string t.toString)]

def isPattern : Value → Bool
  | .object fields =>
      ((Fields.get? patternKey fields).bind asString?).isSome &&
        fields.all fun (key, _) => key == patternKey || key == optionsKey
  | _ => false

/-- An object that is no date, so its fields mean something by themselves. -/
def isPlainObject (v : Value) : Bool := v.isObject && !v.isDate

end DocumentStore.Value
