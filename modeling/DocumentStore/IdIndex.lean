import DocumentStore.Json.Printer

/-!
# Identifiers and their index

Documents are found by the text of their identifier, so that an integer and the
string of its digits are two identifiers, and so are an integer and the double
of the same value. The index leads from the text to the place of the document,
the first one if there are several.

New identifiers come from a supply, which is a sequence: what the sequence is
does not matter here.
-/

namespace DocumentStore

/-- From the texts of identifiers to places in a list. -/
abbrev IdIndex := List (String × Nat)

namespace IdIndex

/-- The index of documents, the first of which has the given place. -/
def buildFrom (place : Nat) : List Value → IdIndex
  | [] => []
  | doc :: rest =>
      match doc.field? idKey with
      | some id => (id.compact, place) :: buildFrom (place + 1) rest
      | none => buildFrom (place + 1) rest

/-- The index of a list of documents. -/
def build (docs : List Value) : IdIndex := buildFrom 0 docs

/-- The place of the document with an identifier. -/
def find? (index : IdIndex) (id : Value) : Option Nat :=
  Fields.get? id.compact index

def contains (index : IdIndex) (id : Value) : Bool := (index.find? id).isSome

/-- Enter a document with a new identifier. -/
def enter (index : IdIndex) (id : Value) (place : Nat) : IdIndex :=
  Fields.insert id.compact place index

end IdIndex

/-- A sequence of identifiers, and the number of the next one. -/
structure IdSupply where
  nth : Nat → String
  next : Nat

namespace IdSupply

/-- The next identifier. -/
def id (supply : IdSupply) : Value := .string (supply.nth supply.next)

/-- The supply without the next identifier. -/
def rest (supply : IdSupply) : IdSupply :=
  { supply with next := supply.next + 1 }

end IdSupply

end DocumentStore
