import SparqlViews.Data.Basic
import SparqlViews.Decimal.Reader
import SparqlViews.Term.Basic

/-! # Terms as values of a result

How a term appears among structured data: numbers and booleans become values of their own where
their text allows it, a text in a language becomes a record, and all else its text.

* `Term.toData`: the value of a term.
-/

namespace SparqlViews

/-- The datatypes of whole numbers. -/
def integerDatatypes : List String :=
  ["integer", "int", "long", "short", "byte", "nonNegativeInteger", "positiveInteger",
    "negativeInteger", "nonPositiveInteger", "unsignedInt", "unsignedLong"]

def isIntegerDatatype (iri : String) : Bool :=
  (Text.dropPrefix? iri xsd).any integerDatatypes.contains

/-- The value of a literal text under a datatype. -/
def literalData (lexical datatype : String) : Data :=
  if datatype = xsdBoolean then
    if lexical = "true" ∨ lexical = "1" then .bool true
    else if lexical = "false" ∨ lexical = "0" then .bool false
    else .text lexical
  else if isIntegerDatatype datatype then
    match Decimal.integer? lexical with
    | some n => .int n
    | none => .text lexical
  else if datatype = xsdDecimal ∨ datatype = xsdDouble then
    match Decimal.float? lexical with
    | some x => if x.isFinite then .atom (.real x.toBits) else .text lexical
    | none => .text lexical
  else .text lexical

/-- **The value of a term.** -/
def Term.toData : Term → Data
  | .iri s => .text s
  | .blank label => .text ("_:" ++ label)
  | .literal lexical .plain => .text lexical
  | .literal lexical (.language tag) =>
    .object [("@value", .text lexical), ("@language", .text tag)]
  | .literal lexical (.datatype name) => literalData lexical name

end SparqlViews
