import SparqlViews.Text.Basic
import SparqlViews.Text.Lowercase

/-! # RDF terms

The atomic values of queries and results: an IRI, a blank node, or a literal, which carries nothing
beside its text, or a language, or a datatype.

* `isIriChar`: the characters that may stand between the angle brackets of an IRI.
* `Term.iri?`, `Term.ofDatatype`, `Term.ofLanguage`: terms from outside text. A literal of the
  datatype string is a plain one, and languages are kept in lower case.
* `Term.WellFormed`: the terms whose rendering is one token of a query.
* `TermError`: why a text names no term.
-/

namespace SparqlViews

/-! ### Datatypes -/

def xsd : String := "http://www.w3.org/2001/XMLSchema#"

def xsdString : String := xsd ++ "string"

def xsdInteger : String := xsd ++ "integer"

def xsdDecimal : String := xsd ++ "decimal"

def xsdDouble : String := xsd ++ "double"

def xsdBoolean : String := xsd ++ "boolean"

/-! ### Characters of an IRI -/

/-- The printing characters that an IRI may not hold: `<`, `>`, `"`, braces, `|`, `^`, the
backquote and the backslash. -/
def iriDelimiters : List Char := "<>\"\x7b\x7d|^\x60\\".toList

/-- **A character that may stand between angle brackets.** -/
def isIriChar (c : Char) : Bool :=
  !(Text.isBlank c || Text.isControl c || iriDelimiters.contains c)

/-- The text can be written between angle brackets as it is. -/
def isIri (s : String) : Bool := s.toList.all isIriChar

/-- A character of a blank node label. -/
def isLabelChar (c : Char) : Bool := Text.isAlphanumeric c || c = '_' || c = '-'

/-! ### Terms -/

/-- What a literal carries beside its text. -/
inductive LiteralKind where
  | plain
  | language (tag : String)
  | datatype (iri : String)
  deriving DecidableEq, Repr

/-- **A term** of a query or a result. -/
inductive Term where
  | iri (s : String)
  | blank (label : String)
  | literal (lexical : String) (kind : LiteralKind)
  deriving DecidableEq, Repr

/-- Why a text names no term. -/
inductive TermError where
  /-- The text has none of the forms of a term. -/
  | malformed (input : String)
  /-- The text uses a namespace label that is not declared. -/
  | unknownLabel (label input : String)
  /-- The text names an IRI that cannot stand between angle brackets. -/
  | invalidIri (iri : String)
  deriving DecidableEq, Repr

def TermError.message : TermError → String
  | .malformed input => "Malformed term syntax: `" ++ input ++ "`"
  | .unknownLabel label input => "Unknown prefix `" ++ label ++ "` in `" ++ input ++ "`"
  | .invalidIri iri =>
    "Invalid IRI `" ++ iri ++ "`: whitespace and <>\"\x7b\x7d|^`\\ are not allowed"

namespace Term

def plain (lexical : String) : Term := .literal lexical .plain

/-- A literal of a datatype; the datatype string adds nothing. -/
def ofDatatype (lexical datatype : String) : Term :=
  if datatype = xsdString then plain lexical else .literal lexical (.datatype datatype)

/-- A literal in a language, whose tag is kept in lower case. -/
def ofLanguage (lexical tag : String) : Term := .literal lexical (.language (Text.lower tag))

def ofInt (n : Int) : Term := ofDatatype (toString n) xsdInteger

def ofBool (b : Bool) : Term := ofDatatype (if b then "true" else "false") xsdBoolean

/-- An IRI from outside text. -/
def iri? (s : String) : Except TermError Term :=
  if isIri s then .ok (.iri s) else .error (.invalidIri s)

def isIriTerm : Term → Bool
  | .iri _ => true
  | _ => false

def isBlankNode : Term → Bool
  | .blank _ => true
  | _ => false

def asIri? : Term → Option String
  | .iri s => some s
  | _ => none

/-- The text of a term without brackets, quotes or marks. -/
def lexicalForm : Term → String
  | .iri s => s
  | .blank label => label
  | .literal lexical _ => lexical

end Term

/-! ### Well-formed terms -/

/-- The parts of a language tag: small letters, and from the second on digits too. -/
def isLanguageTag (tag : String) : Bool :=
  match Text.fields '-' tag.toList with
  | [] => false
  | first :: rest =>
    !first.isEmpty && first.all Char.isLower &&
      rest.all fun part => !part.isEmpty && part.all fun c => c.isLower || c.isDigit

/-- **The terms that render as one token**: an IRI of characters that may stand in one, a blank
node with a label, and a literal with a proper language or datatype. -/
def Term.WellFormed : Term → Prop
  | .iri s => isIri s = true
  | .blank label => label.toList ≠ [] ∧ label.toList.all isLabelChar = true
  | .literal _ .plain => True
  | .literal _ (.language tag) => isLanguageTag tag = true
  | .literal _ (.datatype name) => isIri name = true ∧ name ≠ xsdString

end SparqlViews
