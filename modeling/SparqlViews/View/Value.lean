import SparqlViews.Term.Reader
import SparqlViews.View.Basic

/-! # Request values under an entry

* `Property.value`: the term that a text in a request stands for. A datatype as range makes it a
  literal of that datatype; a class as range or a value base makes it an IRI where it can be one;
  else it is read as compact text, and is a plain literal if it is none.
-/

namespace SparqlViews.Property

/-- The range of an entry is a datatype. -/
def datatypeRange? (p : Property) : Option String := p.range.filter fun r => Text.startsWith r xsd

/-- The IRI that a text stands for under a class or a value base. -/
def valueIri? (p : Property) (labels : Prefixes) (raw : String) : Option String :=
  if p.valueBase.isSome || p.range.isSome then
    match labels.expandOrAbsolute? raw with
    | some iri => some iri
    | none => p.valueBase.map (· ++ raw)
  else none

/-- **The term that a request value stands for.** -/
def value (p : Property) (labels : Prefixes) (raw : String) : Except TermError Term :=
  match p.datatypeRange? with
  | some datatype => .ok (.ofDatatype raw datatype)
  | none =>
    match p.valueIri? labels raw with
    | some iri => Term.iri? iri
    | none =>
      match parseTerm labels raw with
      | .error (.malformed _) => .ok (.plain raw)
      | answer => answer

end SparqlViews.Property
