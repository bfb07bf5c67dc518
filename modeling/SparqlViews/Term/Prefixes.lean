import SparqlViews.Table
import SparqlViews.Text.Basic

/-! # Namespace labels

A `Prefixes` table maps labels to namespaces, so that `label:rest` stands for a full IRI.

* `expand?`: the IRI of a labelled name, split at its first colon.
* `expandOrAbsolute?`: the same, also for a name that is a full IRI already.
* `declareUsed`: the declarations of the labels that a query uses, put in front of it.
-/

namespace SparqlViews

/-- Namespaces under their labels. -/
abbrev Prefixes := Table String

namespace Prefixes

/-- The labels that every document may use. -/
def standard : Prefixes := Table.ofList [
  ("rdf", "http://www.w3.org/1999/02/22-rdf-syntax-ns#"),
  ("rdfs", "http://www.w3.org/2000/01/rdf-schema#"),
  ("owl", "http://www.w3.org/2002/07/owl#"),
  ("xsd", "http://www.w3.org/2001/XMLSchema#"),
  ("skos", "http://www.w3.org/2004/02/skos/core#"),
  ("dct", "http://purl.org/dc/terms/")]

/-- The table with the entries of another one placed over it. -/
def extend (p other : Prefixes) : Prefixes := Table.insertAll p other.entries

/-- The IRI of a labelled name, if it has a colon and its label is declared. -/
def expand? (p : Prefixes) (name : String) : Option String := do
  let (label, rest) ← Text.splitFirst? ':' name.toList
  let namespaceIri ← p.get? (String.ofList label)
  some (namespaceIri ++ String.ofList rest)

/-- The text between angle brackets. -/
def bracketed? (name : String) : Option String := do
  let inner ← Text.dropPrefix? name "<"
  Text.dropSuffix? inner ">"

/-- **The IRI of a name**: bracketed, labelled, or absolute already. -/
def expandOrAbsolute? (p : Prefixes) (name : String) : Option String :=
  match bracketed? name with
  | some inner => some inner
  | none =>
    match p.expand? name with
    | some iri => some iri
    | none =>
      if Text.contains name "://" || Text.startsWith name "urn:" then some name else none

/-- The declaration of one label, on a line of its own. -/
def declaration (label namespaceIri : String) : String :=
  "PREFIX " ++ label ++ ": <" ++ namespaceIri ++ ">\n"

/-- The declarations of all labels. -/
def declarations (p : Prefixes) : String :=
  String.join (p.entries.map fun (label, namespaceIri) => declaration label namespaceIri)

/-- **The query with the declarations of the labels it uses in front.** A label counts as used when
it stands before a colon anywhere in the text. -/
def declareUsed (p : Prefixes) (query : String) : String :=
  let used := p.entries.filter fun (label, _) => Text.contains query (label ++ ":")
  String.join (used.map fun (label, namespaceIri) => declaration label namespaceIri) ++ query

end Prefixes

end SparqlViews
