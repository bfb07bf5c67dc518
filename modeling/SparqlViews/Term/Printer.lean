import SparqlViews.Term.Basic

/-! # Terms as tokens of a query

* `escape`: a text as it stands between double quotes.
* `Term.toSparql`: the token of a term.
-/

namespace SparqlViews

/-- A character as it stands between double quotes. -/
def escapeChar (c : Char) : List Char :=
  if c = '\\' then ['\\', '\\']
  else if c = '"' then ['\\', '"']
  else if c = '\n' then ['\\', 'n']
  else if c = '\r' then ['\\', 'r']
  else if c = '\t' then ['\\', 't']
  else [c]

/-- **A text as it stands between double quotes**: the backslash, the quote, the line feed, the
carriage return and the tabulator are written with a backslash. -/
def escape (s : List Char) : List Char := s.flatMap escapeChar

def escapeText (s : String) : String := String.ofList (escape s.toList)

namespace Term

/-- The token of a term, as characters. -/
def token : Term → List Char
  | .iri s => '<' :: s.toList ++ ['>']
  | .blank label => '_' :: ':' :: label.toList
  | .literal lexical kind =>
    '"' :: escape lexical.toList ++ '"' ::
      match kind with
      | .plain => []
      | .language tag => '@' :: tag.toList
      | .datatype name => '^' :: '^' :: '<' :: name.toList ++ ['>']

/-- **The token of a term.** -/
def toSparql (t : Term) : String := String.ofList t.token

end Term

end SparqlViews
