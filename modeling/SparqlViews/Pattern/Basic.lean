import SparqlViews.Text.Basic

/-! # Graph patterns

The patterns that a view is queried with: triples that share a subject, optional groups, and text
that is passed on.

* `Element`, `Element.render`: one element of a group, and its lines in a query.
-/

namespace SparqlViews

/-- **An element of a group of patterns.** -/
inductive Element where
  /-- Triples of one subject: its variable, and properties with the variables of their values. -/
  | block (subject : String) (pairs : List (String × String))
  /-- A group that need not match. -/
  | optional (elements : List Element)
  /-- Patterns passed on as text. -/
  | raw (text : String)
  deriving Repr

namespace Element

/-- A single triple. -/
def triple (subject iri object : String) : Element := .block subject [(iri, object)]

/-- The space in front of a line. -/
def indent (depth : Nat) : List Char := List.replicate (2 * depth) ' '

/-- A variable as it stands in a query. -/
def variableText (name : String) : List Char := '?' :: name.toList

/-- A property and the variable of its value. -/
def pairText (pair : String × String) : List Char :=
  '<' :: pair.1.toList ++ '>' :: ' ' :: variableText pair.2

/-- The pairs of a block, each from the second on on a line of its own. -/
def pairsText (depth : Nat) : List (String × String) → List Char
  | [] => []
  | pair :: rest =>
    ' ' :: pairText pair ++
      rest.flatMap fun pair => ' ' :: ';' :: '\n' :: indent (depth + 2) ++ pairText pair

/-- The lines of a passed-on text, without the empty ones, in place. -/
def rawText (depth : Nat) (text : String) : List Char :=
  (((Text.lines text.toList).map Text.trim).filter fun line => !line.isEmpty).flatMap fun line =>
    indent depth ++ line ++ ['\n']

mutual

/-- **The lines of an element** at a depth. -/
def render (depth : Nat) : Element → List Char
  | .block subject pairs =>
    indent depth ++ variableText subject ++ pairsText depth pairs ++ " .\n".toList
  | .optional elements =>
    indent depth ++ "OPTIONAL \x7b\n".toList ++ renderAll (depth + 1) elements ++ indent depth ++
      "\x7d\n".toList
  | .raw text => rawText depth text

/-- The lines of a group. -/
def renderAll (depth : Nat) : List Element → List Char
  | [] => []
  | e :: rest => render depth e ++ renderAll depth rest

end

/-- The text of a group. -/
def text (depth : Nat) (elements : List Element) : String :=
  String.ofList (renderAll depth elements)

end Element

end SparqlViews
