import SparqlViews.Pattern.Compile
import SparqlViews.Query.Shape

/-! # The clauses of a query

The texts that both kinds of query are put together from: what is selected, the conditions of
filters, the keys of the order, and the page.

* `selectItem`, `filterText`, `orderKey`, `pageLines`.
-/

namespace SparqlViews.Clause

open Substitution (Bindings)

/-- A selected variable; one that is bound is selected as its constant. -/
def selectItem (bindings : Bindings) (name : String) : List Char :=
  match bindings.get? name with
  | some term => '(' :: term.token ++ " AS ?".toList ++ name.toList ++ [')']
  | none => Element.variableText name

/-- A key of the order. -/
def orderKey (name : String) (descending : Bool) : List Char :=
  if descending then "DESC(?".toList ++ name.toList ++ [')'] else Element.variableText name

/-- Texts with a space between each two. -/
def spaced (parts : List (List Char)) : List Char := List.intercalate [' '] parts

/-- The clause of an order, if it has a key. -/
def orderLine (keys : List (List Char)) : Option (List Char) :=
  if keys.isEmpty then none else some ("ORDER BY ".toList ++ spaced keys)

/-- The test of a variable for membership in a list of values. -/
def equalsText (name : List Char) : List Term → List Char
  | [value] => "FILTER(".toList ++ name ++ " = ".toList ++ value.token ++ [')']
  | values =>
    "FILTER(".toList ++ name ++ " IN (".toList ++
      List.intercalate [',', ' '] (values.map Term.token) ++ "))".toList

/-- **The condition of a filter.** -/
def filterText (root : String) (v : View) (f : Filter) : Except ViewError (List Char) :=
  let name := Element.variableText (Path.toVariable root f.path)
  match f with
  | .equals _ values => .ok (equalsText name values)
  | .range _ comparison value =>
    .ok ("FILTER(".toList ++ name ++ ' ' :: comparison.symbol.toList ++ ' ' :: value.token ++ [')'])
  | .present path mustExist => do
    let chain ← Pattern.chain root v path
    .ok ((if mustExist then "FILTER EXISTS \x7b " else "FILTER NOT EXISTS \x7b ").toList ++
      spaced (chain.map fun e => Text.trim (e.render 0)) ++ " \x7d".toList)

/-- The lines that cut a page out of the results. -/
def pageLines (limit offset : Option Nat) : List (List Char) :=
  (match limit with
    | some n => ["LIMIT ".toList ++ (toString n).toList]
    | none => []) ++
  match offset with
    | some n => if n > 0 then ["OFFSET ".toList ++ (toString n).toList] else []
    | none => []

/-- The start of a query. -/
def selectKeyword (distinct : Bool) : List Char :=
  (if distinct then "SELECT DISTINCT " else "SELECT ").toList

/-- The variables of a pattern, and the further ones that are selected with them. -/
def selected (vars projection : List String) : List String :=
  vars ++ projection.filter fun name => !vars.contains name

end SparqlViews.Clause
