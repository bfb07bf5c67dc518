import SparqlViews.Query.Clauses
import SparqlViews.Query.Error

/-! # Flat queries

A flat query is a template with markers, each of which gives way to what the shape asks for at its
place: patterns, conditions, the order, and the page. The template is made from the view unless one
is configured.

* `Marker`: the places of a template.
* `splice`: a text with a marker replaced by pieces of text. A line that holds nothing but a marker
  goes when there is no piece; further lines of a piece are indented like the line of the marker.
* `Flat.render`: the query of a shape. The rows of an entity must stay together and be countable,
  so pages and orders that would part them are refused.
-/

namespace SparqlViews

/-- **The places of a template.** -/
inductive Marker where
  | inject
  | filter
  | sort
  | modifiers
  deriving DecidableEq, Repr

def Marker.text : Marker → String
  | .inject => "#$INJECT$"
  | .filter => "#$FILTER$"
  | .sort => "#$SORT$"
  | .modifiers => "#$MODIFIERS$"

/-- The text has a marker somewhere. -/
def Marker.isIn (m : Marker) (text : List Char) : Bool := Text.occursIn m.text.toList text

namespace Flat

/-! ### Splicing -/

/-- The lines of all pieces, without white space at their ends. -/
def pieceLines (pieces : List (List Char)) : List (List Char) :=
  (pieces.flatMap Text.lines).map Text.trim

/-- One line of a text with a marker replaced. -/
def spliceLine (m : Marker) (pieces : List (List Char)) (line : List Char) : List Char :=
  if !m.isIn line then line
  else if pieces.isEmpty && Text.trim line = m.text.toList then []
  else
    Text.replaceAll m.text.toList
      (List.intercalate ('\n' :: line.takeWhile Text.isBlank) (pieceLines pieces)) line

/-- **A text with a marker replaced by pieces**; it must have the marker if there is a piece. -/
def splice (m : Marker) (pieces : List (List Char)) (text : List Char) :
    Except QueryError (List Char) :=
  if m.isIn text then .ok ((Text.lineChunks text).flatMap (spliceLine m pieces))
  else if pieces.isEmpty then .ok text
  else .error (.missingMarker m.text (String.ofList (Clause.spaced pieces)))

/-! ### The template of a view -/

/-- **The template made from a view.** -/
def template (v : View) (shape : Shape) (root : String) : List Char :=
  let compiled := Pattern.compile .full root v
  let items := (Clause.selected compiled.vars shape.projection).map
    (Clause.selectItem shape.bindings)
  Clause.selectKeyword shape.distinct ++ Clause.spaced items ++ "\nWHERE \x7b\n  ".toList ++
    Marker.inject.text.toList ++ '\n' :: Element.renderAll 1 compiled.elements ++ "  ".toList ++
    Marker.filter.text.toList ++ "\n\x7d\n".toList ++ Marker.sort.text.toList ++ '\n' ::
    Marker.modifiers.text.toList ++ ['\n']

/-! ### Rendering -/

/-- The keys of the order: those asked for, then the root. Bound variables have no place in it. -/
def orderKeys (shape : Shape) (root : String) : List (List Char) :=
  let asked := shape.sort.map fun k => (Path.toVariable root k.path, k.descending)
  ((asked ++ [(root, false)]).filter fun k => !shape.isBound k.1).map fun k =>
    Clause.orderKey k.1 k.2

/-- The reason why a shape cannot be asked for in a flat query. -/
def obstacle? (v : View) (shape : Shape) : Option NestingReason :=
  if shape.isPaged && v.needsNestedSelect then some .pagedRows
  else
    (shape.sort.find? fun k => !v.singleValued k.path).map fun k =>
      .multivaluedSort (Path.toDotted k.path)

/-- The conditions of the filters of a shape, and its late patterns. -/
def conditions (v : View) (shape : Shape) (root : String) :
    Except ViewError (List (List Char)) := do
  let filters ← shape.filters.mapM (Clause.filterText root v)
  return filters ++ shape.late.map String.toList

/-- **The flat query of a shape.** -/
def render (v : View) (shape : Shape) (root : String) (configured : Option String) :
    Except QueryError (List Char) := do
  if let some reason := obstacle? v shape then throw (.nestedSelectRequired reason)
  let text := match configured with
    | some text => text.toList
    | none => template v shape root
  let conditions ← (conditions v shape root).mapError QueryError.view
  let text ← splice .inject ((shape.early ++ shape.base.toList).map String.toList) text
  let text ← splice .filter conditions text
  let text ← splice .sort (Clause.orderLine (orderKeys shape root)).toList text
  let text ← splice .modifiers (Clause.pageLines shape.limit shape.offset) text
  return Substitution.substituteBody shape.bindings text

end Flat

end SparqlViews
