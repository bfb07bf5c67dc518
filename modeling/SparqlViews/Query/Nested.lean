import SparqlViews.Query.Clauses
import SparqlViews.Query.Error

/-! # Queries with an inner select

The inner select finds the entities of a page: it selects the root alone, with further variables
that are asked for and the values to sort by, so that its rows are entities and can be counted. The
outer query joins the pattern of the view to it and orders the rows in the same way.

* `SortColumn`: a value to sort by, the least or the greatest of an entity.
* `Nested.innerPattern`: the pattern of the inner select. It has the mandatory part of the view, the
  paths of the filters, and the paths of the order in optional groups.
* `Nested.render`: the query of a shape.
-/

namespace SparqlViews.Nested

/-- A value to sort by: the variable it comes from and the one that carries it outwards. -/
structure SortColumn where
  source : String
  carrier : String
  descending : Bool
  deriving DecidableEq, Repr

/-- The columns of the order; bound variables have no place in it. -/
def sortColumns (shape : Shape) (root : String) : List SortColumn :=
  ((shape.sort.map fun k => (Path.toVariable root k.path, k.descending)).filter
    fun k => !shape.isBound k.1).mapIdx fun i k => ⟨k.1, Naming.sortVariable i, k.2⟩

/-! ### The inner pattern -/

/-- Elements, and the variables that stand for a value in them. -/
structure Joined where
  elements : List Element
  vars : List String

/-- The variables of the values of a block. -/
def objects : Element → List String
  | .block _ pairs => pairs.map (·.2)
  | _ => []

/-- The triple is there already. -/
def Joined.has (j : Joined) (e : Element) : Bool := (objects e).all j.vars.contains

/-- The elements with a triple added, unless it is there. -/
def Joined.addTriple (j : Joined) (e : Element) : Joined :=
  if j.has e then j else ⟨j.elements ++ [e], j.vars ++ objects e⟩

/-- The elements with the path of a filter on a value joined in. -/
def Joined.addFilter (v : View) (root : String) (j : Joined) (f : Filter) :
    Except ViewError Joined :=
  match f with
  | .present _ _ => .ok j
  | f => do return (← Pattern.chain root v f.path).foldl Joined.addTriple j

/-- The elements with the path of a sort key joined in, in a group that need not match. -/
def Joined.addSort (v : View) (root : String) (shape : Shape) (j : Joined) (k : SortKey) :
    Except ViewError Joined :=
  let name := Path.toVariable root k.path
  if j.vars.contains name || shape.isBound name then .ok j
  else do
    let chain ← Pattern.chain root v k.path
    return ⟨j.elements ++ [.optional chain], j.vars ++ chain.flatMap objects⟩

/-- **The pattern of the inner select.** -/
def innerPattern (v : View) (shape : Shape) (root : String) : Except ViewError (List Element) := do
  let skeleton := Pattern.compile .mandatory root v
  let start : Joined :=
    ⟨(shape.early ++ shape.base.toList).map Element.raw ++ skeleton.elements, skeleton.vars⟩
  let joined ← shape.filters.foldlM (Joined.addFilter v root) start
  let joined ← shape.sort.foldlM (Joined.addSort v root shape) joined
  let conditions ← shape.filters.mapM (Clause.filterText root v)
  return joined.elements ++ conditions.map (fun c => .raw (String.ofList c)) ++
    shape.late.map Element.raw

/-! ### Rendering -/

/-- The keys of the order: the carried values, then the root unless it is bound. -/
def orderKeys (columns : List SortColumn) (shape : Shape) (root : String) : List (List Char) :=
  columns.map (fun c => Clause.orderKey c.carrier c.descending) ++
    if shape.isBound root then [] else [Element.variableText root]

/-- The value of a column as it is selected. -/
def SortColumn.item (c : SortColumn) : List Char :=
  (if c.descending then "(MAX(?" else "(MIN(?").toList ++ c.source.toList ++ ") AS ?".toList ++
    c.carrier.toList ++ [')']

/-- A line, if there is one. -/
def optionalLine : Option (List Char) → List Char
  | some line => line ++ ['\n']
  | none => []

/-- The inner select. -/
def renderInner (v : View) (shape : Shape) (root : String) (columns : List SortColumn) :
    Except ViewError (List Char) := do
  let body ← innerPattern v shape root
  let extras := shape.projection.filter (· ≠ root)
  let items := (root :: extras).map (Clause.selectItem shape.bindings)
  let header :=
    if columns.isEmpty then "SELECT DISTINCT ".toList ++ Clause.spaced items
    else "SELECT ".toList ++ Clause.spaced (items ++ columns.map SortColumn.item)
  let grouped := ((root :: extras).filter fun name => !shape.isBound name).map Element.variableText
  let group :=
    if columns.isEmpty || grouped.isEmpty then none
    else some ("GROUP BY ".toList ++ Clause.spaced grouped)
  return header ++ "\nWHERE \x7b\n".toList ++
    Substitution.substitute shape.bindings (Element.renderAll 1 body) ++ "\x7d\n".toList ++
    optionalLine group ++ optionalLine (Clause.orderLine (orderKeys columns shape root)) ++
    (Clause.pageLines shape.limit shape.offset).flatMap (· ++ ['\n'])

/-- A variable as the outer query selects it; those of the inner select are bound there. -/
def outerItem (shape : Shape) (root name : String) : List Char :=
  if name = root ∨ name ∈ shape.projection then Element.variableText name
  else Clause.selectItem shape.bindings name

/-- **The query of a shape, with an inner select.** -/
def render (v : View) (shape : Shape) (root : String) : Except ViewError (List Char) := do
  let columns := sortColumns shape root
  let inner ← renderInner v shape root columns
  let full := Pattern.compile .full root v
  let items := (Clause.selected full.vars shape.projection).map (outerItem shape root) ++
    columns.map fun c => Element.variableText c.carrier
  return Clause.selectKeyword shape.distinct ++ Clause.spaced items ++
    "\nWHERE \x7b\n  \x7b\n".toList ++
    (Text.lines inner).flatMap (fun line => "    ".toList ++ line ++ ['\n']) ++
    "  \x7d\n".toList ++
    Substitution.substitute shape.bindings (Element.renderAll 1 full.elements) ++ "\x7d\n".toList ++
    optionalLine (Clause.orderLine (orderKeys columns shape root))

end SparqlViews.Nested
