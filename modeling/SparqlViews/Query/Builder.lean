import SparqlViews.Decimal.Layout
import SparqlViews.Query.Flat
import SparqlViews.Query.Limits
import SparqlViews.Query.Nested

/-! # Queries over one view

A `ViewQuery` is a view with a shape and the settings it is rendered with. Every operation gives a
new one, so a prepared query can be specialised for each request.

* `filter`, `filterRange`, `filterPresent`, `sortBy`: conditions and keys, whose names are looked up
  in the view when they are added.
* `build`: the text of the query.
-/

namespace SparqlViews

/-- **Where the limits of a query are placed.** -/
inductive Strategy where
  /-- In the one select there is. -/
  | flat
  /-- In an inner select over the entities. -/
  | nestedSelect
  deriving DecidableEq, Repr

/-- Flat, unless pages of the view need an inner select. -/
def Strategy.forView (v : View) : Strategy := if v.needsNestedSelect then .nestedSelect else .flat

/-- **A view with a shape**, and the settings to render it with. -/
structure ViewQuery where
  view : View
  strategy : Strategy
  shape : Shape := {}
  limits : Limits := {}
  root : String := defaultRoot
  lookup : Lookup := .breadthFirst
  template : Option String := none

namespace ViewQuery

/-- The limit of the query under its policy. -/
def effectiveLimit (q : ViewQuery) : Option Nat := q.limits.effective q.shape.limit

/-- The path that a name means in the view. -/
def resolve (q : ViewQuery) (name : String) : Except ViewError Path := q.view.resolve q.lookup name

/-- The path of a name, which filters may use. -/
def filterablePath (q : ViewQuery) (name : String) : Except ViewError Path := do
  let path ← q.resolve name
  match q.view.find? path with
  | some e => if e.property.filterable then .ok path else .error (.notFilterable path.toDotted)
  | none => .error (.pathNotFound name)

/-! ### Operations -/

def withFilter (q : ViewQuery) (f : Filter) : ViewQuery :=
  { q with shape := { q.shape with filters := q.shape.filters ++ [f] } }

/-- Only entities with one of the values. -/
def filter (q : ViewQuery) (name : String) (values : List Term) : Except ViewError ViewQuery := do
  return q.withFilter (.equals (← q.filterablePath name) values)

/-- Only entities whose value compares as asked. -/
def filterRange (q : ViewQuery) (name : String) (comparison : Comparison) (value : Term) :
    Except ViewError ViewQuery := do
  return q.withFilter (.range (← q.filterablePath name) comparison value)

/-- Only entities with a value, or only those without. -/
def filterPresent (q : ViewQuery) (name : String) (mustExist : Bool) :
    Except ViewError ViewQuery := do
  return q.withFilter (.present (← q.filterablePath name) mustExist)

/-- A further key of the order. -/
def sortBy (q : ViewQuery) (name : String) (descending : Bool) : Except ViewError ViewQuery := do
  let path ← q.resolve name
  return { q with shape := { q.shape with sort := q.shape.sort ++ [⟨path, descending⟩] } }

/-- The page asked for. -/
def page (q : ViewQuery) (limit offset : Option Nat) : ViewQuery :=
  { q with shape := { q.shape with limit, offset } }

/-- A constant for a variable. -/
def bind (q : ViewQuery) (name : String) (value : Term) : ViewQuery :=
  { q with shape := { q.shape with bindings := q.shape.bindings.insert name value } }

/-- A pattern in front of the base pattern. -/
def constrain (q : ViewQuery) (text : String) : ViewQuery :=
  { q with shape := { q.shape with early := q.shape.early ++ [text] } }

/-- A pattern after that of the view. -/
def constrainLate (q : ViewQuery) (text : String) : ViewQuery :=
  { q with shape := { q.shape with late := q.shape.late ++ [text] } }

/-- Coordinates are written in full, without an exponent, and whole ones without a point. -/
def coordinateLayout : Decimal.Layout := ⟨none, false, .up⟩

/-- Only entities within a distance of a point. -/
def near (q : ViewQuery) (latitude longitude radius : Float) : ViewQuery :=
  let text := coordinateLayout.text
  q.constrain ("?" ++ q.root ++ " <http://jena.apache.org/spatial#nearby> (" ++ text latitude ++
    " " ++ text longitude ++ " " ++ text radius ++ " 'km') .")

def withBase (q : ViewQuery) (text : String) : ViewQuery :=
  { q with shape := { q.shape with base := some text } }

/-- A further variable to select. -/
def project (q : ViewQuery) (name : String) : ViewQuery := { q with shape := q.shape.project name }

def distinct (q : ViewQuery) (b : Bool) : ViewQuery :=
  { q with shape := { q.shape with distinct := b } }

def withTransform (q : ViewQuery) (t : Transform) : ViewQuery :=
  { q with shape := { q.shape with transforms := q.shape.transforms ++ [t] } }

/-! ### Building -/

/-- The shape that is rendered: the limit is the effective one. -/
def renderedShape (q : ViewQuery) : Shape := { q.shape with limit := q.effectiveLimit }

/-- The text of the query before its transforms. -/
def render (q : ViewQuery) : Except QueryError (List Char) :=
  match q.strategy with
  | .flat => Flat.render q.view q.renderedShape q.root q.template
  | .nestedSelect => (Nested.render q.view q.renderedShape q.root).mapError .view

/-- **The text of the query.** -/
def build (q : ViewQuery) : Except QueryError String := do
  if (q.view.get? q.root).isSome then throw (.view (.malformed (.rootCollision q.root)))
  return q.shape.transform (String.ofList (← q.render))

end ViewQuery

end SparqlViews
