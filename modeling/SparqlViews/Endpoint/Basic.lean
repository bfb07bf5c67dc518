import SparqlViews.Document.Build
import SparqlViews.Endpoint.Request
import SparqlViews.Result.Stream
import SparqlViews.Settings.Basic

/-! # Endpoints

An endpoint answers requests over its views, which it looks up in a store each time, so that a view
that is registered anew counts at once.

* `Endpoint.view`, `Endpoint.prototype`: the chosen view, and the query over it before a request.
* `Endpoint.request`, `Endpoint.compile`: the query of a request, and its text.
* `Endpoint.results`: the stream of results for the rows that such a query answers.

Each of them gives the store as it is afterwards, since looking up a view may keep it there.
-/

namespace SparqlViews

/-- **An endpoint**, ready for requests. -/
structure Endpoint where
  name : String
  comment : Option String
  /-- The name of its own view in the store. -/
  defaultView : String
  /-- The views that a request may choose, with their names in the store. -/
  views : Table String
  base : Option String
  template : Option String
  limits : Limits
  /-- None leaves the choice to the view. -/
  strategy : Option Strategy
  lookup : Lookup
  root : String

namespace Endpoint

/-- The name in the store of a chosen view. -/
def storeName (e : Endpoint) : Option String → Except ViewError String
  | none => .ok e.defaultView
  | some choice =>
    match e.views.get? choice with
    | some name => .ok name
    | none => .error (.viewNotFound choice)

/-- **The view that a request chooses.** -/
def view (e : Endpoint) (s : ViewStore) (choice : Option String) :
    Except ViewError View × ViewStore :=
  match e.storeName choice with
  | .ok name => s.resolve name
  | .error error => (.error error, s)

/-- The query over a view with the settings of the endpoint. -/
def prepare (e : Endpoint) (labels : Prefixes) (v : View) : ViewQuery := {
  view := v
  strategy := e.strategy.getD (.forView v)
  shape := { base := e.base, transforms := [.declareUsed labels] }
  limits := e.limits
  root := e.root
  lookup := e.lookup
  template := e.template }

/-- **The query over a view before a request.** -/
def prototype (e : Endpoint) (s : ViewStore) (choice : Option String) :
    Except ViewError ViewQuery × ViewStore :=
  (e.view s choice).map (fun answer => answer.map (e.prepare s.prefixes)) id

/-- The view that parameters choose, by the last of those that do. -/
def chosenView (parameters : List (String × String)) : Option String :=
  (parameters.reverse.find? fun p => p.1 = viewParameter).map (·.2)

/-- **The query of a request.** -/
def request (e : Endpoint) (s : ViewStore) (parameters : List (String × String)) :
    Except QueryError ViewQuery × ViewStore :=
  (e.prototype s (chosenView parameters)).map
    (fun answer => do (← answer.mapError .view).request s.prefixes parameters) id

/-- **The text of the query of a request.** -/
def compile (e : Endpoint) (s : ViewStore) (parameters : List (String × String)) :
    Except QueryError String × ViewStore :=
  (e.request s parameters).map (fun answer => do (← answer).build) id

/-- **The results for the rows of a query** over a chosen view. -/
def results (e : Endpoint) (s : ViewStore) (choice : Option String) (source : RowSource) :
    Except ViewError ResultStream × ViewStore :=
  (e.view s choice).map (fun answer => answer.map fun v => { source, view := v, root := e.root }) id

end Endpoint

end SparqlViews
