import SparqlViews.Endpoint.Basic

/-! # Endpoints made from documents

* `Endpoint.ofDefinition`: the endpoint of a definition, with the store that holds its own views
  too. Each of its views is looked up once, so that a fault is found before the first request.
* `Catalog.ofDocument`: all endpoints of a document over one store.
-/

namespace SparqlViews

namespace Endpoint

/-- The name in the store of an own view of an endpoint. -/
def ownName (owner choice : String) : String := owner ++ "#" ++ choice

/-- The alias of the view that a request without a choice gets. -/
def defaultAlias : String := "default"

/-- The name in the store of what an endpoint says about a view; an own view is registered. -/
def register (s : ViewStore) (owner choice : String) :
    ViewRef → Except ViewError (String × ViewStore)
  | .named name => if s.contains name then .ok (name, s) else .error (.viewNotFound name)
  | .inline definitions => do
    let v ← buildView s.prefixes (.endpointView owner choice) definitions
    return (ownName owner choice, (← s.register (ownName owner choice) (.tree v)).2)

/-- The names of all views that requests may choose. -/
def registerAll (s : ViewStore) (owner : String) (views : List (String × ViewRef)) :
    Except ViewError (Table String × ViewStore) :=
  views.foldlM (fun (names, s) (choice, ref) => do
    let (name, s) ← register s owner choice ref
    return (names.insert choice name, s)) (∅, s)

/-- The name of the view of an endpoint: its own, else the first that requests may choose. -/
def registerDefault (s : ViewStore) (d : EndpointDefinition) (names : Table String) :
    Except ViewError (String × ViewStore) :=
  match d.view, names.values with
  | some ref, _ => register s d.name defaultAlias ref
  | none, name :: _ => .ok (name, s)
  | none, [] => .error (.malformed .endpointWithoutView (some (.endpoint d.name)))

/-- The markers that every request fills: that of the order, that of the base pattern if there is
one, and that of the page if the limits always yield one. -/
def requiredMarkers (hasBase : Bool) (limits : Limits) : List Marker :=
  .sort :: (if hasBase then [.inject] else []) ++
    (if (limits.effective none).isSome then [.modifiers] else [])

/-- The template of a definition fits the strategy and has the markers that it needs. -/
def checkTemplate (d : EndpointDefinition) (limits : Limits) : Except ViewError Unit :=
  match d.template with
  | none => .ok ()
  | some template =>
    let place := some (Place.endpoint d.name)
    if d.strategy = some .nestedSelect then .error (.malformed .templateNotFlat place)
    else
      match (requiredMarkers d.base.isSome limits).find? fun m => !m.isIn template.toList with
      | some marker => .error (.malformed (.templateWithoutMarker marker.text) place)
      | none => .ok ()

/-- The store in which a view has been looked up; no entry of it is named like the root. -/
def checkView (owner root : String) (s : ViewStore) (name : String) : Except ViewError ViewStore :=
  match s.resolve name with
  | (.error e, _) => .error e
  | (.ok v, s) =>
    if (v.get? root).isSome then .error (.malformed (.rootCollision root) (some (.endpoint owner)))
    else .ok s

/-- **The endpoint of a definition**, and the store with its views. -/
def ofDefinition (settings : Settings) (s : ViewStore) (d : EndpointDefinition) :
    Except ViewError (Endpoint × ViewStore) := do
  let (views, s) ← registerAll s d.name d.views.entries
  let (defaultView, s) ← registerDefault s d views
  let limits := Limits.orElse ⟨d.softLimit, d.limit⟩ settings.limits
  checkTemplate d limits
  let strategy :=
    if d.template.isSome then some (d.strategy.getD .flat) else d.strategy.or settings.strategy
  let s ← (defaultView :: views.values).foldlM (checkView d.name settings.root) s
  return ({
    name := d.name
    comment := d.comment
    defaultView
    views
    base := d.base
    template := d.template
    limits
    strategy
    lookup := d.lookup.getD settings.lookup
    root := settings.root }, s)

end Endpoint

/-- **All endpoints of a document**, over one store of views. -/
structure Catalog where
  store : ViewStore
  endpoints : Table Endpoint

namespace Catalog

def get? (c : Catalog) (name : String) : Option Endpoint := c.endpoints.get? name

/-- The names of the endpoints, in ascending order. -/
def names (c : Catalog) : List String := c.endpoints.names

/-- The catalog with the endpoint of a further definition. -/
def add (settings : Settings) (c : Catalog) (d : EndpointDefinition) :
    Except ViewError Catalog := do
  let (e, store) ← Endpoint.ofDefinition settings c.store d
  return ⟨store, c.endpoints.insert d.name e⟩

/-- **The catalog of a document.** -/
def ofDocument (settings : Settings) (d : Document) : Except ViewError Catalog := do
  d.endpoints.foldlM (add settings) ⟨← d.store, ∅⟩

end Catalog

end SparqlViews
