import SparqlViews.Decimal.Reader
import SparqlViews.Query.Builder
import SparqlViews.View.Value

/-! # Request parameters

A request is a list of named parameters, in order. A name with a leading underscore sets the page,
the order, the place or the distinctness; others are conditions on the path that they name: `min-`,
`minEx-`, `max-` and `maxEx-` compare, `exists-` asks for a value, and a bare name asks for one of
the values given under it.

* `Request.step`: what one parameter does. The equalities are only gathered.
* `ViewQuery.request`: the query after all parameters; equalities come last, in the order in which
  their names first came, and the page is set at the end.
-/

namespace SparqlViews

/-- The parameter that chooses the view. -/
def viewParameter : String := "_view"

/-- The beginnings of the names of comparisons. The first that fits counts. -/
def comparisonMarks : List (String × Comparison) :=
  [("minEx-", .greater), ("maxEx-", .less), ("min-", .greaterOrEqual), ("max-", .lessOrEqual)]

/-- The comparison that a parameter asks for, and the name of its path. -/
def comparison? (name : String) : Option (Comparison × String) :=
  comparisonMarks.findSome? fun (mark, comparison) =>
    (Text.dropPrefix? name mark).map fun path => (comparison, path)

/-! ### Values -/

namespace RequestValue

/-- A number of results. -/
def count (name value : String) : Except QueryError Nat :=
  (Decimal.natural64 (Text.trimmed value)).mapError fun _ =>
    .invalidParameter name value .notCount

/-- A truth value; the empty text is true. -/
def truth (name value : String) : Except QueryError Bool :=
  let word := Text.trimmed value
  if ["true", "yes", "1", ""].contains word then .ok true
  else if ["false", "no", "0"].contains word then .ok false
  else .error (.invalidParameter name value .notBoolean)

/-- A point and a distance. -/
def place (name value : String) : Except QueryError (Float × Float × Float) :=
  match (Text.split ',' value).mapM fun part => Decimal.float? (Text.trimmed part) with
  | none => .error (.invalidParameter name value .notCoordinates)
  | some parts =>
    if !parts.all Float.isFinite then .error (.invalidParameter name value .notFinite)
    else
      match parts with
      | [latitude, longitude, radius] => .ok (latitude, longitude, radius)
      | _ => .error (.invalidParameter name value .notCoordinates)

/-- The names of an order, each with its direction; a minus sign stands for descending. -/
def sortNames (value : String) : List (String × Bool) :=
  (((Text.split ',' value).map Text.trimmed).filter fun key => !key.isEmpty).map fun key =>
    match Text.dropPrefix? key "-" with
    | some name => (name, true)
    | none => ((Text.dropPrefix? key "+").getD key, false)

/-- The term that a value stands for under the entry of a name. -/
def term (q : ViewQuery) (labels : Prefixes) (name raw : String) : Except QueryError Term := do
  let path ← (q.resolve name).mapError .view
  match q.view.find? path with
  | none => .error (.view (.pathNotFound name))
  | some e =>
    (e.property.value labels raw).mapError fun error => .invalidParameter name raw (.notTerm error)

end RequestValue

/-! ### Parameters -/

/-- Values gathered under a name, behind those that came before. -/
def gather (name value : String) : List (String × List String) → List (String × List String)
  | [] => [(name, [value])]
  | e :: rest =>
    if e.1 = name then (e.1, e.2 ++ [value]) :: rest else e :: gather name value rest

/-- A request so far: the query, the page asked for, and the equalities by name. -/
structure Request where
  query : ViewQuery
  limit : Option Nat := none
  offset : Option Nat := none
  equalities : List (String × List String) := []

namespace Request

/-- The request with a change of its query. -/
def alter (r : Request) (change : Except ViewError ViewQuery) : Except QueryError Request :=
  (change.mapError .view).map fun query => { r with query }

/-- What a parameter with a leading underscore does. -/
def reserved (r : Request) (name value : String) : Except QueryError Request :=
  if name = "_limit" then do
    return { r with limit := some (← RequestValue.count name value) }
  else if name = "_offset" then do
    return { r with offset := some (← RequestValue.count name value) }
  else if name = "_sort" then
    r.alter ((RequestValue.sortNames value).foldlM (fun q key => q.sortBy key.1 key.2) r.query)
  else if name = "_near" then do
    let (latitude, longitude, radius) ← RequestValue.place name value
    return { r with query := r.query.near latitude longitude radius }
  else if name = "_distinct" then do
    return { r with query := r.query.distinct (← RequestValue.truth name value) }
  else .ok r

/-- **What one parameter does.** -/
def step (labels : Prefixes) (r : Request) (parameter : String × String) :
    Except QueryError Request :=
  let (name, value) := parameter
  if name.toList.head? = some '_' then r.reserved name value
  else
    match Text.dropPrefix? name "exists-", comparison? name with
    | some path, _ => do r.alter (r.query.filterPresent path (← RequestValue.truth name value))
    | none, some (comparison, path) => do
      r.alter (r.query.filterRange path comparison (← RequestValue.term r.query labels path value))
    | none, none => .ok { r with equalities := gather name value r.equalities }

/-- The query with the equality of a name. -/
def applyEquality (labels : Prefixes) (q : ViewQuery) (equality : String × List String) :
    Except QueryError ViewQuery := do
  let terms ← equality.2.mapM (RequestValue.term q labels equality.1)
  (q.filter equality.1 terms).mapError .view

/-- The query of a request that has been read to its end. -/
def finish (labels : Prefixes) (r : Request) : Except QueryError ViewQuery := do
  let q ← r.equalities.foldlM (applyEquality labels) r.query
  if r.limit.isSome || r.offset.isSome then
    return q.page (r.limit.or q.shape.limit) r.offset
  else return q

end Request

/-- **The query after the parameters of a request.** -/
def ViewQuery.request (q : ViewQuery) (labels : Prefixes) (parameters : List (String × String)) :
    Except QueryError ViewQuery := do
  (← parameters.foldlM (Request.step labels) { query := q }).finish labels

end SparqlViews
