import SparqlViews.Query.Substitution
import SparqlViews.Term.Prefixes
import SparqlViews.View.Path

/-! # What a query asks for

* `Filter`, `SortKey`, `Transform`: a condition on a path, a key of the order, a rewriting of the
  finished text.
* `Shape`: all that a query asks of a view. It is a value: a change makes a new one.
-/

namespace SparqlViews

/-- A comparison with a value. -/
inductive Comparison where
  | less
  | lessOrEqual
  | greater
  | greaterOrEqual
  deriving DecidableEq, Repr

def Comparison.symbol : Comparison → String
  | .less => "<"
  | .lessOrEqual => "<="
  | .greater => ">"
  | .greaterOrEqual => ">="

/-- **A condition on the value of a path.** -/
inductive Filter where
  | equals (path : Path) (values : List Term)
  | range (path : Path) (comparison : Comparison) (value : Term)
  | present (path : Path) (mustExist : Bool)
  deriving DecidableEq, Repr

def Filter.path : Filter → Path
  | .equals path _ | .range path _ _ | .present path _ => path

/-- A key of the order of entities. -/
structure SortKey where
  path : Path
  descending : Bool
  deriving DecidableEq, Repr

/-- A named rewriting of the finished text. -/
structure Transform where
  name : String
  apply : String → String

/-- The transform that declares the namespace labels a query uses. -/
def Transform.declareUsed (labels : Prefixes) : Transform := ⟨"prefixes", labels.declareUsed⟩

/-- **What a query asks of a view.** -/
structure Shape where
  /-- Patterns in front of the base pattern. -/
  early : List String := []
  /-- The pattern that selects the candidate entities. -/
  base : Option String := none
  /-- Patterns after that of the view. -/
  late : List String := []
  bindings : Substitution.Bindings := ∅
  filters : List Filter := []
  sort : List SortKey := []
  limit : Option Nat := none
  offset : Option Nat := none
  distinct : Bool := false
  /-- Further variables to select. -/
  projection : List String := []
  transforms : List Transform := []

namespace Shape

def isBound (s : Shape) (name : String) : Bool := s.bindings.contains name

/-- The shape with a further variable selected, once. -/
def project (s : Shape) (name : String) : Shape :=
  if name ∈ s.projection then s else { s with projection := s.projection ++ [name] }

/-- Some rows or entities are cut off. -/
def isPaged (s : Shape) : Bool := s.limit.isSome || s.offset.any (· > 0)

/-- The transforms applied in turn. -/
def transform (s : Shape) (query : String) : String :=
  s.transforms.foldl (fun q t => t.apply q) query

end Shape

end SparqlViews
