import SparqlViews.Term.Basic
import SparqlViews.View.Error

/-! # Why a query cannot be built

* `QueryError`: the strategy does not fit, a template lacks a marker, a request value is none, or
  the view is at fault.
-/

namespace SparqlViews

/-- Why a query needs an inner select over entities. -/
inductive NestingReason where
  | pagedRows
  | multivaluedSort (path : String)
  deriving DecidableEq, Repr

def NestingReason.message : NestingReason → String
  | .pagedRows =>
    "view has multivalued or optional nested entries, so LIMIT/OFFSET would count rows instead " ++
      "of entities"
  | .multivaluedSort path => "sorting on multivalued path `" ++ path ++ "`"

/-- Why a request value is refused. -/
inductive ParameterFault where
  | notCount
  | notBoolean
  | notCoordinates
  | notFinite
  | notTerm (error : TermError)
  deriving DecidableEq, Repr

def ParameterFault.message : ParameterFault → String
  | .notCount => "expected a non-negative integer"
  | .notBoolean => "expected true or false"
  | .notCoordinates => "expected lat,lon,km"
  | .notFinite => "coordinates and radius must be finite"
  | .notTerm error => error.message

/-- **Why a query cannot be built.** -/
inductive QueryError where
  | nestedSelectRequired (reason : NestingReason)
  | missingMarker (marker content : String)
  | invalidParameter (name value : String) (fault : ParameterFault)
  | view (error : ViewError)
  deriving DecidableEq, Repr

namespace QueryError

def message : QueryError → String
  | .nestedSelectRequired reason =>
    "Nested-select strategy required but endpoint is configured for flat queries: " ++
      reason.message
  | .missingMarker marker content =>
    "Query template has no `" ++ marker ++ "` marker (needed to place " ++ content ++ ")"
  | .invalidParameter name value fault =>
    "Invalid value `" ++ value ++ "` for parameter `" ++ name ++ "`: " ++ fault.message
  | .view error => error.message

/-- The error is caused by a request, not by a document. -/
def isRequestError : QueryError → Bool
  | .invalidParameter _ _ _ => true
  | .view error => error.isRequestError
  | _ => false

end QueryError

end SparqlViews
