/-! # Limits on the number of results

* `Limits.effective`: the limit of a request, from the one it asks for, the soft limit that stands
  in for a missing one, and the hard limit that caps both.
-/

namespace SparqlViews

/-- **The limits of an endpoint.** -/
structure Limits where
  /-- The limit of a request that names none. -/
  soft : Option Nat := none
  /-- The greatest limit of any request. -/
  hard : Option Nat := none
  deriving DecidableEq, Repr

namespace Limits

/-- **The limit of a request.** -/
def effective (l : Limits) (requested : Option Nat) : Option Nat :=
  match requested.or l.soft, l.hard with
  | some wanted, some hard => some (min wanted hard)
  | none, hard => hard
  | wanted, none => wanted

/-- The limits, with other ones in place of those that are not set. -/
def orElse (l defaults : Limits) : Limits := ⟨l.soft.or defaults.soft, l.hard.or defaults.hard⟩

end Limits

end SparqlViews
