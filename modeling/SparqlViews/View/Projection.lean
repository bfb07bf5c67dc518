import SparqlViews.View.Lookup

/-! # Projections of a view

* `View.project`: a view reduced to some of its paths. An entry on the list is kept with all that
  lies below it; an entry above one on the list is kept with its view reduced; all others go.
-/

namespace SparqlViews.View

/-- The part of a view that a list of paths keeps, for a view that stands at `base`. -/
def projectUnder (keep : List Path) (base : Path) : View → View
  | empty => empty
  | leaf p rest =>
    if (base ++ [p.name]) ∈ keep then leaf p (rest.projectUnder keep base)
    else rest.projectUnder keep base
  | nested p sub rest =>
    let here := base ++ [p.name]
    if here ∈ keep then nested p sub (rest.projectUnder keep base)
    else if keep.any fun q => here.isPrefixOf q then
      nested p (sub.projectUnder keep here) (rest.projectUnder keep base)
    else rest.projectUnder keep base

/-- **The view reduced to some of its paths**, all of which it must have. -/
def project (v : View) (keep : List Path) : Except ViewError View :=
  match keep.find? fun p => (v.find? p).isNone with
  | some p => .error (.pathNotFound (Path.toDotted p))
  | none => .ok (v.projectUnder keep [])

end SparqlViews.View
