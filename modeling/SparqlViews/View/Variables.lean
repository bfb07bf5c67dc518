import SparqlViews.View.Path
import SparqlViews.View.Basic

/-! # The variables of a view

* `View.vars`: the variables of a view in the order in which its pattern introduces them: the
  root; then the mandatory entries without a view of their own; then the mandatory ones with a view,
  each followed by the variables of that view; then the optional ones likewise.
-/

namespace SparqlViews.View

/-- The variables of one level of a view, apart by the group that its pattern puts them into. -/
structure Clauses where
  leaves : List String := []
  nested : List String := []
  optional : List String := []

/-- All groups in their order. -/
def Clauses.all (c : Clauses) : List String := c.leaves ++ c.nested ++ c.optional

/-- The variables of a view that stands at `base`. -/
def clauses (root : String) (base : Path) : View → Clauses
  | empty => {}
  | leaf p rest =>
    let c := rest.clauses root base
    let name := Path.toVariable root (base ++ [p.name])
    if p.optional then { c with optional := name :: c.optional }
    else { c with leaves := name :: c.leaves }
  | nested p sub rest =>
    let c := rest.clauses root base
    let here := base ++ [p.name]
    let own := Path.toVariable root here :: (sub.clauses root here).all
    if p.optional then { c with optional := own ++ c.optional }
    else { c with nested := own ++ c.nested }

/-- **The variables of a view**, the root first. -/
def vars (root : String) (v : View) : List String := root :: (v.clauses root []).all

end SparqlViews.View
