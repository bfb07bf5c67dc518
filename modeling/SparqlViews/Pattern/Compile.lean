import SparqlViews.Pattern.Basic
import SparqlViews.View.Lookup

/-! # The pattern of a view

The pattern of a view around a subject is, in this order: one block with the triples of all
mandatory entries that have no view of their own; for each mandatory entry with a view its triple,
followed by the pattern of that view around its value; and for each optional entry a group with its
triple and the pattern of its view. The value of an entry is the variable of its path.

* `Pattern.compile`: the pattern of a view, with the variables it introduces.
* `Pattern.chain`: the triples along one path.
-/

namespace SparqlViews.Pattern

/-- Which entries of a view a pattern covers. -/
inductive Coverage where
  /-- All entries. -/
  | full
  /-- The mandatory entries below mandatory entries: what every entity of the view must match. -/
  | mandatory
  deriving DecidableEq, Repr

/-- The pattern of one level of a view, apart by the groups of its entries. -/
structure Parts where
  pairs : List (String × String) := []
  nested : List Element := []
  nestedVariables : List String := []
  optional : List Element := []
  optionalVariables : List String := []

/-- The elements of all groups around a subject. -/
def Parts.elements (coverage : Coverage) (subject : String) (parts : Parts) : List Element :=
  (if parts.pairs.isEmpty then [] else [.block subject parts.pairs]) ++ parts.nested ++
    (if coverage = .full then parts.optional else [])

/-- The variables of all groups. -/
def Parts.vars (coverage : Coverage) (parts : Parts) : List String :=
  parts.pairs.map (·.2) ++ parts.nestedVariables ++
    (if coverage = .full then parts.optionalVariables else [])

/-- The pattern of a view that stands at `base`, around a subject. -/
def compileUnder (coverage : Coverage) (root subject : String) (base : Path) : View → Parts
  | .empty => {}
  | .leaf p rest =>
    let parts := compileUnder coverage root subject base rest
    let object := Path.toVariable root (base ++ [p.name])
    if p.optional then
      { parts with
        optional := .optional [.triple subject p.iri object] :: parts.optional
        optionalVariables := object :: parts.optionalVariables }
    else { parts with pairs := (p.iri, object) :: parts.pairs }
  | .nested p sub rest =>
    let parts := compileUnder coverage root subject base rest
    let here := base ++ [p.name]
    let object := Path.toVariable root here
    let inner := compileUnder coverage root object here sub
    let elements := .triple subject p.iri object :: inner.elements coverage object
    let vars := object :: inner.vars coverage
    if p.optional then
      { parts with
        optional := .optional elements :: parts.optional
        optionalVariables := vars ++ parts.optionalVariables }
    else
      { parts with
        nested := elements ++ parts.nested
        nestedVariables := vars ++ parts.nestedVariables }

/-- A pattern and the variables it introduces, the root first. -/
structure Compiled where
  elements : List Element
  vars : List String

/-- **The pattern of a view.** -/
def compile (coverage : Coverage) (root : String) (v : View) : Compiled :=
  let parts := compileUnder coverage root root [] v
  ⟨parts.elements coverage root, root :: parts.vars coverage⟩

/-- The triples along a path through a view that stands at `base`. -/
def chainFrom? (root subject : String) (base : Path) (v : View) : Path → Option (List Element)
  | [] => none
  | [name] => do
    let e ← v.get? name
    some [.triple subject e.property.iri (Path.toVariable root (base ++ [name]))]
  | name :: rest => do
    let e ← v.get? name
    let sub ← e.sub
    let object := Path.toVariable root (base ++ [name])
    let more ← chainFrom? root object (base ++ [name]) sub rest
    some (.triple subject e.property.iri object :: more)

/-- **The triples from the root along a path of a view.** -/
def chain (root : String) (v : View) (p : Path) : Except ViewError (List Element) :=
  match chainFrom? root root [] v p with
  | some elements => .ok elements
  | none => .error (.pathNotFound (Path.toDotted p))

end SparqlViews.Pattern
