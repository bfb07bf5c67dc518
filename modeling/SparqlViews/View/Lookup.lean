import SparqlViews.View.Search

/-! # Finding entries of a view

* `View.find?`, `View.subtree?`: the entry and the view at a path.
* `View.paths`: every path, depth first.
* `View.positions`: the paths of all entries of a name, level by level.
* `View.resolve`: the path that a name in a request means. A name with a dot is a path; any other
  is looked up as `Lookup` says.
-/

namespace SparqlViews

/-- **How a name without a dot is looked up.** -/
inductive Lookup where
  /-- The first entry of the name, level by level. -/
  | breadthFirst
  /-- The only entry of the name. -/
  | unambiguous
  /-- The entry of the name at the top. -/
  | qualified
  deriving DecidableEq, Repr

namespace View

/-- **The entry at a path**; the root has none. -/
def find? (v : View) : Path → Option Entry
  | [] => none
  | [name] => v.get? name
  | name :: rest => do
    let e ← v.get? name
    let sub ← e.sub
    sub.find? rest

/-- The view whose entries lie just below a path. -/
def subtree? (v : View) (p : Path) : Option View :=
  if p.isEmpty then some v else (v.find? p).bind Entry.sub

/-- The paths below a given one, each before those below it. -/
def pathsUnder (base : Path) : View → List Path
  | empty => []
  | leaf p rest => (base ++ [p.name]) :: rest.pathsUnder base
  | nested p sub rest =>
    (base ++ [p.name]) :: (sub.pathsUnder (base ++ [p.name]) ++ rest.pathsUnder base)

/-- **Every path of a view**, in document order. -/
def paths (v : View) : List Path := v.pathsUnder []

/-- The paths of all entries of a name, level by level. -/
def positions (v : View) (name : String) : List Path :=
  ((Search.start v).all fun e => e.name = name).map (·.1)

/-- **The path that a name in a request means.** -/
def resolve (v : View) (lookup : Lookup) (name : String) : Except ViewError Path :=
  if name.toList.contains '.' then
    let p := Path.ofDotted name
    if (v.find? p).isSome then .ok p else .error (.pathNotFound name)
  else
    match lookup with
    | .qualified => if (v.get? name).isSome then .ok [name] else .error (.pathNotFound name)
    | .breadthFirst =>
      match (Search.start v).next? fun e => e.name = name with
      | none => .error (.pathNotFound name)
      | some (found, _) => .ok found.1
    | .unambiguous =>
      match v.positions name with
      | [] => .error (.pathNotFound name)
      | [p] => .ok p
      | candidates => .error (.ambiguousName name (candidates.map Path.toDotted))

/-- The first entry with a property, level by level. -/
def findIri? (v : View) (iri : String) : Option (Path × Entry) :=
  ((Search.start v).next? fun e => e.property.iri = iri).map (·.1)

/-- The path of the first entry with a property. -/
def pathOfIri (v : View) (iri : String) : Except ViewError Path :=
  match v.findIri? iri with
  | some found => .ok found.1
  | none => .error (.unknownProperty iri)

/-- No entry along a path has many values. -/
def singleValued (v : View) (p : Path) : Bool :=
  (Path.ancestors p ++ [p]).all fun q => (v.find? q).any fun e => !e.property.multi

end View

end SparqlViews
