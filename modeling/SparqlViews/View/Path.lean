import SparqlViews.Naming
import SparqlViews.Text.Basic

/-! # Paths into a view

A path is the list of short names from the root of a view to one of its entries. The empty path is
the root. A path has two written forms: dotted (`a.b`) in requests and documents, and its variable
(`a_b`) in queries and rows.

* `ofDotted`, `toDotted`: the dotted form.
* `toVariable`, `ofVariable`: the variable of a path below a root variable.
-/

namespace SparqlViews

/-- **The short names from the root to an entry.** -/
abbrev Path := List String

namespace Path

/-- The path of a dotted form; the empty text is the root. -/
def ofDotted (s : String) : Path := if s.isEmpty then [] else Text.split '.' s

def toDotted (p : Path) : String := ".".intercalate p

/-- **The variable of a path**; the root has a variable of its own. -/
def toVariable (root : String) (p : Path) : String :=
  if p.isEmpty then root else Naming.encode p

/-- The path of a variable. -/
def ofVariable (root name : String) : Path := if name = root then [] else Naming.decode name

/-- The path without its last name. -/
def parent? (p : Path) : Option Path := if p.isEmpty then none else some p.dropLast

/-- The paths of which this one is a proper extension, from one name on. -/
def ancestors (p : Path) : List Path := (List.range (p.length - 1)).map fun n => p.take (n + 1)

/-- The order of paths by their names, a path before its extensions. -/
def compare : Path → Path → Ordering
  | [], [] => .eq
  | [], _ :: _ => .lt
  | _ :: _, [] => .gt
  | a :: p, b :: q => if a < b then .lt else if b < a then .gt else compare p q

end Path

/-- The variable of the root where nothing else is configured. -/
def defaultRoot : String := "id"

end SparqlViews
