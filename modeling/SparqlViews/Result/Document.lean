import SparqlViews.Json.Reader
import SparqlViews.Result.Row
import SparqlViews.Table

/-! # Result sets as documents

The JSON form of a result set: a head with the variables of the query, and solutions, each a record
of terms under variables.

* `ResultSet.read`: the result set of a document.
* `ResultSet.rows`: its rows, one for each solution. The variables of the head come first, in their
  order, then all others in ascending order. A term of an unknown kind spoils the whole set.
-/

namespace SparqlViews

/-- A term as a result set writes it. -/
structure WrittenTerm where
  kind : String
  value : String
  language : Option String := none
  datatype : Option String := none
  deriving DecidableEq, Repr

/-- **A result set**: announced variables and solutions. -/
structure ResultSet where
  vars : List String
  solutions : List (Table WrittenTerm)

/-! ### Reading -/

namespace WrittenTerm

def fields : Fields := [("type", []), ("value", []), ("xml:lang", []), ("datatype", [])]

def read (p : Part) : Reading WrittenTerm := do
  let slots ← p.slots fields true
  return {
    kind := ← Part.slot slots "type" Part.text
    value := ← Part.slot slots "value" Part.text
    language := ← Part.optionalSlot slots "xml:lang" Part.text
    datatype := ← Part.optionalSlot slots "datatype" Part.text }

/-- **The term that is written**; a language wins over a datatype. -/
def toTerm? (t : WrittenTerm) : Option Term :=
  if t.kind = "uri" then some (.iri t.value)
  else if t.kind = "bnode" then some (.blank t.value)
  else if t.kind = "literal" ∨ t.kind = "typed-literal" then
    match t.language, t.datatype with
    | some tag, _ => some (.ofLanguage t.value tag)
    | none, some datatype => some (.ofDatatype t.value datatype)
    | none, none => some (.plain t.value)
  else none

end WrittenTerm

namespace ResultSet

/-- The variables of a head. -/
def readVars (head : Part) : Reading (List String) := do
  Part.slotOr (← head.slots [("vars", [])] false) "vars" (Part.listOf Part.text) []

/-- A solution: a record of terms, of which the last under a variable counts. -/
def readSolution (p : Part) : Reading (Table WrittenTerm) := do
  return Table.ofList (← p.named WrittenTerm.read)

/-- The solutions of the results. -/
def readSolutions (results : Part) : Reading (List (Table WrittenTerm)) := do
  Part.slot (← results.slots [("bindings", [])] false) "bindings" (Part.listOf readSolution)

/-- **The result set of a document.** -/
def read (p : Part) : Reading ResultSet := do
  let slots ← p.slots [("head", []), ("results", [])] false
  return ⟨← Part.slot slots "head" readVars, ← Part.slot slots "results" readSolutions⟩

/-! ### Rows -/

/-- The terms of a solution in the order of its row: those of announced variables, each once, and
then all others. The position of the solution is kept with the announced ones. -/
def ordered (vars : List String) (position : Nat) (solution : Table WrittenTerm) :
    List (String × WrittenTerm × Option Nat) :=
  (vars.eraseDups.filterMap fun name =>
      (solution.get? name).map fun t => (name, t, some position)) ++
    (solution.entries.filter fun e => !vars.contains e.1).map fun e => (e.1, e.2, none)

/-- The row of a solution. -/
def row (vars : List String) (position : Nat) (solution : Table WrittenTerm) :
    Except SourceError Row :=
  (ordered vars position solution).foldlM (fun r (name, written, position) =>
    match written.toTerm? with
    | some term => .ok (r.insert name term)
    | none => .error (.unknownKind written.kind position)) {}

/-- **The rows of a result set.** -/
def rows (s : ResultSet) : Except SourceError (List Row) :=
  (s.solutions.zipIdx).mapM fun (solution, position) => row s.vars position solution

/-- The source of the rows that a text writes. -/
def source (text : String) : Except SourceError RowSource :=
  match (Json.read? text).bind fun source => source.read? read with
  | some s => s.rows.map RowSource.ofRows
  | none => .error .notResults

end ResultSet

end SparqlViews
