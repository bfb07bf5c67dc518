import SparqlViews.Result.Row
import SparqlViews.Result.Tree
import SparqlViews.View.Lookup
import SparqlViews.View.Variables

/-! # From rows to trees

A query answers with rows; the rows of one entity are adjacent, and a stream folds them into the
tree of that entity, one tree at a time.

* `ResultStream.foldRow`: the tree of an entity with a row added. Every bound variable of the view
  adds its value at its path, below the nested resources that the same row names.
* `ResultStream.next`: the next tree. It reads the rows of one entity and one row further, which is
  kept for the next tree. A row without an entity is a tree of its own.
* A source is closed as soon as it ends, fails, or the stream is closed.
-/

namespace SparqlViews

/-- The source of a stream failed. -/
inductive StreamError where
  | aborted (source : SourceError)
  deriving DecidableEq, Repr

def StreamError.message : StreamError → String
  | .aborted source => "Result stream aborted: " ++ source.message

/-- **A stream of result trees** over a source of rows. -/
structure ResultStream where
  source : RowSource
  view : View
  root : String
  /-- The row that ended the last entity. -/
  pending : Option Row := none
  closed : Bool := false

/-- The variables of a view below the root, with the paths they stand for. -/
def View.columns (root : String) (v : View) : List (String × Path) :=
  ((v.vars root).filter (· ≠ root)).map fun name => (name, Path.ofVariable root name)

/-- The tree with a value added at the rest of a path, for a view that stands at `base`. -/
def ResultTree.insertAt (root : String) (row : Row) (value : Term) (v : View) (base : Path) :
    Path → ResultTree → ResultTree
  | [], t => t
  | name :: rest, t =>
    match v.get? name with
    | none => t
    | some e =>
      if e.property.hidden then t
      else
        match e.sub, rest with
        | none, [] => t.addTerm name value
        | some _, [] => t.withChild name (some value) e.property.suppressId fun c => c
        | some sub, _ :: _ =>
          let here := base ++ [name]
          t.withChild name (row.get? (Path.toVariable root here)) e.property.suppressId
            (ResultTree.insertAt root row value sub here rest)
        | none, _ :: _ => t

/-- **The tree with the values of a row added.** -/
def ResultTree.foldRow (root : String) (v : View) (columns : List (String × Path))
    (t : ResultTree) (row : Row) : ResultTree :=
  columns.foldl (fun t column =>
    match row.get? column.1 with
    | some value => t.insertAt root row value v [] column.2
    | none => t) t

/-- The tree of a row without an entity: every variable that is not internal is a key. -/
def ResultTree.ofRow (row : Row) : ResultTree :=
  (row.bindings.filter fun b => !Naming.isInternal b.1).foldl (fun t b => t.addTerm b.1 b.2) {}

namespace ResultStream

/-- The stream with its source closed, once. -/
def close (s : ResultStream) : ResultStream :=
  if s.closed then s else { s with source := s.source.close, pending := none, closed := true }

/-- The tree of an entity, read on until its rows end. -/
def gather (s : ResultStream) (columns : List (String × Path)) (entity : Term) (t : ResultTree) :
    Except StreamError ResultTree × ResultStream :=
  match _h : s.source.pull with
  | (.row row, source) =>
    if row.get? s.root = some entity then
      gather { s with source } columns entity (t.foldRow s.root s.view columns row)
    else (.ok t, { s with source, pending := some row })
  | (.done, source) => (.ok t, close { s with source })
  | (.failed error, source) => (.error (.aborted error), close { s with source })
termination_by s.source.answers.length
decreasing_by exact RowSource.answers_lt_of_pull_row _h

/-- The tree that begins with a row. -/
def startWith (s : ResultStream) (row : Row) : Except StreamError ResultTree × ResultStream :=
  match row.get? s.root with
  | none => (.ok (.ofRow row), s)
  | some entity =>
    let columns := s.view.columns s.root
    s.gather columns entity (ResultTree.foldRow s.root s.view columns { id := some entity } row)

/-- **The next tree**, or nothing at the end. -/
def next (s : ResultStream) : Option (Except StreamError ResultTree) × ResultStream :=
  if s.closed then (none, s)
  else
    match s.pending with
    | some row => (startWith { s with pending := none } row).map some id
    | none =>
      match s.source.pull with
      | (.row row, source) => (startWith { s with source } row).map some id
      | (.done, source) => (none, close { s with source })
      | (.failed error, source) => (some (.error (.aborted error)), close { s with source })

/-- The rows that the stream still has, at most. -/
def remaining (s : ResultStream) : Nat :=
  s.source.answers.length + (if s.pending.isSome then 1 else 0)

/-- The answers up to the end of the stream, `limit` of them at most. -/
def collect (limit : Nat) (s : ResultStream) :
    List (Except StreamError ResultTree) × ResultStream :=
  match limit with
  | 0 => ([], s)
  | limit + 1 =>
    match s.next with
    | (none, s) => ([], s)
    | (some answer, s) =>
      let (answers, s) := collect limit s
      (answer :: answers, s)

/-- **All answers** up to the end of the stream. Each takes at least one row. -/
def all (s : ResultStream) : List (Except StreamError ResultTree) × ResultStream :=
  collect (s.remaining + 1) s

end ResultStream

end SparqlViews
