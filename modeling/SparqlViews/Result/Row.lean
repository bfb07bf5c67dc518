import SparqlViews.Term.Printer

/-! # Rows

* `Row`: one solution of a query, the values of its variables in the order they were bound.
* `RowSource`: where rows come from. It answers each call with a row, with the end, or with a
  failure, as its list of answers says; when the list is used up it answers with the end. It keeps
  the calls that were made on it.
-/

namespace SparqlViews

/-- **One solution**: each variable has at most one value. -/
structure Row where
  bindings : List (String × Term) := []
  deriving DecidableEq, Repr

namespace Row

/-- The bindings with a value for a variable, in the place of an earlier one. -/
def insertInto (name : String) (value : Term) : List (String × Term) → List (String × Term)
  | [] => [(name, value)]
  | b :: rest => if b.1 = name then (name, value) :: rest else b :: insertInto name value rest

/-- The row with a value for a variable. -/
def insert (r : Row) (name : String) (value : Term) : Row := ⟨insertInto name value r.bindings⟩

/-- The value of a variable. -/
def get? (r : Row) (name : String) : Option Term :=
  (r.bindings.find? fun b => b.1 = name).map (·.2)

end Row

/-- Why a source of rows fails. -/
inductive SourceError where
  | io (cause : String)
  /-- A result set holds a term of an unknown kind, in a solution if the kind is that of a variable
  which the result set announces. -/
  | unknownKind (kind : String) (solution : Option Nat)
  /-- A result set is no such document. -/
  | notResults
  | backend (cause : String)
  deriving DecidableEq, Repr

def SourceError.message : SourceError → String
  | .io cause => "Row source I/O error: " ++ cause
  | .unknownKind kind none => "Malformed result set: unknown term type `" ++ kind ++ "`"
  | .unknownKind kind (some solution) =>
    "Malformed result set: Malformed result set: unknown term type `" ++ kind ++
      "`\n  Context: solution " ++ toString solution
  | .notResults => "Malformed result set"
  | .backend cause => "Query backend error: " ++ cause

/-- What a source answers when a row is asked for. -/
inductive Answer where
  | row (r : Row)
  | done
  | failed (error : SourceError)
  deriving DecidableEq, Repr

/-- What is asked of a source. -/
inductive Call where
  | pull
  | close
  deriving DecidableEq, Repr

/-- **A source of rows**: the answers to come and the calls that were made, the latest first. -/
structure RowSource where
  answers : List Answer
  calls : List Call := []
  deriving DecidableEq, Repr

namespace RowSource

def ofRows (rows : List Row) : RowSource := ⟨rows.map .row, []⟩

/-- The next answer. -/
def pull (s : RowSource) : Answer × RowSource :=
  match s.answers with
  | [] => (.done, ⟨[], .pull :: s.calls⟩)
  | a :: rest => (a, ⟨rest, .pull :: s.calls⟩)

/-- The source without further rows. -/
def close (s : RowSource) : RowSource := ⟨[], .close :: s.calls⟩

def pulls (s : RowSource) : Nat := s.calls.count .pull

def closes (s : RowSource) : Nat := s.calls.count .close

theorem answers_lt_of_pull_row {s t : RowSource} {r : Row} (h : s.pull = (.row r, t)) :
    t.answers.length < s.answers.length := by
  unfold pull at h
  split at h
  · simp at h
  · rename_i heq
    obtain ⟨-, rfl⟩ := Prod.mk.inj h
    simp [heq]

end RowSource

end SparqlViews
