import SparqlViews.Data.Basic
import SparqlViews.Query.Builder
import SparqlViews.Table

/-! # Documents of views and endpoints

A document defines namespace labels, named views, and endpoints, before any of it is checked.

* `Definition`: the definition of one entry of a view. The definitions nested in it are kept with
  the value they were read from, and so is what is none.
* `ViewDefinition`, `ViewRef`: a named view; what an endpoint says about its view.
* `Document`: all of it.
-/

namespace SparqlViews

/-- The settings of an entry as a document gives them. -/
structure EntrySpec where
  /-- The property, as a full IRI or with a label. -/
  prop : String
  name : Option String := none
  optional : Bool := false
  multi : Bool := false
  filterable : Bool := true
  range : Option String := none
  comment : Option String := none
  valueBase : Option String := none
  hidden : Bool := false
  suppressId : Bool := false
  deriving DecidableEq, Repr

mutual

/-- **The definition of an entry**: a property alone, or with settings. -/
inductive Definition where
  | short (prop : String)
  | full (spec : EntrySpec) (nested : Nested)

/-- What a definition says about the entries below its own. -/
inductive Nested where
  | absent
  /-- Something that is no list. -/
  | notList (raw : Data)
  /-- A list with an item that is no definition, the first such by its position from one. -/
  | badChild (raw : List Data) (position : Nat) (cause : String)
  | children (raw : List Data) (definitions : List Definition)

end

/-- **The definition of a named view.** -/
inductive ViewDefinition where
  | inline (definitions : List Definition)
  | reference (name : String)
  | projection (source : String) (paths : List Path)

/-- The view of an endpoint: a named one, or one of its own. -/
inductive ViewRef where
  | named (name : String)
  | inline (definitions : List Definition)

/-- The definition of an endpoint. -/
structure EndpointDefinition where
  name : String
  view : Option ViewRef := none
  /-- Further views, under the names that requests choose them by. -/
  views : Table ViewRef := ∅
  /-- The pattern that selects the candidate entities. -/
  base : Option String := none
  /-- A template for flat queries. -/
  template : Option String := none
  limit : Option Nat := none
  softLimit : Option Nat := none
  strategy : Option Strategy := none
  lookup : Option Lookup := none
  comment : Option String := none

/-- **A document.** -/
structure Document where
  name : Option String := none
  /-- Labels beside the standard ones. -/
  labels : Prefixes := ∅
  views : Table ViewDefinition := ∅
  endpoints : List EndpointDefinition := []

/-- The labels of a document, over the standard ones. -/
def Document.prefixes (d : Document) : Prefixes := Prefixes.standard.extend d.labels

/-! ### Names of settings -/

def Strategy.name : Strategy → String
  | .flat => "flat"
  | .nestedSelect => "nestedSelect"

def Strategy.ofName? (s : String) : Option Strategy :=
  if s = "flat" then some .flat
  else if s = "nestedSelect" ∨ s = "nested" then some .nestedSelect
  else none

def Lookup.name : Lookup → String
  | .breadthFirst => "breadthFirst"
  | .unambiguous => "unambiguous"
  | .qualified => "qualified"

def Lookup.ofName? (s : String) : Option Lookup :=
  if s = "breadthFirst" then some .breadthFirst
  else if s = "unambiguous" then some .unambiguous
  else if s = "qualified" then some .qualified
  else none

end SparqlViews
