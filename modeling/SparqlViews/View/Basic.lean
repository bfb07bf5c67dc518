import SparqlViews.Naming
import SparqlViews.View.Error

/-! # Views

A view describes the shape of a result: an ordered list of entries, each with a short name, the IRI
of a property, and settings. An entry may have a view of its own, which describes the resource that
the property leads to.

* `Property`, `Entry`, `View`: the settings of an entry, an entry, and the view itself. A view is
  its first entry and the view of the others, so a recursion on it is a recursion on both.
* `View.push`: a view with an entry at its end; names are legal and distinct.
* `View.WellFormed`: the same at every depth, which every view built by `push` satisfies.
-/

namespace SparqlViews

/-- The settings of one entry of a view. -/
structure Property where
  /-- The short name, which is a key of the results and a part of variables. -/
  name : String
  iri : String
  optional : Bool := false
  multi : Bool := false
  filterable : Bool := true
  /-- The entry is queried but stands in no result. -/
  hidden : Bool := false
  /-- A datatype or a class. -/
  range : Option String := none
  comment : Option String := none
  /-- What a bare request value is put after to make it an IRI. -/
  valueBase : Option String := none
  /-- The identifiers of the nested resources stand in no result. -/
  suppressId : Bool := false
  deriving DecidableEq, Inhabited, Repr

/-- The settings of an entry with a legal name. -/
def Property.make (name iri : String) : Except ViewError Property :=
  if Naming.isShortName name then .ok { name, iri } else .error (.malformed (.illegalName name))

/-- **A view**: no entries, or a first entry, with or without a view of its own, and the others. -/
inductive View where
  | empty
  | leaf (p : Property) (rest : View)
  | nested (p : Property) (sub rest : View)
  deriving DecidableEq, Inhabited, Repr

/-- An entry: its settings, and its own view if it has one. -/
structure Entry where
  property : Property
  sub : Option View := none
  deriving DecidableEq, Inhabited, Repr

namespace Entry

def name (e : Entry) : String := e.property.name

def isNested (e : Entry) : Bool := e.sub.isSome

end Entry

namespace View

/-- The entries, in order. -/
def entries : View → List Entry
  | empty => []
  | leaf p rest => ⟨p, none⟩ :: rest.entries
  | nested p sub rest => ⟨p, some sub⟩ :: rest.entries

/-- The short names of the entries. -/
def names : View → List String
  | empty => []
  | leaf p rest | nested p _ rest => p.name :: rest.names

/-- A view with an entry in front. -/
def cons (e : Entry) (v : View) : View :=
  match e.sub with
  | none => leaf e.property v
  | some sub => nested e.property sub v

/-- A view with an entry at its end. -/
def concat : View → Entry → View
  | empty, e => cons e empty
  | leaf p rest, e => leaf p (rest.concat e)
  | nested p sub rest, e => nested p sub (rest.concat e)

/-- The first entry with a name. -/
def get? : View → String → Option Entry
  | empty, _ => none
  | leaf p rest, name => if p.name = name then some ⟨p, none⟩ else rest.get? name
  | nested p sub rest, name => if p.name = name then some ⟨p, some sub⟩ else rest.get? name

/-- **A view with an entry at its end**, whose name must be legal and new. -/
def push (v : View) (e : Entry) : Except ViewError View :=
  if !Naming.isShortName e.name then .error (.malformed (.illegalName e.name))
  else if (v.get? e.name).isSome then .error (.malformed (.duplicateName e.name))
  else .ok (v.concat e)

/-- A view of entries pushed in turn. -/
def ofEntries (entries : List Entry) : Except ViewError View := entries.foldlM push empty

/-- **Legal and distinct names** at every depth. -/
def WellFormed : View → Prop
  | empty => True
  | leaf p rest => Naming.isShortName p.name = true ∧ p.name ∉ rest.names ∧ rest.WellFormed
  | nested p sub rest =>
    Naming.isShortName p.name = true ∧ p.name ∉ rest.names ∧ sub.WellFormed ∧ rest.WellFormed

/-- A page of entities cannot be cut out of the rows of this view: some entry has many values, or
an optional entry is nested, so that the rows of an entity cannot be counted. -/
def needsNestedSelect : View → Bool
  | empty => false
  | leaf p rest => p.multi || rest.needsNestedSelect
  | nested p sub rest =>
    p.multi || p.optional || sub.needsNestedSelect || rest.needsNestedSelect

end View

end SparqlViews
