import SparqlViews.Term.Value

/-! # Result trees

A result tree is an entity of a result: an identifier, and keys with sets of values. A value is a
term, or the tree of a nested resource.

* `addTerm`: a term under a key, once; `withChild`: a change to the tree under a key with a given
  identifier, which is made if it is not there. Trees without an identifier are one.
* `toData`: the tree as a record, with its identifier first.
-/

namespace SparqlViews

/-- A value under a key: a term, or a tree by its parts. -/
inductive ResultValue where
  | term (t : Term)
  | tree (id : Option Term) (suppressId : Bool) (entries : List (String × List ResultValue))
  deriving Repr

/-- **A tree**: an identifier, which may be hidden, and the values of its keys in order of their
first use. -/
structure ResultTree where
  id : Option Term := none
  suppressId : Bool := false
  entries : List (String × List ResultValue) := []
  deriving Repr

def ResultValue.ofTree (t : ResultTree) : ResultValue := .tree t.id t.suppressId t.entries

def ResultValue.asTerm? : ResultValue → Option Term
  | .term t => some t
  | _ => none

def ResultValue.asTree? : ResultValue → Option ResultTree
  | .tree id suppressId entries => some ⟨id, suppressId, entries⟩
  | _ => none

namespace ResultTree

/-- The identifier as results show it. -/
def shownId (t : ResultTree) : Option Term := if t.suppressId then none else t.id

def keys (t : ResultTree) : List String := t.entries.map (·.1)

/-- The values under a key. -/
def get? (t : ResultTree) (key : String) : Option (List ResultValue) :=
  (t.entries.find? fun e => e.1 = key).map (·.2)

/-- The terms under a key. -/
def terms (t : ResultTree) (key : String) : List Term :=
  ((t.get? key).getD []).filterMap ResultValue.asTerm?

/-- The trees under a key. -/
def children (t : ResultTree) (key : String) : List ResultTree :=
  ((t.get? key).getD []).filterMap ResultValue.asTree?

/-- The tree under a key with an identifier. -/
def child? (t : ResultTree) (key : String) (id : Option Term) : Option ResultTree :=
  (t.children key).find? fun c => c.id = id

/-! ### Changes -/

/-- The entries with the values under a key changed; a new key comes last, from no values. -/
def alterInto (key : String) (f : List ResultValue → List ResultValue) :
    List (String × List ResultValue) → List (String × List ResultValue)
  | [] => [(key, f [])]
  | e :: rest => if e.1 = key then (e.1, f e.2) :: rest else e :: alterInto key f rest

def alter (t : ResultTree) (key : String) (f : List ResultValue → List ResultValue) : ResultTree :=
  { t with entries := alterInto key f t.entries }

/-- The term stands under the key. -/
def hasTerm (t : ResultTree) (key : String) (term : Term) : Bool := (t.terms key).contains term

/-- **The tree with a term under a key.** -/
def addTerm (t : ResultTree) (key : String) (term : Term) : ResultTree :=
  t.alter key fun values =>
    if (values.filterMap ResultValue.asTerm?).contains term then values
    else values ++ [.term term]

/-- The values with the tree of an identifier changed, or made and changed. -/
def alterChild (id : Option Term) (suppressId : Bool) (f : ResultTree → ResultTree) :
    List ResultValue → List ResultValue
  | [] => [.ofTree (f ⟨id, suppressId, []⟩)]
  | .term t :: rest => .term t :: alterChild id suppressId f rest
  | .tree otherId suppressed entries :: rest =>
    if otherId = id then .ofTree (f ⟨otherId, suppressed, entries⟩) :: rest
    else .tree otherId suppressed entries :: alterChild id suppressId f rest

/-- **The tree with a nested tree changed.** -/
def withChild (t : ResultTree) (key : String) (id : Option Term) (suppressId : Bool)
    (f : ResultTree → ResultTree) : ResultTree :=
  t.alter key (alterChild id suppressId f)

/-! ### As structured data -/

/-- A value that stands alone, or a list of all others. -/
def unwrap : List Data → Data
  | [d] => d
  | ds => .list ds

/-- A record with the identifier first. -/
def recordOf (id : Option Term) (fields : List (String × Data)) : Data :=
  .object ((id.toList.map fun t => ("@id", t.toData)) ++ fields)

mutual

def valueData : ResultValue → Data
  | .term t => t.toData
  | .tree id suppressId entries =>
    recordOf (if suppressId then none else id) (entriesData entries)

def valuesData : List ResultValue → List Data
  | [] => []
  | v :: rest => valueData v :: valuesData rest

def entriesData : List (String × List ResultValue) → List (String × Data)
  | [] => []
  | (key, values) :: rest => (key, unwrap (valuesData values)) :: entriesData rest

end

/-- **The tree as a record**: an only value under a key stands alone, all others in a list. -/
def toData (t : ResultTree) : Data := recordOf t.shownId (entriesData t.entries)

end ResultTree

end SparqlViews
