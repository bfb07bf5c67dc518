import SparqlViews.Document.Basic
import SparqlViews.Document.Record

/-! # Documents read from sources

* `Definition.ofChild`: a definition inside a nested list; a misfit is told in detail, since it is
  reported when the view is built.
* `Definition.ofItem`: a definition in the list of a view.
* `ViewDefinition.ofData`, `ViewRef.ofData`: views, of which every value is of its own kind.
* `Document.read`: a document. Outside of views a scalar is what is asked for.
-/

namespace SparqlViews

/-! ### Definitions -/

namespace EntrySpec

/-- The fields of a definition. -/
def fields : Fields :=
  [("prop", []), ("name", []), ("optional", []), ("multi", []), ("filterable", []),
    ("range", ["type"]), ("nested", []), ("comment", []), ("valueBase", []), ("hide", []),
    ("suppressID", [])]

/-- The value of a field is of the kind that the field asks for. -/
def check (name : String) (d : Data) : Except Misfit Unit :=
  if name = "prop" then (readText d).map fun _ => ()
  else if name = "nested" then .ok ()
  else if name ∈ ["name", "range", "comment", "valueBase"] then
    (readOption readText d).map fun _ => ()
  else (readBool d).map fun _ => ()

/-- The settings of checked fields. -/
def ofSlots (slots : List (String × Data)) : Except Misfit EntrySpec :=
  let textSlot := fun key => (slots.lookup key).bind Data.text?
  let flag := fun key default => ((slots.lookup key).bind Data.bool?).getD default
  match textSlot "prop" with
  | none => .error (.missingField "prop")
  | some prop => .ok {
      prop
      name := textSlot "name"
      optional := flag "optional" false
      multi := flag "multi" false
      filterable := flag "filterable" true
      range := textSlot "range"
      comment := textSlot "comment"
      valueBase := textSlot "valueBase"
      hidden := flag "hide" false
      suppressId := flag "suppressID" false }

/-- The settings of a record or a list. -/
def read (rule : KeyRule) (d : Data) : Except Misfit EntrySpec := do
  ofSlots (← fields.read rule check d)

/-- The position of the nested list among the fields. -/
def nestedPosition : Nat := 6

/-- The key of the nested list. -/
def isNestedKey (key : Data) : Bool :=
  key.text? = some "nested" || key.int? = some nestedPosition

end EntrySpec

/-- The kind that an item of a list of definitions has. -/
def definitionKind : String := "PropertyDefinition"

mutual

/-- **A definition inside a nested list.** -/
def Definition.ofChild : Data → Except Misfit Definition
  | .atom (.text s) => .ok (.short s)
  | .record entries =>
    match EntrySpec.read .named (.record entries) with
    | .ok spec => .ok (.full spec (Nested.ofEntries entries))
    | .error e => .error e
  | .list items =>
    match EntrySpec.read .named (.list items) with
    | .ok spec => .ok (.full spec (Nested.ofItems EntrySpec.nestedPosition items))
    | .error _ => .error (.noVariant definitionKind)
  | _ => .error (.noVariant definitionKind)

/-- What a value says about nested entries. -/
def Nested.ofData : Data → Nested
  | .atom .null => .absent
  | .list items =>
    match Nested.readChildren 1 items with
    | .ok definitions => .children items definitions
    | .error (position, cause) => .badChild items position cause
  | d => .notList d

/-- The nested entries of a record. -/
def Nested.ofEntries : List (Data × Data) → Nested
  | [] => .absent
  | (key, d) :: rest => if EntrySpec.isNestedKey key then Nested.ofData d else Nested.ofEntries rest

/-- The nested entries of a list that stands for a record. -/
def Nested.ofItems : Nat → List Data → Nested
  | _, [] => .absent
  | 0, d :: _ => Nested.ofData d
  | n + 1, _ :: rest => Nested.ofItems n rest

/-- The definitions of a nested list, counted from a position. -/
def Nested.readChildren (position : Nat) : List Data → Except (Nat × String) (List Definition)
  | [] => .ok []
  | d :: rest =>
    match Definition.ofChild d with
    | .error e => .error (position, e.message)
    | .ok definition => (Nested.readChildren (position + 1) rest).map (definition :: ·)

end

/-- A definition in the list of a view. -/
def Definition.ofItem : Data → Except Misfit Definition
  | .atom (.text s) => .ok (.short s)
  | .record entries =>
    (EntrySpec.read .namedOrNumbered (.record entries)).map fun spec =>
      .full spec (Nested.ofEntries entries)
  | .list items =>
    (EntrySpec.read .named (.list items)).map fun spec =>
      .full spec (Nested.ofItems EntrySpec.nestedPosition items)
  | _ => .error (.noVariant definitionKind)

/-- What a definition keeps of its nested entries can be kept: no record there has a key twice. -/
def Definition.isKeepable : Definition → Bool
  | .short _ => true
  | .full _ .absent => true
  | .full _ (.notList raw) => raw.hasDistinctKeys
  | .full _ (.badChild raw _ _) | .full _ (.children raw _) => Data.itemsHaveDistinctKeys raw

/-! ### Views -/

/-- The definitions of a view. -/
def readDefinitions? (d : Data) : Option (List Definition) := do
  let definitions ← (← d.list?).mapM fun item => (Definition.ofItem item).toOption
  if definitions.all Definition.isKeepable then some definitions else none

/-- The fields of a view that is a record. -/
def readViewFields? (fields : Fields) (check : String → Data → Except Misfit Unit) (d : Data) :
    Option (List (String × Data)) := do
  (fields.read .namedOrNumbered check (.record (← d.record?))).toOption

/-- A reference to a view. -/
def readReference? (d : Data) : Option String := do
  let slots ← readViewFields? [("ref", [])] (fun _ d => discard (readText d)) d
  (← slots.lookup "ref").text?

/-- The paths of a list, in dotted form. -/
def readPaths (d : Data) : Except Misfit (List Path) :=
  match d with
  | .list items => items.mapM fun item => (readText item).map Path.ofDotted
  | d => .error (.wrongKind d "a sequence")

/-- A projection of a view. -/
def readProjection? (d : Data) : Option (String × List Path) := do
  let check := fun name d =>
    if name = "projection" then discard (readText d) else discard (readPaths d)
  let slots ← readViewFields? [("projection", []), ("paths", [])] check d
  some (← (← slots.lookup "projection").text?, ← (readPaths (← slots.lookup "paths")).toOption)

/-- **The definition of a view**: a list of entries, else a reference, else a projection. -/
def ViewDefinition.ofData (d : Data) : Option ViewDefinition :=
  match readDefinitions? d with
  | some definitions => some (.inline definitions)
  | none =>
    match readReference? d with
    | some name => some (.reference name)
    | none => (readProjection? d).map fun (source, paths) => .projection source paths

/-- What an endpoint says about its view: a name, or a list of entries. -/
def ViewRef.ofData (d : Data) : Option ViewRef :=
  match d.text? with
  | some name => some (.named name)
  | none => (readDefinitions? d).map .inline

def ViewDefinition.read (p : Part) : Reading ViewDefinition := do ofData (← p.data)

def ViewRef.read (p : Part) : Reading ViewRef := do ofData (← p.data)

/-! ### Endpoints and documents -/

namespace EndpointDefinition

def fields : Fields :=
  [("name", []), ("view", []), ("views", []), ("baseQuery", []), ("query", []), ("limit", []),
    ("softLimit", []), ("strategy", []), ("pathLookup", []), ("comment", [])]

/-- **The definition of an endpoint.** -/
def read (p : Part) : Reading EndpointDefinition := do
  let slots ← p.slots fields false
  return {
    name := ← Part.slot slots "name" Part.text
    view := ← Part.optionalSlot slots "view" ViewRef.read
    views := Table.ofList (← Part.slotOr slots "views" (Part.named ViewRef.read) [])
    base := ← Part.optionalSlot slots "baseQuery" Part.text
    template := ← Part.optionalSlot slots "query" Part.text
    limit := ← Part.optionalSlot slots "limit" Part.natural
    softLimit := ← Part.optionalSlot slots "softLimit" Part.natural
    strategy := ← Part.optionalSlot slots "strategy" (Part.choice Strategy.ofName?)
    lookup := ← Part.optionalSlot slots "pathLookup" (Part.choice Lookup.ofName?)
    comment := ← Part.optionalSlot slots "comment" Part.text }

end EndpointDefinition

namespace Document

def fields : Fields := [("name", []), ("prefixes", []), ("views", []), ("endpoints", [])]

/-- **A document.** -/
def read (p : Part) : Reading Document := do
  let slots ← p.slots fields false
  return {
    name := ← Part.optionalSlot slots "name" Part.text
    labels := Table.ofList (← Part.slotOr slots "prefixes" (Part.named Part.text) [])
    views := Table.ofList (← Part.slotOr slots "views" (Part.named ViewDefinition.read) [])
    endpoints := ← Part.slotOr slots "endpoints" (Part.listOf EndpointDefinition.read) [] }

end Document

end SparqlViews
