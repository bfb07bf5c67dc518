import SparqlViews.Data.Written

/-! # Reading what is written

A part of a source is read by asking for something: a text, a number, the items of a list, the
fields of a record, or whatever it is. The answer is nothing if that is not there.

* `Reading`: a reading counts the references that it follows, so that a short text cannot stand for
  a huge value.
* `Part.text`, `Part.items`, `Part.entries`, `Part.slots`, …: what may be asked of a part.
* `Part.data`: the part as a value, with all that stands inside of it.
-/

namespace SparqlViews

/-- A reading that may fail, with the number of references followed so far. -/
abbrev Reading (α : Type) := StateT Nat Option α

/-- **The fields of a kind of record**, each with its name and its other names. -/
abbrev Fields := List (String × List String)

/-- The field of a name. -/
def Fields.named? (fields : Fields) (name : String) : Option String :=
  (fields.find? fun f => f.1 = name || f.2.contains name).map (·.1)

/-- **A part of a source**, with the number of levels that may be nested in it. -/
structure Part where
  source : Source
  depth : Nat
  written : Written

namespace Part

/-- The same part, where a reference has been followed. -/
def resolved (p : Part) : Reading Part := do
  match p.written with
  | .reference target =>
    let followed ← get
    if p.source.patience ≤ followed then failure
    set (followed + 1)
    return { p with written := ← (p.source.targets.lookup target : Option Written) }
  | _ => return p

/-- The scalar that the part is. -/
def scalar (p : Part) : Reading Scalar := do
  match (← p.resolved).written with
  | .scalar s => return s
  | _ => failure

def text (p : Part) : Reading String := do (← p.scalar).text

def natural (p : Part) : Reading Nat := do (← p.scalar).natural

/-- What may be missing. -/
def option (read : Part → Reading α) (p : Part) : Reading (Option α) := do
  let p ← p.resolved
  match p.written with
  | .scalar s => if ← (s.missing : Option Bool) then return none else return some (← read p)
  | _ => return some (← read p)

/-- A part that is nested in another one. -/
def nested (p : Part) (depth : Nat) (w : Written) : Part := { p with depth, written := w }

/-- **The items of a list.** -/
def items (p : Part) : Reading (List Part) := do
  let p ← p.resolved
  match p.written, p.depth with
  | .list _ items, depth + 1 => return items.map (p.nested depth)
  | .scalar s, _ => if s.isEmpty then return [] else failure
  | _, _ => failure

/-- The items of a list, each read in the same way. -/
def listOf (read : Part → Reading α) (p : Part) : Reading (List α) := do (← p.items).mapM read

/-- **The entries of a record**, with their keys. -/
def entries (p : Part) : Reading (List (Part × Part)) := do
  let p ← p.resolved
  match p.written, p.depth with
  | .record _ fields, depth + 1 =>
    return fields.map fun (key, w) => (p.nested depth key, p.nested depth w)
  | .scalar s, _ => if s.isEmpty then return [] else failure
  | _, _ => failure

/-- The entries of a record with free names. -/
def named (read : Part → Reading α) (p : Part) : Reading (List (String × α)) := do
  (← p.entries).mapM fun (key, p) => return (← key.text, ← read p)

/-- A part that is a list stands for a record. -/
def isPositional (p : Part) : Bool :=
  match p.written with
  | .list _ _ => p.source.format.listsAsRecords
  | _ => false

/-- The known fields among entries, each at most once. -/
def slotsFrom (fields : Fields) (found : List (String × Part)) :
    List (Part × Part) → Reading (List (String × Part))
  | [] => return found
  | (key, p) :: rest => do
    match fields.named? (← key.text) with
    | none => slotsFrom fields found rest
    | some name =>
      if (found.lookup name).isSome then failure
      slotsFrom fields (found ++ [(name, p)]) rest

/-- **The fields of a kind of record.** Unknown keys do not matter, and no field may be set twice.
A list has its items in the order of the fields, of which the last ones may be left out unless all
are asked for. -/
def slots (fields : Fields) (all : Bool) (p : Part) : Reading (List (String × Part)) := do
  let p ← p.resolved
  if p.isPositional then
    let items ← p.items
    if fields.length < items.length || (all && items.length < fields.length) then failure
    return (fields.map (·.1)).zip items
  else slotsFrom fields [] (← p.entries)

/-- The value of a field that must be there. -/
def slot (slots : List (String × Part)) (name : String) (read : Part → Reading α) : Reading α := do
  read (← (slots.lookup name : Option Part))

/-- The value of a field that may be left out, for another value then. -/
def slotOr (slots : List (String × Part)) (name : String) (read : Part → Reading α) (default : α) :
    Reading α :=
  match slots.lookup name with
  | none => return default
  | some p => read p

/-- The value of a field that may be left out or missing. -/
def optionalSlot (slots : List (String × Part)) (name : String) (read : Part → Reading α) :
    Reading (Option α) :=
  slotOr slots name (Part.option read) none

/-- **One of several names.** -/
def choice (ofName? : String → Option α) (p : Part) : Reading α := do
  let p ← p.resolved
  match p.written, p.depth with
  | .scalar s, _ => do ofName? (← (s.choice : Option String))
  | .record _ [(.scalar key, .scalar s)], _ + 1 =>
    if p.source.format.recordsAsChoices && s.missing == some true then do
      ofName? (← (key.choice : Option String))
    else failure
  | _, _ => failure

end Part

/-! ### Whole values -/

/-- What is written at a depth, as a value. -/
def Source.data (s : Source) (depth : Nat) (w : Written) : Reading Data := do
  match (← Part.resolved ⟨s, depth, w⟩).written with
  | .scalar scalar => return .atom (← (scalar.atom : Option Atom))
  | .list isMarked items =>
    if isMarked then failure
    match depth with
    | 0 => failure
    | depth + 1 => return .list (← items.mapM (s.data depth))
  | .record isMarked fields =>
    if isMarked then failure
    match depth with
    | 0 => failure
    | depth + 1 =>
      return .record (← fields.mapM fun (key, w) =>
        return (← s.data depth key, ← s.data depth w))
  | .reference _ => failure

/-- **The part as a value.** -/
def Part.data (p : Part) : Reading Data := p.source.data p.depth p.written

/-- **What a source is read as.** -/
def Source.read? (s : Source) (read : Part → Reading α) : Option α :=
  (read ⟨s, s.format.depth, s.root⟩).run' 0

end SparqlViews
