import SparqlViews.Data.Part
import SparqlViews.Decimal.Layout
import SparqlViews.Text.Shown

/-! # Records with known fields

* `Fields.read`: the values of the fields of a record. Unknown keys do not matter, and no field may
  be set twice. A list stands for a record with its fields in order.
* `Misfit`: why a value is not of the kind that is asked for, with its wording.
-/

namespace SparqlViews

/-- **Why a value is not what is asked for.** -/
inductive Misfit where
  | wrongKind (found : Data) (expected : String)
  | missingField (name : String)
  | repeatedField (name : String)
  | tooFewItems
  | noVariant (kind : String)
  deriving Repr

/-- Numbers in messages are written in full, with a point. -/
def Misfit.realLayout : Decimal.Layout := ⟨none, true, .up⟩

/-- A double as messages show it. -/
def Misfit.realText (bits : UInt64) : String :=
  let x := Float.ofBits bits
  if x.isFinite then realLayout.text x
  else if x.isNaN then "NaN"
  else if x < 0 then "-inf"
  else "inf"

/-- What a value is, as messages show it. -/
def Misfit.found : Data → String
  | .atom .null => "unit value"
  | .atom (.bool b) => "boolean `" ++ (if b then "true" else "false") ++ "`"
  | .atom (.nat n) => "integer `" ++ toString n ++ "`"
  | .atom (.negative n) => "integer `" ++ toString (-n : Int) ++ "`"
  | .atom (.real bits) => "floating point `" ++ Misfit.realText bits ++ "`"
  | .atom (.text s) => "string " ++ Text.shown s
  | .list _ => "sequence"
  | .record _ => "map"

def Misfit.message : Misfit → String
  | .wrongKind d expected => "invalid type: " ++ Misfit.found d ++ ", expected " ++ expected
  | .missingField name => "missing field `" ++ name ++ "`"
  | .repeatedField name => "duplicate field `" ++ name ++ "`"
  | .tooFewItems => "invalid length"
  | .noVariant kind => "data did not match any variant of untagged enum " ++ kind

/-! ### Fields -/

/-- How the keys of a record say which field they are. -/
inductive KeyRule where
  /-- By name alone; a key that is no text is no key at all. -/
  | named
  /-- By name, or by the position of the field. -/
  | namedOrNumbered
  deriving DecidableEq

namespace Fields

/-- The field of a key, none if it is unknown. -/
def ofKey (fields : Fields) (rule : KeyRule) (key : Data) : Except Misfit (Option String) :=
  match key, rule with
  | .atom (.text name), _ => .ok (fields.named? name)
  | .atom (.nat i), .namedOrNumbered => .ok (fields[i]?.map (·.1))
  | key, _ => .error (.wrongKind key "field identifier")

/-- The fields of a record from one on, each checked as it comes. -/
def readRecord (fields : Fields) (rule : KeyRule) (check : String → Data → Except Misfit Unit)
    (found : List (String × Data)) : List (Data × Data) → Except Misfit (List (String × Data))
  | [] => .ok found
  | (key, d) :: rest => do
    match ← fields.ofKey rule key with
    | none => readRecord fields rule check found rest
    | some name =>
      if (found.lookup name).isSome then throw (.repeatedField name)
      check name d
      readRecord fields rule check (found ++ [(name, d)]) rest

/-- **The fields of a record**, each checked; a list has its items in the order of the fields. -/
def read (fields : Fields) (rule : KeyRule) (check : String → Data → Except Misfit Unit)
    (d : Data) : Except Misfit (List (String × Data)) :=
  match d with
  | .record entries => fields.readRecord rule check [] entries
  | .list items => do
    if fields.length < items.length then throw .tooFewItems
    let found := (fields.map (·.1)).zip items
    found.forM fun f => check f.1 f.2
    return found
  | .atom _ => .error (.wrongKind d "record")

end Fields

/-! ### Values of fields -/

/-- A text. -/
def readText (d : Data) : Except Misfit String :=
  match d.text? with
  | some s => .ok s
  | none => .error (.wrongKind d "a string")

def readBool (d : Data) : Except Misfit Bool :=
  match d.bool? with
  | some b => .ok b
  | none => .error (.wrongKind d "a boolean")

/-- A value, or null for none. -/
def readOption (read : Data → Except Misfit α) (d : Data) : Except Misfit (Option α) :=
  match d with
  | .atom .null => .ok none
  | d => (read d).map some

end SparqlViews
