import SparqlViews.Decimal.Rounding

/-! # Structured data

The values that documents and result sets are written in: scalars, lists and records. A record
keeps its fields in the order they were written, repeated keys included; what a repetition means
is decided where a record is read. A key may be any value.

* `Atom`: a scalar value; doubles are held as their bits, so that values can be compared.
* `Data`: the values themselves, with the few constructors that output is built from.
* `Data.same`: equality as numbers and without the order of fields, by which keys are told apart.
-/

namespace SparqlViews

/-- A scalar value. -/
inductive Atom where
  | null
  | bool (b : Bool)
  | nat (n : Nat)
  /-- An integer with a minus sign, which may stand before a zero too. -/
  | negative (n : Nat)
  | real (bits : UInt64)
  | text (s : String)
  deriving DecidableEq, Repr

/-- The integer that a scalar is; a minus sign before a zero does not matter. -/
def Atom.int? : Atom → Option Int
  | .nat n => some n
  | .negative n => some (-n)
  | _ => none

/-- **A value**: a scalar, a list, or a record of fields in written order. -/
inductive Data where
  | atom (a : Atom)
  | list (items : List Data)
  | record (fields : List (Data × Data))
  deriving Repr

namespace Data

instance : Inhabited Data := ⟨atom .null⟩

def null : Data := atom .null

def bool (b : Bool) : Data := atom (.bool b)

def nat (n : Nat) : Data := atom (.nat n)

def int (n : Int) : Data := if n < 0 then atom (.negative n.natAbs) else nat n.natAbs

def text (s : String) : Data := atom (.text s)

def texts (items : List String) : Data := .list (items.map text)

/-- A record whose keys are texts. -/
def object (fields : List (String × Data)) : Data :=
  .record (fields.map fun (key, value) => (text key, value))

/-- A value that may be absent, written as null then. -/
def option (write : α → Data) : Option α → Data
  | none => null
  | some a => write a

/-! ### Reading -/

def text? : Data → Option String
  | .atom (.text s) => some s
  | _ => none

def bool? : Data → Option Bool
  | .atom (.bool b) => some b
  | _ => none

def int? : Data → Option Int
  | .atom a => a.int?
  | _ => none

/-- An unsigned integer of 64 bits. -/
def natural64? : Data → Option Nat
  | .atom (.nat n) => if n < .pow 2 64 then some n else none
  | _ => none

def float? : Data → Option Float
  | .atom (.real bits) => some (Float.ofBits bits)
  | d => d.int?.map Decimal.doubleOfInt

def list? : Data → Option (List Data)
  | .list items => some items
  | _ => none

def record? : Data → Option (List (Data × Data))
  | .record fields => some fields
  | _ => none

/-- The field of a record under a key; a repeated key counts by its last occurrence. -/
def field? (key : String) (d : Data) : Option Data :=
  d.record?.bind fun fields =>
    (fields.reverse.find? fun f => f.1.text? = some key).map (·.2)

end Data

/-! ### Equality of keys -/

/-- The scalars are equal; doubles are so as numbers, and not-a-number equals itself. -/
def Atom.same : Atom → Atom → Bool
  | .real a, .real b =>
    let x := Float.ofBits a
    let y := Float.ofBits b
    x == y || (x.isNaN && y.isNaN)
  | a, b =>
    match a.int?, b.int? with
    | some m, some n => m = n
    | _, _ => a = b

namespace Data

mutual

/-- **The values are equal**, whatever the order of the fields of their records. -/
def same : Data → Data → Bool
  | .atom a, .atom b => a.same b
  | .list xs, .list ys => sameItems xs ys
  | .record xs, .record ys => xs.length = ys.length && hasFields ys xs
  | _, _ => false

def sameItems : List Data → List Data → Bool
  | [], [] => true
  | x :: xs, y :: ys => x.same y && sameItems xs ys
  | _, _ => false

/-- Each field stands among some others. -/
def hasFields (others : List (Data × Data)) : List (Data × Data) → Bool
  | [] => true
  | (key, d) :: rest =>
    (others.any fun f => key.same f.1 && d.same f.2) && hasFields others rest

end

/-- No two of the keys are equal. -/
def distinctKeys : List Data → Bool
  | [] => true
  | key :: rest => !(rest.any fun other => key.same other) && distinctKeys rest

mutual

/-- No record inside of the value has a key twice. -/
def hasDistinctKeys : Data → Bool
  | .atom _ => true
  | .list items => itemsHaveDistinctKeys items
  | .record fields =>
    distinctKeys (fields.map (·.1)) && fieldsHaveDistinctKeys fields

def itemsHaveDistinctKeys : List Data → Bool
  | [] => true
  | d :: rest => d.hasDistinctKeys && itemsHaveDistinctKeys rest

def fieldsHaveDistinctKeys : List (Data × Data) → Bool
  | [] => true
  | (key, d) :: rest =>
    key.hasDistinctKeys && d.hasDistinctKeys && fieldsHaveDistinctKeys rest

end

end Data

end SparqlViews
