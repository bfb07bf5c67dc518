import SparqlViews.Data.Written
import SparqlViews.Decimal.Reader
import SparqlViews.Yaml.Tag

/-! # What scalars of YAML mean

An unquoted scalar means null, a truth value, a number or a text, by how it is written; a quoted one
is a text. A tag may settle the kind. Where a text, a number or a name is asked for, a scalar is
that whatever else it might mean.

* `plainAtom?`: what an unquoted scalar means.
* `scalar`: a written scalar, by all that may be asked of it.
-/

namespace SparqlViews.Yaml

/-! ### Unquoted scalars -/

/-- A word that means null. -/
def isNull (s : String) : Bool := ["~", "null", "Null", "NULL"].contains s

def bool? (s : String) : Option Bool :=
  if ["true", "True", "TRUE"].contains s then some true
  else if ["false", "False", "FALSE"].contains s then some false
  else none

/-- Zeros in front of further digits: no number, but a text. -/
def hasLeadingZero (cs : List Char) : Bool :=
  let digits :=
    match cs with
    | '+' :: rest | '-' :: rest => rest
    | _ => cs
  match digits with
  | '0' :: d :: rest => (d :: rest).all Char.isDigit
  | _ => false

/-- The bases that a letter after a zero stands for. -/
def baseOf? : Char → Option Nat
  | 'x' => some 16
  | 'o' => some 8
  | 'b' => some 2
  | _ => none

/-- The text begins with a sign. -/
def isSigned (cs : List Char) : Bool :=
  match cs with
  | '+' :: _ | '-' :: _ => true
  | _ => false

/-- An integer without a minus sign, of 128 bits. -/
def natural? (cs : List Char) : Option Nat :=
  let unsigned :=
    match cs with
    | '+' :: rest => rest
    | _ => cs
  let inBase := match unsigned with
    | '0' :: letter :: rest => do
      let base ← baseOf? letter
      if isSigned rest then none else (Decimal.natural base (.pow 2 128) rest).toOption
    | _ => none
  if inBase.isSome then inBase
  else if isSigned unsigned || hasLeadingZero cs then none
  else (Decimal.natural 10 (.pow 2 128) unsigned).toOption

/-- The magnitude of an integer with a minus sign, of 128 bits. -/
def negative? (cs : List Char) : Option Nat :=
  let inBase := match cs with
    | '-' :: '0' :: letter :: rest => do Decimal.signed? (← baseOf? letter) 127 ('-' :: rest)
    | _ => none
  let n? :=
    if inBase.isSome then inBase
    else if hasLeadingZero cs then none
    else Decimal.signed? 10 127 cs
  n?.map Int.natAbs

/-- An integer as a value; nothing in it if the integer has more than 64 bits. -/
def int? (s : String) : Option (Option Atom) :=
  match natural? s.toList, negative? s.toList with
  | some n, _ => some (if n < .pow 2 64 then some (.nat n) else none)
  | none, some n => some (if n ≤ .pow 2 63 then some (.negative n) else none)
  | none, none => none

/-- A double; infinities and not-a-number are written with a leading point. -/
def float? (s : String) : Option Float :=
  if [".inf", ".Inf", ".INF", "+.inf", "+.Inf", "+.INF"].contains s then some (1.0 / 0.0)
  else if ["-.inf", "-.Inf", "-.INF"].contains s then some (-1.0 / 0.0)
  else if [".nan", ".NaN", ".NAN"].contains s then some (0.0 / 0.0)
  else (Decimal.float? s).filter Float.isFinite

/-- **What an unquoted scalar means**; nothing if it is an integer of more than 64 bits. -/
def plainAtom? (s : String) : Option Atom :=
  if s.isEmpty || isNull s then some .null
  else
    match bool? s, int? s with
    | some b, _ => some (.bool b)
    | none, some n => n
    | none, none =>
      if hasLeadingZero s.toList then some (.text s)
      else some ((float? s).elim (.text s) fun x => .real x.toBits)

/-! ### Scalars with a style and a tag -/

/-- What a scalar means where any value may stand. -/
def atom? (style : Style) (s : String) : Option Tag → Option Atom
  | some .bool => (bool? s).map .bool
  | some .int => (int? s).join
  | some .real => (float? s).map fun x => .real x.toBits
  | some .null => if isNull s then some .null else none
  | some (.own _) => none
  | some .other => some (.text s)
  | some .unreadable | none => if style = .plain then plainAtom? s else some (.text s)

/-- A scalar says that a value is missing; nothing if its tag says so, but not its text. -/
def missing? (style : Style) (s : String) : Option Tag → Option Bool
  | some .null => if style ≠ .plain then some false else if isNull s then some true else none
  | some _ => some false
  | none => some (style = .plain && (s.isEmpty || isNull s))

/-- The name that a scalar is, or that its tag is if nothing else is written. -/
def choice? (style : Style) (s : String) : Option Tag → Option String
  | some (.own name) => if style = .plain && (s.isEmpty || isNull s) then some name else none
  | _ => some s

/-- A scalar as an unsigned integer of 64 bits; even a zero has no minus sign. -/
def natural64? (style : Style) (s : String) (tag : Option Tag) : Option Nat :=
  if style = .plain || (style = .literal && tag = some .int) then
    (natural? s.toList).filter (· < Nat.pow 2 64)
  else none

/-- **A written scalar.** -/
def scalar (style : Style) (s : String) (tag : Option Tag) : Scalar := {
  atom := atom? style s tag
  text := some s
  natural := natural64? style s tag
  choice := choice? style s tag
  missing := missing? style s tag
  isEmpty := style = .plain && s.isEmpty }

/-- What a text without any value writes. -/
def voidScalar : Scalar := { atom := some .null, missing := some true, isEmpty := true }

end SparqlViews.Yaml
