import SparqlViews.Data.Basic
import SparqlViews.Decimal.Reader

/-! # Numbers of JSON

A number without a fraction and an exponent is an integer if it has 64 bits. Every other number is a
double, which is found quickly and not always exactly: the leading digits that make a number of 64
bits are taken, and one multiplication or division by a power of ten scales them.

* `Numeral`: a number by its digits, read by `numeral?`.
* `Numeral.atom?`: what it means; nothing if it is too large for a double.
-/

namespace SparqlViews.Json

/-! ### Digits -/

/-- A number by its parts. -/
structure Numeral where
  isNegative : Bool
  whole : List Char
  fraction : Option (List Char)
  /-- The exponent has a minus sign, and its digits. -/
  exponent : Option (Bool × List Char)
  deriving DecidableEq, Repr

/-- Digits, at least one. -/
def digits? (cs : List Char) : Option (List Char × List Char) :=
  match cs.takeWhile Char.isDigit with
  | [] => none
  | ds => some (ds, cs.dropWhile Char.isDigit)

/-- The fraction of a number, if it has one. -/
def fraction? : List Char → Option (Option (List Char) × List Char)
  | '.' :: rest => (digits? rest).map fun (ds, rest) => (some ds, rest)
  | cs => some (none, cs)

/-- The exponent of a number, if it has one. -/
def exponent? : List Char → Option (Option (Bool × List Char) × List Char)
  | c :: rest =>
    if c = 'e' ∨ c = 'E' then
      let (isNegative, rest) :=
        match rest with
        | '-' :: rest => (true, rest)
        | '+' :: rest => (false, rest)
        | _ => (false, rest)
      (digits? rest).map fun (ds, rest) => (some (isNegative, ds), rest)
    else some (none, c :: rest)
  | [] => some (none, [])

/-- A number; a leading zero stands alone before the fraction. -/
def numeral? (cs : List Char) : Option (Numeral × List Char) := do
  let (isNegative, cs) :=
    match cs with
    | '-' :: rest => (true, rest)
    | _ => (false, cs)
  let (whole, cs) ← digits? cs
  if whole.length > 1 && whole.head? == some '0' then none
  let (fraction, cs) ← fraction? cs
  let (exponent, cs) ← exponent? cs
  some ({ isNegative, whole, fraction, exponent }, cs)

/-! ### Scaling -/

/-- The bound of the numbers of 64 bits. -/
def wordBound : Nat := Nat.pow 2 64

/-- The leading digits that make a number of 64 bits, after those in `n`, and the number of digits
that are left over. -/
def leadingDigits (n : Nat) : List Char → Nat × Nat
  | [] => (n, 0)
  | c :: rest =>
    let next := n * 10 + (c.toNat - 48)
    if next < wordBound then leadingDigits next rest else (n, rest.length + 1)

/-- The greatest power of ten among the doubles. -/
def greatestPower : Nat := 308

/-- A power of ten as a double. -/
def powerOfTen (n : Nat) : Float := Decimal.nearestDouble (.pow 10 n) 1

/-- A double divided by a power of ten, in steps of the greatest power. Nothing is left of a number
of 64 bits after two such steps. -/
def scaleDown (x : Float) (n : Nat) : Nat → Float
  | 0 => x
  | steps + 1 =>
    if n ≤ greatestPower then x / powerOfTen n
    else scaleDown (x / powerOfTen greatestPower) (n - greatestPower) steps

/-- A number of 64 bits times a power of ten; nothing if that is infinite. -/
def scale? (n : Nat) (exponent : Int) : Option Float :=
  let x := Decimal.nearestDouble n 1
  if exponent < 0 then some (scaleDown x exponent.natAbs 3)
  else if n = 0 then some x
  else if exponent.natAbs ≤ greatestPower then
    (some (x * powerOfTen exponent.natAbs)).filter Float.isFinite
  else none

namespace Numeral

/-- The exponent as a number. -/
def exponentValue (n : Numeral) : Int :=
  match n.exponent with
  | none => 0
  | some (isNegative, ds) =>
    if isNegative then -(Decimal.ofDigits ds : Int) else Decimal.ofDigits ds

/-- The double without its sign. -/
def magnitude? (n : Numeral) : Option Float :=
  let (significand, dropped) := leadingDigits 0 n.whole
  let fraction := n.fraction.getD []
  let (significand, ignored) := leadingDigits significand fraction
  let taken : Int := (fraction.length : Int) - ignored
  scale? significand (dropped - taken + n.exponentValue)

/-- The double that is written. -/
def real? (n : Numeral) : Option Atom :=
  n.magnitude?.map fun x => .real (if n.isNegative then -x else x).toBits

/-- **What a number means.** A negative zero is a double. -/
def atom? (n : Numeral) : Option Atom :=
  let whole := Decimal.ofDigits n.whole
  if n.fraction.isSome || n.exponent.isSome then n.real?
  else if n.isNegative then
    if 0 < whole ∧ whole ≤ .pow 2 63 then some (.negative whole) else n.real?
  else if whole < wordBound then some (.nat whole)
  else n.real?

end Numeral

end SparqlViews.Json
