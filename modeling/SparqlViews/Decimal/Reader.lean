import SparqlViews.Decimal.Rounding

/-! # Numbers read from text

* `natural`: an unsigned integer below a bound, with the reason why a text is none.
* `integer?`: a signed integer of 64 bits.
* `float?`: a decimal with optional fraction and exponent, an infinity or not-a-number, rounded to
  the nearest double. There is no white space around any of them and no mark between the digits.
-/

namespace SparqlViews.Decimal

/-- Why a text is no unsigned integer. -/
inductive NaturalError where
  | empty
  | invalidDigit
  | tooLarge
  deriving DecidableEq, Repr

def NaturalError.message : NaturalError → String
  | .empty => "cannot parse integer from empty string"
  | .invalidDigit => "invalid digit found in string"
  | .tooLarge => "number too large to fit in target type"

/-- The digit that a character stands for in a base up to sixteen. -/
def digit? (base : Nat) (c : Char) : Option Nat :=
  let value :=
    if c.isDigit then c.toNat - 48
    else if 'a' ≤ c ∧ c ≤ 'f' then c.toNat - 87
    else if 'A' ≤ c ∧ c ≤ 'F' then c.toNat - 55
    else base
  if value < base then some value else none

/-- The digits read after `acc`; the first digit at which something is wrong decides the error. -/
def digitsFrom (base bound acc : Nat) : List Char → Except NaturalError Nat
  | [] => .ok acc
  | c :: rest =>
    match digit? base c with
    | none => .error .invalidDigit
    | some d =>
      if acc * base + d < bound then digitsFrom base bound (acc * base + d) rest
      else .error .tooLarge

/-- **An unsigned integer below `bound`**, with an optional plus sign. -/
def natural (base bound : Nat) : List Char → Except NaturalError Nat
  | [] => .error .empty
  | ['+'] | ['-'] => .error .invalidDigit
  | '+' :: rest => digitsFrom base bound 0 rest
  | cs => digitsFrom base bound 0 cs

/-- An unsigned integer of 64 bits. -/
def natural64 (s : String) : Except NaturalError Nat := natural 10 (.pow 2 64) s.toList

/-- A signed integer of at most `2 ^ bits` in magnitude, as two's complement bounds it. -/
def signed? (base bits : Nat) : List Char → Option Int
  | '-' :: c :: rest =>
    (digitsFrom base (Nat.pow 2 bits + 1) 0 (c :: rest)).toOption.map fun n => -(n : Int)
  | cs => (natural base (.pow 2 bits) cs).toOption.map Int.ofNat

/-- A signed integer of 64 bits. -/
def integer? (s : String) : Option Int := signed? 10 63 s.toList

/-! ### Doubles -/

/-- The number that decimal digits write. -/
def ofDigits (digits : List Char) : Nat :=
  digits.foldl (fun acc c => acc * 10 + (c.toNat - 48)) 0

/-- A decimal numeral taken apart: the digits before and after the point, and the exponent. -/
structure Numeral where
  whole : List Char
  fraction : List Char
  exponent : Int

/-- The exponent after its letter: an optional sign and at least one digit. -/
def exponent? (cs : List Char) : Option Int :=
  let (negative, digits) :=
    match cs with
    | '-' :: rest => (true, rest)
    | '+' :: rest => (false, rest)
    | _ => (false, cs)
  if digits.isEmpty || !digits.all Char.isDigit then none
  else some (if negative then -(ofDigits digits : Int) else ofDigits digits)

/-- An unsigned numeral; it has a digit before or after the point. -/
def numeral? (cs : List Char) : Option Numeral :=
  let whole := cs.takeWhile Char.isDigit
  let afterWhole := cs.dropWhile Char.isDigit
  let (fraction, tail) :=
    match afterWhole with
    | '.' :: rest => (rest.takeWhile Char.isDigit, rest.dropWhile Char.isDigit)
    | _ => ([], afterWhole)
  if whole.isEmpty && fraction.isEmpty then none
  else
    match tail with
    | [] => some ⟨whole, fraction, 0⟩
    | c :: rest =>
      if c = 'e' ∨ c = 'E' then (exponent? rest).map fun e => ⟨whole, fraction, e⟩ else none

/-- The nearest double. A numeral whose leading digit stands far outside the range of doubles is
infinite or zero without its digits being worked out. -/
def Numeral.toFloat (n : Numeral) : Float :=
  let significant := (n.whole ++ n.fraction).dropWhile (· == '0')
  let exponent := n.exponent - n.fraction.length
  let leading := exponent + significant.length
  if significant.isEmpty then 0
  else if leading > 400 then 1.0 / 0.0
  else if leading < -400 then 0
  else nearestDouble (ofDigits significant * .pow 10 exponent.toNat) (.pow 10 (-exponent).toNat)

/-- An unsigned double: a numeral, or a word in any case. -/
def unsignedFloat? (cs : List Char) : Option Float :=
  let word := String.ofList (cs.map Char.toLower)
  if word = "inf" ∨ word = "infinity" then some (1.0 / 0.0)
  else if word = "nan" then some (0.0 / 0.0)
  else (numeral? cs).map Numeral.toFloat

/-- **A double** with an optional sign. -/
def float? (s : String) : Option Float :=
  match s.toList with
  | '-' :: rest => (unsignedFloat? rest).map fun x => -x
  | '+' :: rest => unsignedFloat? rest
  | cs => unsignedFloat? cs

end SparqlViews.Decimal
