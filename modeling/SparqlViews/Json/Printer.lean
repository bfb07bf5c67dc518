import SparqlViews.Data.Basic
import SparqlViews.Decimal.Layout

/-! # JSON text of values

* `Json.print`: the compact text of a value, without white space.
* `Json.realLayout`: how doubles are written.
-/

namespace SparqlViews.Json

/-- Doubles always have a fraction or an exponent, and an exponent always has a sign. -/
def realLayout : Decimal.Layout := ⟨some (-5, 15), true, .toEven⟩

/-- A digit of base sixteen in lower case. -/
def hexDigit (n : Nat) : Char := Char.ofNat (if n < 10 then 48 + n else 87 + n)

/-- A character inside a quoted text. -/
def escapeChar (c : Char) : List Char :=
  if c = '"' then ['\\', '"']
  else if c = '\\' then ['\\', '\\']
  else if c = '\n' then ['\\', 'n']
  else if c = '\r' then ['\\', 'r']
  else if c = '\t' then ['\\', 't']
  else if c.toNat = 8 then ['\\', 'b']
  else if c.toNat = 12 then ['\\', 'f']
  else if c.toNat < 32 then ['\\', 'u', '0', '0', hexDigit (c.toNat / 16), hexDigit (c.toNat % 16)]
  else [c]

/-- A text between quotes. -/
def quote (s : String) : String :=
  String.ofList ('"' :: (s.toList.flatMap escapeChar ++ ['"']))

/-- The text of a scalar; a double that is not finite has none and is written as null. -/
def printAtom : Atom → String
  | .null => "null"
  | .bool b => if b then "true" else "false"
  | .nat n => toString n
  | .negative n => toString (-n : Int)
  | .real bits =>
    if (Float.ofBits bits).isFinite then realLayout.text (Float.ofBits bits) else "null"
  | .text s => quote s

mutual

/-- **The compact text of a value.** -/
def print : Data → String
  | .atom a => printAtom a
  | .list items => "[" ++ ",".intercalate (printItems items) ++ "]"
  | .record fields => "\x7b" ++ ",".intercalate (printFields fields) ++ "\x7d"

def printItems : List Data → List String
  | [] => []
  | d :: rest => print d :: printItems rest

def printFields : List (Data × Data) → List String
  | [] => []
  | (key, d) :: rest => (printKey key ++ ":" ++ print d) :: printFields rest

/-- The text of a key; a key that is no text is quoted as it is written. -/
def printKey : Data → String
  | .atom (.text s) => quote s
  | key => quote (print key)

end

end SparqlViews.Json
