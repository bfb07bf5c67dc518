import SparqlViews.Decimal.Shortest

/-! # The text of a double

The sign, the digits of `shortest`, and the decisions of an output format about where the point
stands and when an exponent is written.

* `Layout`: these decisions, as one record for each format.
* `Layout.text`: the text of a finite double in such a format.
-/

namespace SparqlViews.Decimal

/-- How an output format writes a finite double. -/
structure Layout where
  /-- The exponents of the leading digit at which no exponent is written; none means all. -/
  plain : Option (Int × Int)
  /-- A whole number gets a point and a zero. -/
  wholeFraction : Bool
  /-- Where an exact tie between two shortest decimals goes. -/
  tie : Tie

/-- The characters of the digits with the point after `places` of them. -/
def pointAt (wholeFraction : Bool) (digits : List Char) (places : Int) : List Char :=
  if places ≤ 0 then
    '0' :: '.' :: (List.replicate (-places).toNat '0' ++ digits)
  else if digits.length ≤ places.toNat then
    digits ++ List.replicate (places.toNat - digits.length) '0' ++
      (if wholeFraction then ['.', '0'] else [])
  else digits.take places.toNat ++ '.' :: digits.drop places.toNat

/-- One digit before the point, and an exponent that always has a sign. -/
def withExponent (digits : List Char) (exponent : Int) : List Char :=
  digits.take 1 ++ (if digits.length ≤ 1 then [] else '.' :: digits.drop 1) ++
    ['e', if exponent < 0 then '-' else '+'] ++ (toString exponent.natAbs).toList

/-- The text of a nonnegative decimal. -/
def Layout.digitsText (layout : Layout) (d : Digits) : List Char :=
  let digits := (toString d.coefficient).toList
  let leading := d.exponent + digits.length - 1
  if d.coefficient = 0 then '0' :: (if layout.wholeFraction then ['.', '0'] else [])
  else if layout.plain.all fun r => r.1 ≤ leading && leading ≤ r.2 then
    pointAt layout.wholeFraction digits (leading + 1)
  else withExponent digits leading

/-- **The text of a finite double**; a negative zero keeps its sign. -/
def Layout.text (layout : Layout) (x : Float) : String :=
  let digits := layout.digitsText (shortest layout.tie (Magnitude.ofBits x.toBits))
  String.ofList (if x.toBits >>> 63 = 1 then '-' :: digits else digits)

end SparqlViews.Decimal
