/-! # The nearest double

Every double is `m · 2 ^ q` with `m` below `2 ^ 53` and `q` at least `-1074`. A positive ratio is
brought to that form with as large an `m` as there is room for, in exact arithmetic, and the rest is
rounded once.

* `roundDiv`: a quotient rounded to the nearest whole number, an exact half to the even one.
* `nearestBits`: the bits of the nearest double. The bits of ascending doubles ascend by one, so a
  mantissa that is rounded up to `2 ^ 53` carries over into the exponent by itself.
* `nearestDouble`, `doubleOfInt`: the nearest double of a ratio and of an integer.
-/

namespace SparqlViews.Decimal

/-- **A quotient rounded to the nearest whole number**; an exact half goes to the even one. -/
def roundDiv (n d : Nat) : Nat :=
  let q := n / d
  let r := n % d
  if d < 2 * r ∨ (d = 2 * r ∧ q % 2 = 1) then q + 1 else q

/-- The bits of the infinite double. -/
def infinityBits : Nat := 0x7FF0000000000000

/-- The exponent at which a positive ratio has a mantissa of 53 bits, or the least there is. -/
def ratioExponent (n d : Nat) : Int :=
  let guess : Int := (n.log2 : Int) - d.log2 - 52
  let isSmall := n * .pow 2 (-guess).toNat < d * .pow 2 guess.toNat * .pow 2 52
  max (if isSmall then guess - 1 else guess) (-1074)

/-- **The bits of the double nearest to a ratio**; a ratio beyond all doubles is infinite. -/
def nearestBits (n d : Nat) : Nat :=
  if n = 0 then 0
  else
    let q := ratioExponent n d
    let mantissa := roundDiv (n * .pow 2 (-q).toNat) (d * .pow 2 q.toNat)
    min ((q + 1074).toNat * .pow 2 52 + mantissa) infinityBits

/-- The double nearest to a ratio. -/
def nearestDouble (n d : Nat) : Float := Float.ofBits (nearestBits n d).toUInt64

/-- The double nearest to an integer. -/
def doubleOfInt (n : Int) : Float :=
  let x := nearestDouble n.natAbs 1
  if n < 0 then -x else x

end SparqlViews.Decimal
