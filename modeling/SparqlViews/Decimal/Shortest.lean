/-! # The fewest digits that read back

A finite double is a magnitude `m · 2 ^ q` with a sign. The reals that round to it form an interval
around it, from half way to the neighbour below to half way to the neighbour above, and the ends
belong to it exactly when `m` is even. `shortest` gives a decimal in that interval with as few
digits as possible, the nearest one to the magnitude if there are two.

* `Magnitude.readsBack`: the interval, as a test in exact arithmetic.
* `shortest`: for 1, 2, … 17 digits the two neighbours of the magnitude on the decimal grid of that
  width are tested; the first grid with a hit wins, and an exact tie goes as `Tie` says.
-/

namespace SparqlViews.Decimal

/-- A finite nonnegative double, `mantissa · 2 ^ exponent`. -/
structure Magnitude where
  mantissa : Nat
  exponent : Int
  /-- The neighbour below is half as far away as the neighbour above. -/
  narrowBelow : Bool

/-- The magnitude of a finite double, from its bits. -/
def Magnitude.ofBits (bits : UInt64) : Magnitude :=
  let scale := ((bits >>> 52) &&& 0x7FF).toNat
  let fraction := (bits &&& 0xFFFFFFFFFFFFF).toNat
  if scale = 0 then ⟨fraction, -1074, false⟩
  else ⟨.pow 2 52 + fraction, (scale : Int) - 1075, fraction == 0 && scale > 1⟩

/-- The decimal `coefficient · 10 ^ exponent`. -/
structure Digits where
  coefficient : Nat
  exponent : Int
  deriving DecidableEq, Repr

/-- Where an exact tie between two decimals of one length goes. -/
inductive Tie where
  | toEven
  | up
  deriving DecidableEq

/-- The order of `a · 10 ^ i` and `b · 2 ^ j`. -/
def compareScaled (a : Nat) (i : Int) (b : Nat) (j : Int) : Ordering :=
  compare (a * .pow 10 i.toNat * .pow 2 (-j).toNat) (b * .pow 2 j.toNat * .pow 10 (-i).toNat)

/-- **The decimal rounds to the magnitude.** -/
def Magnitude.readsBack (x : Magnitude) (d : Digits) : Bool :=
  let below := if x.narrowBelow then 4 * x.mantissa - 1 else 4 * x.mantissa - 2
  let above := 4 * x.mantissa + 2
  let closed := x.mantissa % 2 == 0
  let atBelow := compareScaled d.coefficient d.exponent below (x.exponent - 2)
  let atAbove := compareScaled d.coefficient d.exponent above (x.exponent - 2)
  (atBelow == .gt || (closed && atBelow == .eq)) && (atAbove == .lt || (closed && atAbove == .eq))

/-- The least power of ten above a positive magnitude, estimated from its binary logarithm. -/
def Magnitude.scale (x : Magnitude) : Int :=
  let guess := ((x.mantissa.log2 : Int) + x.exponent) * 30103 / 100000
  let fits := fun k : Int => compareScaled 1 k x.mantissa x.exponent == .gt
  if fits guess then guess else if fits (guess + 1) then guess + 1 else guess + 2

/-- The multiple of `10 ^ grid` just below the magnitude, or at it. -/
def Magnitude.floorAt (x : Magnitude) (grid : Int) : Nat :=
  (x.mantissa * .pow 2 x.exponent.toNat * .pow 10 (-grid).toNat) /
    (.pow 2 (-x.exponent).toNat * .pow 10 grid.toNat)

/-- The neighbour on a grid that reads back, the nearer one of two. -/
def Magnitude.onGrid? (tie : Tie) (x : Magnitude) (grid : Int) : Option Digits :=
  let low := x.floorAt grid
  let lower : Digits := ⟨low, grid⟩
  let upper : Digits := ⟨low + 1, grid⟩
  match x.readsBack lower, x.readsBack upper with
  | true, false => some lower
  | false, true => some upper
  | false, false => none
  | true, true =>
    match compareScaled (2 * low + 1) grid (2 * x.mantissa) x.exponent with
    | .gt => some lower
    | .lt => some upper
    | .eq => some (if tie = .toEven && low % 2 = 0 then lower else upper)

/-- The same decimal with the trailing zeros of its coefficient moved into the exponent. -/
def Digits.strip (fuel : Nat) (d : Digits) : Digits :=
  match fuel with
  | 0 => d
  | fuel + 1 =>
    if d.coefficient ≠ 0 ∧ d.coefficient % 10 = 0 then
      Digits.strip fuel ⟨d.coefficient / 10, d.exponent + 1⟩
    else d

/-- The magnitude written out in full. -/
def Magnitude.exact (x : Magnitude) : Digits :=
  if x.exponent ≥ 0 then ⟨x.mantissa * .pow 2 x.exponent.toNat, 0⟩
  else ⟨x.mantissa * .pow 5 (-x.exponent).toNat, x.exponent⟩

/-- **The shortest decimal** that reads back as the magnitude. -/
def shortest (tie : Tie) (x : Magnitude) : Digits :=
  if x.mantissa = 0 then ⟨0, 0⟩
  else
    let found := (List.range 17).findSome? fun n => x.onGrid? tie (x.scale - (n + 1 : Nat))
    let d := found.getD x.exact
    d.strip (Nat.log2 d.coefficient + 1)

end SparqlViews.Decimal
