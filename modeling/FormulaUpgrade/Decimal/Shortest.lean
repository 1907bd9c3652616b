import FormulaUpgrade.Decimal.Binary64

/-! # The shortest decimal that reads back

Among the decimals that round to a given binary value, the one with the fewest digits is chosen, and
of those with as many digits the nearest.
-/

namespace FormulaUpgrade.Decimal

/-- The value `digits * 10 ^ exponent`. -/
structure Scientific where
  digits : Nat
  exponent : Int
deriving DecidableEq, Repr

/-- The decimals that round to a value lie between two bounds, which belong to them if `closed`. All
three are counted in quarters of the last place: `unit` is `2 ^ (exponent - 2)`. -/
structure Interval where
  low : Nat
  middle : Nat
  high : Nat
  closed : Bool
  unit : Int

/-- The interval around `mantissa * 2 ^ exponent`. Below a power of two the spacing halves. -/
def Interval.around (mantissa : Nat) (exponent : Int) : Interval :=
  let low := if mantissa = Nat.pow 2 52 ∧ -1074 < exponent then 1 else 2
  { low := 4 * mantissa - low
    middle := 4 * mantissa
    high := 4 * mantissa + 2
    closed := mantissa % 2 = 0
    unit := exponent - 2 }

/-- Writes a count of units and a count of powers of ten over a common unit. -/
def Interval.common (i : Interval) (exponent : Int) : Nat × Nat :=
  let two := Ratio.scale ⟨1, 1⟩ 2 i.unit
  let ten := Ratio.scale ⟨1, 1⟩ 10 exponent
  (two.num * ten.den, ten.num * two.den)

/-- The decimal with the given exponent that is in the interval and nearest its middle, an even count
going first on a tie. -/
def Interval.nearest? (i : Interval) (exponent : Int) : Option Nat :=
  let (two, ten) := i.common exponent
  let middle := i.middle * two
  let below := middle / ten
  let inside (n : Nat) : Bool :=
    if i.closed then i.low * two ≤ n * ten && n * ten ≤ i.high * two
    else i.low * two < n * ten && n * ten < i.high * two
  let gapBelow := middle - below * ten
  let gapAbove := (below + 1) * ten - middle
  match inside below, inside (below + 1) with
  | true, true =>
    if gapBelow < gapAbove then some below
    else if gapAbove < gapBelow then some (below + 1)
    else if below % 2 = 0 then some below else some (below + 1)
  | true, false => some below
  | false, true => some (below + 1)
  | false, false => none

/-- The largest exponent of ten that does not exceed the rational. -/
def Ratio.log10 (r : Ratio) : Int :=
  let guess : Int := Int.fdiv (r.log2 * 30103) 100000
  if r.atLeast 10 (guess + 1) then guess + 1
  else if r.atLeast 10 guess then guess
  else guess - 1

/-- Tries decimals of more and more digits, starting at the exponent `top`. -/
def Interval.search (i : Interval) : (fuel : Nat) → (top : Int) → Scientific
  | 0, top => ⟨(i.nearest? top).getD 0, top⟩
  | fuel + 1, top =>
    match i.nearest? top with
    | some digits => ⟨digits, top⟩
    | none => i.search fuel (top - 1)

/-- Seventeen digits always suffice. -/
def shortest (mantissa : Nat) (exponent : Int) : Scientific :=
  let top := (Ratio.scale ⟨mantissa, 1⟩ 2 exponent).log10
  (Interval.around mantissa exponent).search 17 top

end FormulaUpgrade.Decimal
