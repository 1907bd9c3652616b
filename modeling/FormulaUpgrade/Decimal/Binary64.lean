/-! # Binary floating point numbers of 64 bits

Values are kept exactly, as a whole number times a power of two, so that rounding and printing are
exact arithmetic.
-/

namespace FormulaUpgrade.Decimal

/-- A finite value is `mantissa * 2 ^ exponent`, with a mantissa below `2 ^ 53` and an exponent from
`-1074` to `971`. -/
inductive Binary64 where
  | finite (negative : Bool) (mantissa : Nat) (exponent : Int)
  | infinite (negative : Bool)
  | nan
deriving DecidableEq, Repr

/-- A positive rational, as a quotient. -/
structure Ratio where
  num : Nat
  den : Nat

/-- `r * base ^ exponent`, for an exponent of either sign. -/
def Ratio.scale (r : Ratio) (base : Nat) (exponent : Int) : Ratio :=
  if 0 ≤ exponent then ⟨r.num * base.pow exponent.toNat, r.den⟩
  else ⟨r.num, r.den * base.pow (-exponent).toNat⟩

/-- Whether the rational is at least `base ^ exponent`. -/
def Ratio.atLeast (r : Ratio) (base : Nat) (exponent : Int) : Bool :=
  let s := r.scale base (-exponent)
  s.den ≤ s.num

/-- The nearest whole number, a half going to the even neighbour. -/
def Ratio.round (r : Ratio) : Nat :=
  let q := r.num / r.den
  let twice := 2 * (r.num % r.den)
  if twice < r.den then q
  else if r.den < twice then q + 1
  else if q % 2 = 0 then q else q + 1

/-- The largest exponent of two that does not exceed the rational. -/
def Ratio.log2 (r : Ratio) : Int :=
  let guess : Int := r.num.log2 - r.den.log2
  if r.atLeast 2 guess then guess else guess - 1

/-- The nearest 64 bit value to a positive rational, a half going to the even mantissa. -/
def Binary64.ofRatio (negative : Bool) (r : Ratio) : Binary64 :=
  let exponent := max (r.log2 - 52) (-1074)
  let mantissa := (r.scale 2 (-exponent)).round
  let (mantissa, exponent) :=
    if mantissa = Nat.pow 2 53 then (Nat.pow 2 52, exponent + 1) else (mantissa, exponent)
  if 971 < exponent then .infinite negative else .finite negative mantissa exponent

/-- The nearest 64 bit value to `digits * 10 ^ exponent`, where `digits` has `count` digits. Values
far outside the range are settled by their order of magnitude alone. -/
def Binary64.ofDecimal (negative : Bool) (digits count : Nat) (exponent : Int) : Binary64 :=
  if digits = 0 ∨ exponent + count < -400 then .finite negative 0 (-1074)
  else if 400 < exponent then .infinite negative
  else .ofRatio negative (Ratio.scale ⟨digits, 1⟩ 10 exponent)

end FormulaUpgrade.Decimal
