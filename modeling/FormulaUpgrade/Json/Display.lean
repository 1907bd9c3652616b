import FormulaUpgrade.Decimal.Shortest
import FormulaUpgrade.Json.Value
import FormulaUpgrade.Table
import FormulaUpgrade.Text.Surrogates

/-! # JSON values in messages -/

namespace FormulaUpgrade.Json

open Decimal

/-! ## Floating point numbers -/

/-- Drops zeros at the end of a positive count of digits. -/
def dropZeros : (fuel : Nat) → Scientific → Scientific
  | 0, x => x
  | fuel + 1, x =>
    if x.digits % 10 = 0 then dropZeros fuel ⟨x.digits / 10, x.exponent + 1⟩ else x

/-- Zeros in front or behind, as many as a point needs. -/
def zeros (n : Nat) : List Char :=
  List.replicate n '0'

/-- Digits with the point behind the first `point` of them, which may be before or after them all. -/
def positional (digits : List Char) (point : Int) : List Char :=
  if point ≤ 0 then '0' :: '.' :: zeros (-point).toNat ++ digits
  else if digits.length ≤ point.toNat then
    digits ++ zeros (point.toNat - digits.length) ++ ['.', '0']
  else digits.take point.toNat ++ '.' :: digits.drop point.toNat

/-- One digit, the others behind the point, and an exponent with a sign and at least two digits. -/
def exponential (digits : List Char) (exponent : Int) : List Char :=
  let fraction :=
    match digits.drop 1 with
    | [] => []
    | rest => '.' :: rest
  let magnitude := (Nat.repr exponent.natAbs).toList
  let padding := zeros (2 - magnitude.length)
  digits.take 1 ++ fraction ++ 'e' :: (if exponent < 0 then '-' else '+') :: padding ++ magnitude

/-- Shortest digits that read back; positional from `0.0001` to below `10 ^ 16`. -/
def finiteText (mantissa : Nat) (exponent : Int) : List Char :=
  if mantissa = 0 then ['0', '.', '0']
  else
    let x := dropZeros 17 (shortest mantissa exponent)
    let digits := (Nat.repr x.digits).toList
    let point := x.exponent + digits.length
    if -4 < point ∧ point ≤ 16 then positional digits point else exponential digits (point - 1)

def floatText : Binary64 → String
  | .finite negative mantissa exponent =>
    (if negative then "-" else "") ++ String.ofList (finiteText mantissa exponent)
  | .infinite negative => if negative then "-inf" else "inf"
  | .nan => "nan"

/-! ## Values -/

mutual

/-- A value as messages show it: text is quoted. -/
def Value.display [Host] : Value → String
  | .null => "None"
  | .bool true => "True"
  | .bool false => "False"
  | .int n => toString n.value
  | .float value => floatText value
  | .string value => Text.shown value
  | .array items => "[" ++ ", ".intercalate (displayAll items) ++ "]"
  | .object members =>
    let shown := (Table.ofList (displayMembers members)).entries
    "\x7b" ++ ", ".intercalate (shown.map fun (name, value) => name ++ ": " ++ value) ++ "\x7d"

def displayAll [Host] : List Value → List String
  | [] => []
  | value :: values => value.display :: displayAll values

/-- Names and values of members. Names are quoted one to one, so quoting keeps repetitions. -/
def displayMembers [Host] : List (String × Value) → List (String × String)
  | [] => []
  | (name, value) :: members => (Text.shown name, value.display) :: displayMembers members

end

/-- A value as messages insert it: text stands as it is. -/
def Value.plain [Host] : Value → String
  | .string value => value
  | value => value.display

end FormulaUpgrade.Json
