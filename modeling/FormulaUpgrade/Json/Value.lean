import FormulaUpgrade.Decimal.Binary64

/-! # JSON values -/

namespace FormulaUpgrade.Json

/-- Integers may have this many digits. -/
def digitLimit : Nat := 4300

/-- An integer that is short enough to be read and written. -/
structure Integer where
  value : Int
  short : value.natAbs < Nat.pow 10 digitLimit
deriving DecidableEq, Repr

/-- A JSON value. An object keeps its members as written, repeated names included. -/
inductive Value where
  | null
  | bool (value : Bool)
  | int (value : Integer)
  | float (value : Decimal.Binary64)
  | string (value : String)
  | array (items : List Value)
  | object (members : List (String × Value))
deriving Inhabited, Repr

end FormulaUpgrade.Json
