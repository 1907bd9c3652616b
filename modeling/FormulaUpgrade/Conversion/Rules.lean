/-! # How calls are converted -/

namespace FormulaUpgrade.Conversion

/-- The functions that have a new name. -/
def renamedFunctions : List (String × String) :=
  [("slice", "substring"), ("start", "dateStart"), ("end", "dateEnd")]

/-- The functions of two arguments that become operators. -/
def operatorFunctions : List (String × String) := [
  ("add", "+"), ("subtract", "-"), ("multiply", "*"), ("divide", "/"), ("pow", "^"), ("mod", "%"),
  ("equal", "=="), ("unequal", "!="), ("larger", ">"), ("largerEq", ">="), ("smaller", "<"),
  ("smallerEq", "<="), ("concat", "+")]

/-- The functions with a conversion of their own. -/
inductive Special where
  | unaryMinus
  | unaryPlus
  | day
  | month
  | join
deriving DecidableEq, Repr

namespace Special

def all : List Special :=
  [.unaryMinus, .unaryPlus, .day, .month, .join]

def name : Special → String
  | .unaryMinus => "unaryMinus"
  | .unaryPlus => "unaryPlus"
  | .day => "day"
  | .month => "month"
  | .join => "join"

def ofName? (s : String) : Option Special :=
  all.find? (·.name = s)

/-- The functions that stand for an operator of one argument. -/
def unary : List Special :=
  [.unaryMinus, .unaryPlus]

/-- The functions that become an operator with a number on its right. -/
def adjusted : List Special :=
  [.day, .month]

end Special

/-- The constants that become calls. -/
def calledConstants : List String :=
  ["pi", "e"]

/-- What becomes of a call. -/
inductive Treatment where
  | renamed (name : String)
  | operator (op : String)
  | special (special : Special)
  | unchanged
deriving DecidableEq, Repr

/-- What becomes of a call of the named function. -/
def treatment (name : String) : Treatment :=
  match renamedFunctions.lookup name with
  | some name => .renamed name
  | none =>
    match operatorFunctions.lookup name with
    | some op => .operator op
    | none =>
      match Special.ofName? name with
      | some special => .special special
      | none => .unchanged

end FormulaUpgrade.Conversion
