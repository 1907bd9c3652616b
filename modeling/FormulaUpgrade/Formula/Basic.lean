import FormulaUpgrade.Property.Kind

/-! # Formulas -/

namespace FormulaUpgrade

/-- A formula, ready to be converted. Operators take any number of arguments; an `error` stands where
a part could not be used, and `missing` where nothing is left. -/
inductive Formula where
  | missing
  | literal (text : String)
  | function (name : String) (args : List Formula)
  | property (name : String) (kind : Property.Kind)
  | parentheses (inner : Formula)
  | operator (op : String) (args : List Formula)
  | conditional (condition ifTrue ifFalse : Formula)
  | symbol (name : String)
  | error (message : String)
deriving Inhabited, Repr

namespace Formula

/-- The name of a form in diagnostics. -/
def label : Formula → String
  | .missing => "NoneType"
  | .literal .. => "Literal"
  | .function .. => "Function"
  | .property .. => "Property"
  | .parentheses .. => "Parentheses"
  | .operator .. => "Operator"
  | .conditional .. => "Conditional"
  | .symbol .. => "Symbol"
  | .error .. => "Error"

def isMissing : Formula → Bool
  | .missing => true
  | _ => false

def isError : Formula → Bool
  | .error _ => true
  | _ => false

end Formula

end FormulaUpgrade
