import FormulaUpgrade.Conversion.Rules
import FormulaUpgrade.Formula.Basic

/-! # Parentheses around converted operands

An operand whose converted text is itself an operator expression or a conditional is put in
parentheses, whatever the precedence.
-/

namespace FormulaUpgrade

/-- Whether the converted text of a formula is grouped where it is an operand. -/
def Formula.needsParentheses : Formula → Bool
  | .conditional .. => true
  | .function name _ =>
    match Conversion.treatment name with
    | .operator _ => true
    | .special special =>
      Conversion.Special.unary.contains special || Conversion.Special.adjusted.contains special
    | _ => false
  | .operator _ args => 2 ≤ args.length
  | _ => false

/-- The converted text of a formula, grouped if it needs to be. -/
def Conversion.wrap (formula : Formula) (text : String) : String :=
  if formula.needsParentheses then "(" ++ text ++ ")" else text

end FormulaUpgrade
