import FormulaUpgrade.Formula.Basic

/-! # How deeply a formula is nested -/

namespace FormulaUpgrade.Formula

mutual

/-- The steps open at once while a formula is converted: five a level, and three for an operator of
one argument and for parentheses. -/
def nesting : Formula → Nat
  | .missing | .literal _ | .property .. | .symbol _ | .error _ => 0
  | .function _ args => 5 + nestings args
  | .parentheses inner => 3 + inner.nesting
  | .operator _ [operand] => 3 + operand.nesting
  | .operator _ args => 5 + nestings args
  | .conditional condition ifTrue ifFalse =>
    5 + max condition.nesting (max ifTrue.nesting ifFalse.nesting)

def nestings : List Formula → Nat
  | [] => 0
  | formula :: formulas => max formula.nesting (nestings formulas)

end

end FormulaUpgrade.Formula
