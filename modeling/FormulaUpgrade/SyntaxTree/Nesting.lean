import FormulaUpgrade.SyntaxTree.Basic

/-! # How deeply a syntax tree is nested

Nesting is measured in steps of work that are open at once. Printing a part costs three steps a level,
five where parts stand in a list; normalizing costs three steps for parentheses and conditionals and
six for calls and operators.
-/

namespace FormulaUpgrade.SyntaxTree

mutual

/-- The steps open at once while a tree is printed. -/
def printNesting : SyntaxTree → Nat
  | .missing | .constant .. | .symbol _ => 0
  | .call _ args => 5 + printNestings args
  | .operator _ [operand] => 3 + operand.printNesting
  | .operator _ args => 5 + printNestings args
  | .paren content => 3 + content.printNesting
  | .conditional condition ifTrue ifFalse =>
    3 + max condition.printNesting (max ifTrue.printNesting ifFalse.printNesting)
  | .array items => 5 + printNestings items
  | .object entries => 5 + printNestingEntries entries
  | .assignment target value => 3 + max target.printNesting value.printNesting
  | .index owner indices => max (3 + owner.printNesting) (5 + printNestings indices)
  | .member owner _ => 3 + owner.printNesting
  | .method owner _ args => max (3 + owner.printNesting) (5 + printNestings args)
  | .block statements => 5 + printNestings statements

def printNestings : List SyntaxTree → Nat
  | [] => 0
  | tree :: trees => max tree.printNesting (printNestings trees)

def printNestingEntries : List (String × SyntaxTree) → Nat
  | [] => 0
  | (_, tree) :: entries => max tree.printNesting (printNestingEntries entries)

end

/-- The steps open at once while the arguments of a reference to a property are looked at. -/
def referenceNesting : List SyntaxTree → Nat
  | [tree] => tree.printNesting
  | _ => 0

mutual

/-- The steps open at once while a tree is normalized. A part that formulas do not allow is printed;
the arguments of a reference are looked into only if there is one, which is printed too. -/
def nesting : SyntaxTree → Nat
  | .missing | .constant .. | .symbol _ => 0
  | .call name args =>
    if name = "prop" then referenceNesting args else 6 + nestings args
  | .operator _ args => 6 + nestings args
  | .paren content => 3 + content.nesting
  | .conditional condition ifTrue ifFalse =>
    3 + max condition.nesting (max ifTrue.nesting ifFalse.nesting)
  | tree => tree.printNesting

def nestings : List SyntaxTree → Nat
  | [] => 0
  | tree :: trees => max tree.nesting (nestings trees)

end

end FormulaUpgrade.SyntaxTree
