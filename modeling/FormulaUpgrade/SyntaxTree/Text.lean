import FormulaUpgrade.SyntaxTree.Basic

/-! # Canonical text of syntax trees

Every tree prints as formula text with fixed spacing. Nothing is put in parentheses that was not
written so.
-/

namespace FormulaUpgrade.SyntaxTree

/-- The operators spelled as words. -/
def wordOperators : List String :=
  ["and", "or", "xor", "not", "mod"]

/-- The operator in front of its only operand; a word is set off by a space. -/
def prefixText (op operand : String) : String :=
  if wordOperators.contains op then op ++ " " ++ operand else op ++ operand

/-- Texts between commas. -/
def commaJoined (texts : List String) : String :=
  ", ".intercalate texts

mutual

/-- The canonical text of a tree. -/
def text : SyntaxTree → String
  | .missing => "None"
  | .constant _ written => written
  | .symbol name => name
  | .call name args => name ++ "(" ++ commaJoined (texts args) ++ ")"
  | .operator op [operand] => prefixText op operand.text
  | .operator op args => (" " ++ op ++ " ").intercalate (texts args)
  | .paren content => "(" ++ content.text ++ ")"
  | .conditional condition ifTrue ifFalse =>
    condition.text ++ " ? " ++ ifTrue.text ++ " : " ++ ifFalse.text
  | .array items => "[" ++ commaJoined (texts items) ++ "]"
  | .object entries => "\x7b" ++ commaJoined (entryTexts entries) ++ "\x7d"
  | .assignment target value => target.text ++ " = " ++ value.text
  | .index owner indices => owner.text ++ "[" ++ commaJoined (texts indices) ++ "]"
  | .member owner name => owner.text ++ "." ++ name
  | .method owner name args => owner.text ++ "." ++ name ++ "(" ++ commaJoined (texts args) ++ ")"
  | .block statements => "; ".intercalate (texts statements)

def texts : List SyntaxTree → List String
  | [] => []
  | tree :: trees => tree.text :: texts trees

def entryTexts : List (String × SyntaxTree) → List String
  | [] => []
  | (key, value) :: entries => (key ++ ": " ++ value.text) :: entryTexts entries

end

end FormulaUpgrade.SyntaxTree
