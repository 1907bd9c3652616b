/-! # Syntax trees of formula text

A syntax tree keeps what was written: parentheses, and also the constructs that a formula may not
use. A child may be `missing`; the parser never leaves one out.
-/

namespace FormulaUpgrade

inductive SyntaxTree.ConstantKind where
  | number
  | string
deriving DecidableEq, Repr

inductive SyntaxTree where
  | missing
  | constant (kind : SyntaxTree.ConstantKind) (text : String)
  | symbol (name : String)
  | call (name : String) (args : List SyntaxTree)
  | operator (op : String) (args : List SyntaxTree)
  | paren (content : SyntaxTree)
  | conditional (condition ifTrue ifFalse : SyntaxTree)
  | array (items : List SyntaxTree)
  | object (entries : List (String × SyntaxTree))
  | assignment (target value : SyntaxTree)
  | index (owner : SyntaxTree) (indices : List SyntaxTree)
  | member (owner : SyntaxTree) (name : String)
  | method (owner : SyntaxTree) (name : String) (args : List SyntaxTree)
  | block (statements : List SyntaxTree)
deriving Inhabited, Repr

namespace SyntaxTree

/-- The name of a construct in diagnostics. -/
def label : SyntaxTree → String
  | .missing => "NoneType"
  | .constant .. => "ConstantNode"
  | .symbol .. => "SymbolNode"
  | .call .. => "CallNode"
  | .operator .. => "OperatorNode"
  | .paren .. => "ParenthesisNode"
  | .conditional .. => "ConditionalNode"
  | .array .. => "ArrayNode"
  | .object .. => "ObjectNode"
  | .assignment .. => "AssignmentNode"
  | .index .. => "IndexNode"
  | .member .. | .method .. => "AccessorNode"
  | .block .. => "BlockNode"

end SyntaxTree

end FormulaUpgrade
