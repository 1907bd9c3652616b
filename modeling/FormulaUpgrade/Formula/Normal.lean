import FormulaUpgrade.Formula.Basic
import FormulaUpgrade.Property.Mapping
import FormulaUpgrade.StringLiteral
import FormulaUpgrade.SyntaxTree.Text

/-! # Formulas from syntax trees

Normalizing drops parentheses, resolves references to properties, joins chains of one operator, and
puts an error in the place of whatever formulas do not allow. It also lists the messages of all errors
it makes, also of those in parts that are dropped.
-/

namespace FormulaUpgrade.Formula

open Property

/-- A formula and the messages of the errors made on the way to it. -/
structure Normal where
  formula : Formula
  errors : List String
deriving Inhabited, Repr

/-- An error in the place of a formula, after earlier ones. -/
def Normal.fail (errors : List String) (message : String) : Normal :=
  ⟨.error message, errors ++ [message]⟩

/-- The names that stand for a value. -/
def constants : List String :=
  ["e", "pi", "true", "false"]

/-- The name of the property that a constant refers to. -/
def propertyName [Host] (kind : SyntaxTree.ConstantKind) (text : String) : String :=
  match kind with
  | .number => text
  | .string => (StringLiteral.value text).toOption.getD text

/-- A reference to a property by its arguments. -/
def normalProperty [Host] (declared : Declared) : List SyntaxTree → Normal
  | [.constant kind text] =>
    let name := propertyName kind text
    match declared.resolve name with
    | .ok propertyKind => ⟨.property name propertyKind, []⟩
    | .error e => .fail [] (e.message ++ " for property " ++ Text.shown name)
  | [tree] => .fail [] ("Invalid property reference: " ++ tree.text)
  | _ => .fail [] "Invalid number of arguments passed to prop()"

/-- The arguments of an operator. When its first operand was written as the same operator and is a
chain, the chain goes on. Powers group to the right and form no chains. -/
def chain (op : String) : List SyntaxTree → List Formula → List Formula
  | [.operator .., _], .operator first inner :: rest =>
    if op ≠ "^" ∧ first = op ∧ 2 ≤ inner.length then inner ++ rest else .operator first inner :: rest
  | _, args => args

/-- A conditional of three formulas. Without a condition nothing is left; the first error among the
three takes the place of all. -/
def normalConditional (tree : SyntaxTree) (condition ifTrue ifFalse : Normal) : Normal :=
  let errors := condition.errors ++ ifTrue.errors ++ ifFalse.errors
  match condition.formula, ifTrue.formula, ifFalse.formula with
  | .missing, _, _ => ⟨.missing, errors⟩
  | .error message, _, _ => ⟨.error message, errors⟩
  | _, .error message, _ => ⟨.error message, errors⟩
  | _, _, .error message => ⟨.error message, errors⟩
  | _, .missing, _ => .fail errors ("Invalid conditional: " ++ tree.text)
  | _, _, .missing => .fail errors ("Invalid conditional: " ++ tree.text)
  | c, t, f => ⟨.conditional c t f, errors⟩

mutual

/-- The formula of a syntax tree. -/
def normal [Host] (declared : Declared) : SyntaxTree → Normal
  | .missing => ⟨.missing, []⟩
  | .constant .number text => ⟨.literal text, []⟩
  | .constant .string text => ⟨.literal (StringLiteral.requote text), []⟩
  | .symbol name =>
    if constants.contains name then ⟨.symbol name, []⟩ else .fail [] ("Undefined constant:" ++ name)
  | .call name args =>
    if name = "prop" then normalProperty declared args
    else
      let (args, errors) := normalAll declared args
      ⟨.function name args, errors⟩
  | .operator op args =>
    let (formulas, errors) := normalAll declared args
    ⟨.operator op (chain op args formulas), errors⟩
  | .paren content => normal declared content
  | .conditional condition ifTrue ifFalse =>
    normalConditional (.conditional condition ifTrue ifFalse) (normal declared condition)
      (normal declared ifTrue) (normal declared ifFalse)
  | tree => .fail [] ("Invalid syntax: " ++ tree.text)

/-- The formulas of syntax trees, without those of which nothing is left. -/
def normalAll [Host] (declared : Declared) : List SyntaxTree → List Formula × List String
  | [] => ([], [])
  | tree :: trees =>
    let first := normal declared tree
    let (rest, errors) := normalAll declared trees
    (if first.formula.isMissing then rest else first.formula :: rest, first.errors ++ errors)

end

/-! ## Literals that cannot be read -/

/-- The first property name that is no literal, which no tree of a formula text holds. -/
def argumentFault? : List SyntaxTree → Option Json.Fault
  | [.constant .string text] =>
    match StringLiteral.codePoints text with
    | .ok _ => none
    | .error fault => some fault
  | _ => none

mutual

def literalFault? : SyntaxTree → Option Json.Fault
  | .call name args => if name = "prop" then argumentFault? args else literalFaultAmong? args
  | .operator _ args => literalFaultAmong? args
  | .paren content => literalFault? content
  | .conditional condition ifTrue ifFalse =>
    (literalFault? condition).or ((literalFault? ifTrue).or (literalFault? ifFalse))
  | _ => none

def literalFaultAmong? : List SyntaxTree → Option Json.Fault
  | [] => none
  | tree :: trees => (literalFault? tree).or (literalFaultAmong? trees)

end

/-- The formula of any syntax tree, also of one that was not read from text. -/
def normalize [Host] (declared : Declared) (tree : SyntaxTree) : Except Json.Fault Normal :=
  match literalFault? tree with
  | some fault => .error fault
  | none => .ok (normal declared tree)

end FormulaUpgrade.Formula
