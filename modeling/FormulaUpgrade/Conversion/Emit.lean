import FormulaUpgrade.Conversion.Context
import FormulaUpgrade.Conversion.Grouping
import FormulaUpgrade.Property.Reference
import FormulaUpgrade.SyntaxTree.Text

/-! # The converted text of a formula

A formula is walked once, from left to right. A part records its own change in front of the changes of
its arguments, and its own issue behind their issues.
-/

namespace FormulaUpgrade.Conversion

open SyntaxTree (commaJoined)

def callText (name : String) (texts : List String) : String :=
  name ++ "(" ++ commaJoined texts ++ ")"

/-- Operands, grouped as they need, with an operator between them. -/
def operatorText (op : String) (args : List Formula) (texts : List String) : String :=
  (" " ++ op ++ " ").intercalate (args.zipWith wrap texts)

/-- The text for a function with a conversion of its own. Only the first argument of `unaryMinus` is
used, and the first argument of `join` goes behind the list of the others. -/
def Special.text (special : Special) (args : List Formula) (texts : List String) : String :=
  match special, args, texts with
  | .unaryMinus, arg :: _, text :: _ => "-" ++ wrap arg text
  | .unaryMinus, _, _ => "-"
  | .unaryPlus, _, _ => callText "toNumber" texts
  | .day, _, _ => callText "day" texts ++ " % 7"
  | .month, _, _ => callText "month" texts ++ " - 1"
  | .join, _, [] => "join([])"
  | .join, _, separator :: values => "join([" ++ commaJoined values ++ "], " ++ separator ++ ")"

/-- The text of a call, from its arguments and their texts. -/
def functionText (name : String) (args : List Formula) (texts : List String) : String :=
  match treatment name with
  | .renamed name => callText name texts
  | .operator op => operatorText op args texts
  | .special special => special.text args texts
  | .unchanged => callText name texts

/-- Records what became of a call with `count` arguments. -/
def noteFunction (name : String) (count place : Nat) (c : Context) : Context :=
  match treatment name with
  | .unchanged => c
  | .operator _ =>
    let c := c.insertChange place name none
    if count = 2 then c else c.addIssue "operatorIncorrectArgs" (some name)
  | _ => c.insertChange place name none

/-- The text of an operator with one argument. -/
def prefixText (op : String) (arg : Formula) (text : String) : String :=
  if op = "not" then "!" ++ wrap arg text
  else if op = "+" then callText "toNumber" [text]
  else op ++ wrap arg text

/-- Records what became of an operator with one argument. -/
def notePrefix (op : String) (place : Nat) (c : Context) : Context :=
  if op = "not" then c.insertChange place "not" none
  else if op = "+" then c.insertChange place "unaryPlus" none
  else c

/-- Records a reference to a property. -/
def noteProperty (name : String) (kind : Property.Kind) (c : Context) : Context :=
  let c := c.addReference name
  if kind = .other then c else c.addChange kind.tag (some (Property.reference name))

mutual

/-- The converted text of a formula, and the context with what was recorded. -/
def emit : Formula → Context → String × Context
  | .missing, c => ("", c)
  | .literal text, c => (text, c)
  | .error message, c => ("", c.addIssue "parserError" (some message))
  | .parentheses inner, c =>
    let (text, c) := emit inner c
    ("(" ++ text ++ ")", c)
  | .function name args, c =>
    let place := c.mark
    let (texts, c) := emitAll args c
    (functionText name args texts, noteFunction name args.length place c)
  | .property name kind, c => (Property.convertedReference name kind, noteProperty name kind c)
  | .operator op [], c => ("", c.addIssue "operatorNoArgs" (some op))
  | .operator op [arg], c =>
    let place := c.mark
    let (text, c) := emit arg c
    (prefixText op arg text, notePrefix op place c)
  | .operator op args, c =>
    let (texts, c) := emitAll args c
    (operatorText op args texts, c)
  | .conditional condition ifTrue ifFalse, c =>
    let (conditionText, c) := emit condition c
    let (trueText, c) := emit ifTrue c
    let (falseText, c) := emit ifFalse c
    (callText "if" [wrap condition conditionText, wrap ifTrue trueText, wrap ifFalse falseText], c)
  | .symbol name, c =>
    if calledConstants.contains name then (callText name [], c.addChange name none) else (name, c)

/-- The converted texts of formulas, from left to right. -/
def emitAll : List Formula → Context → List String × Context
  | [], c => ([], c)
  | formula :: formulas, c =>
    let (text, c) := emit formula c
    let (texts, c) := emitAll formulas c
    (text :: texts, c)

end

end FormulaUpgrade.Conversion
