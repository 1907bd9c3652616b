import FormulaUpgrade.Formula.Nesting
import FormulaUpgrade.Formula.Normal
import FormulaUpgrade.Log
import FormulaUpgrade.SyntaxTree.Nesting
import FormulaUpgrade.SyntaxTree.Parser

/-! # Reading formulas from text -/

namespace FormulaUpgrade.Formula

open Property

/-- What came of a text. -/
inductive Reading where
  | blank
  | rejected (error : ParseError)
  | tooDeep (tree : SyntaxTree)
  | normalized (tree : SyntaxTree) (result : Normal)

/-- Reads a text as a formula over declared properties. -/
def Reading.of [Host] (declared : Declared) (s : String) : Reading :=
  if Text.isAllBlank s then .blank
  else
    match SyntaxTree.parse s with
    | .error e => .rejected e
    | .ok tree =>
      if nestingLimit < tree.nesting then .tooDeep tree else .normalized tree (normal declared tree)

/-- The message for a text of which no formula comes. -/
def couldNotParse : String := "Could not parse formula"

/-- The formula read, which is missing if there is none, and the messages of its errors. -/
def Reading.result : Reading → Normal
  | .blank => ⟨.missing, []⟩
  | .rejected _ | .tooDeep _ => ⟨.missing, [couldNotParse]⟩
  | .normalized _ result => if result.formula.isMissing then ⟨.missing, [couldNotParse]⟩ else result

/-- The formula of a text. -/
def parse [Host] (declared : Declared) (s : String) : Normal :=
  (Reading.of declared s).result

/-! ## Records -/

/-- The records of a text that was rejected. -/
def rejectionLog : ParseError → List Log.Record
  | .illegalCharacter fault =>
    [Log.debug fault.notice, Log.debug ("Unexpected parsing error: " ++ fault.message)]
  | _ => [Log.debug "Parse error encountered"]

/-- The records of a tree that was read. -/
def treeLog (tree : SyntaxTree) : List Log.Record :=
  [Log.debug ("Successfully parsed formula into " ++ tree.label),
    Log.debug ("Normalizing syntax tree rooted at " ++ tree.label)]

/-- The records of reading a text. -/
def Reading.log (s : String) : Reading → List Log.Record
  | .blank => [Log.debug "Empty formula, nothing to parse"]
  | .rejected e =>
    Log.debug ("Parsing formula: " ++ s) :: rejectionLog e ++
      [Log.debug "ParseError encountered during formula parsing",
        Log.debug ("Could not parse formula: " ++ e.message)]
  | .tooDeep tree =>
    Log.debug ("Parsing formula: " ++ s) :: treeLog tree ++
      [Log.debug "Formula is nested too deeply to normalize"]
  | .normalized tree result =>
    Log.debug ("Parsing formula: " ++ s) :: treeLog tree ++
      [Log.debug ("Normalization complete: " ++ result.formula.label ++ ", " ++
        toString result.errors.length ++ " errors")]

end FormulaUpgrade.Formula
