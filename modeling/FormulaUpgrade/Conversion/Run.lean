import FormulaUpgrade.Conversion.Emit
import FormulaUpgrade.Formula.Reading

/-! # Converting formula text -/

namespace FormulaUpgrade.Conversion

open Property

/-- The message for a formula that is nested too deeply. -/
def tooDeep : String := "Formula is nested too deeply"

/-- A result and the log records of the way to it. -/
structure Run where
  result : Result
  log : List Log.Record

/-- Records messages as issues. -/
def addMessages (messages : List String) (c : Context) : Context :=
  messages.foldl (fun c message => c.addIssue "parserError" (some message)) c

/-- The outcome for what was read. Without a formula, the messages are the issues. -/
def runFormula [Host] (read : Formula.Normal) : Run :=
  if read.formula.isMissing then
    let c := addMessages read.errors .empty
    ⟨c.result "", c.log⟩
  else if nestingLimit < read.formula.nesting then
    let c := addMessages [tooDeep] .empty
    ⟨c.result "", Log.debug "Formula tree is nested too deeply to rewrite" :: c.log⟩
  else
    let (text, c) := emit read.formula .empty
    let result := c.result text
    ⟨result, c.log ++ [Log.conversionSummary result.formula result.changes.length
      result.issues.length result.references.length]⟩

/-- Converts a formula text over declared properties. -/
def run [Host] (declared : Declared) (s : String) : Run :=
  if s.isEmpty then ⟨.empty, []⟩
  else
    let reading := Formula.Reading.of declared s
    let outcome := runFormula reading.result
    ⟨outcome.result, Log.conversionStart s declared.size ++ reading.log s ++ outcome.log⟩

/-- The conversion of a formula text. -/
def convert [Host] (declared : Declared) (s : String) : Result :=
  (run declared s).result

/-- Converts a text with one table of declarations after the other, each time the text that came
before. -/
def convertChain [Host] : List Declared → String → List Result
  | [], _ => []
  | declared :: rest, s =>
    let result := convert declared s
    result :: convertChain rest result.formula

end FormulaUpgrade.Conversion
