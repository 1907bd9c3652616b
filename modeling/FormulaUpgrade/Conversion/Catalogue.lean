import FormulaUpgrade.Conversion.Context
import FormulaUpgrade.Conversion.Rules
import FormulaUpgrade.Property.Reference

/-! # Descriptions of changes and issues -/

namespace FormulaUpgrade.Conversion

open Property

/-- An example of a change: the same for every occurrence, or the reference that was converted. -/
inductive Example where
  | fixed (text : String)
  | reference (kind : Kind)
deriving DecidableEq, Repr

/-- The example for the context of a change. -/
def Example.show (e : Example) (context : String) : String :=
  match e with
  | .fixed text => text
  | .reference kind => context ++ " → " ++ kind.template.fill context

structure ChangeEntry where
  identifier : String
  description : String
  sample : Example
deriving DecidableEq, Repr

/-- An entry whose example is the same for every occurrence. -/
def fixedEntry (identifier description sample : String) : ChangeEntry :=
  ⟨identifier, description, .fixed sample⟩

/-- The entry of a function that becomes an operator. -/
def operatorEntry (name op description : String) : ChangeEntry :=
  ⟨name, description, .fixed (name ++ "(1, 2) → 1 " ++ op ++ " 2")⟩

/-- The entry of a function that becomes an operator although it still exists. -/
def availableEntry (name op : String) : ChangeEntry :=
  operatorEntry name op
    (name ++ "() is converted to `" ++ op ++ "`. The function is still available in 2.0.")

/-- The entry of a function that is gone and has an operator in its place. -/
def removedEntry (name op : String) : ChangeEntry :=
  operatorEntry name op (name ++ "() is removed. Use '" ++ op ++ "' instead.")

/-- How a list of values is still read as the text it used to be. -/
def remapped : String :=
  "In the conversion, we re-map old prop references to the comma-separated text value to preserve outputs."

/-- The entry of a kind of property that used to be text and is now a list. -/
def listEntry (kind : Kind) (before after : String) : ChangeEntry :=
  ⟨kind.tag, "In 1.0, " ++ before ++ " In 2.0, they are a list of " ++ after ++ ". " ++ remapped,
    .reference kind⟩

/-- Every change that has a description. -/
def changeEntries : List ChangeEntry := [
  fixedEntry "slice"
    "slice() is now substring(). Note that slice() still exists, but it is now a list function."
    "slice(\"abc\", 1, 2) → substring(\"abc\", 1, 2)",
  fixedEntry "start" "start() is now dateStart()."
    "start(prop(\"Date\")) → dateStart(prop(\"Date\"))",
  fixedEntry "end" "end() is now dateEnd()." "end(prop(\"Date\")) → dateEnd(prop(\"Date\"))",
  fixedEntry "unaryMinus" "unaryMinus() is removed." "unaryMinus(1) → -1",
  fixedEntry "unaryPlus" "unaryPlus() is removed. Use 'toNumber' instead."
    "unaryPlus(\"1\") → toNumber(\"1\")",
  removedEntry "larger" ">",
  removedEntry "largerEq" ">=",
  removedEntry "smaller" "<",
  removedEntry "smallerEq" "<=",
  fixedEntry "not" "not() is removed. Use '!' instead." "not(true) → !true",
  operatorEntry "add" "+"
    "add() no longer supports text values. All usages of add are converted to '+' for safety.",
  fixedEntry "month"
    "month() is now 1-indexed instead of 0-indexed. All existing usages of month subtract 1."
    "month(x) → month(x) - 1",
  fixedEntry "day"
    "day() is now 1-indexed instead of 0-indexed. All usages of day are taken mod 7."
    "day(x) → day(x) % 7",
  fixedEntry "join"
    "join() is now a list function and doesn't work for regular string params. All usages of join are converted to the new list format."
    "join(\",\", \"a\", \"b\", \"c\") → join([\"a\", \"b\", \"c\"], \",\")",
  availableEntry "subtract" "-",
  availableEntry "multiply" "*",
  availableEntry "divide" "/",
  availableEntry "pow" "^",
  availableEntry "mod" "%",
  availableEntry "equal" "==",
  availableEntry "unequal" "!=",
  fixedEntry "concat"
    "concat() is now only used for lists, so existing usages were converted to `+`."
    "concat(\"a\", \"b\") → \"a\" + \"b\"",
  fixedEntry "+" "+ as a unary operator is now removed. Use toNumber instead."
    "+\"1\" → toNumber(\"1\")",
  listEntry .person "Person properties returned comma-separated text values." "Person objects",
  listEntry .relation "Relation properties returned comma-separated text values." "Page objects",
  listEntry .file "File properties returned comma-separated text values." "text",
  listEntry .multiSelect "Multi-select properties returned comma-separated text values." "text",
  listEntry .rollup
    "Rollup properties that \"show original\" returned comma-separated text values (without a space)."
    "objects",
  ⟨"id",
    "In 1.0, ID properties returned the ID number. In 2.0, they return a string with the prefix, e.g. \"TASK-123\". In the conversion, we re-map prop references to the ID number to preserve outputs.",
    .reference .id⟩,
  fixedEntry "pi" "pi is now referred to with parentheses, like pi()." "pi → pi()",
  fixedEntry "e" "e is now referred to with parentheses, like e()." "e → e()"]

def changeEntry? (identifier : String) : Option ChangeEntry :=
  changeEntries.find? (·.identifier = identifier)

/-- Every issue that has a description, and the text around its context. -/
def issueEntries : List (String × Template) := [
  ("operatorNoArgs", ⟨"Operator ", " with no arguments"⟩),
  ("operatorIncorrectArgs", ⟨"Operator ", " called with incorrect arguments"⟩),
  ("parserError", ⟨"Parser error: ", ""⟩)]

/-! ## Explanations -/

structure Explanation where
  identifier : String
  description : String
  sample : String
deriving DecidableEq, Repr

/-- A change without a description. -/
structure UnknownChange where
  identifier : String
deriving DecidableEq, Repr

def UnknownChange.message (e : UnknownChange) : String :=
  Text.quoted e.identifier

/-- The explanation of a change. -/
def Change.explain (c : Change) : Except UnknownChange Explanation :=
  match changeEntry? c.identifier with
  | none => .error ⟨c.identifier⟩
  | some entry =>
    .ok ⟨c.identifier, entry.description, entry.sample.show (c.context.getD "")⟩

/-- The message of an issue. One without a description is named by its identifier. -/
def Issue.message (i : Issue) : String :=
  match issueEntries.lookup i.identifier with
  | none => i.text
  | some template => template.fill (i.context.getD "")

end FormulaUpgrade.Conversion
