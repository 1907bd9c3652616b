import FormulaUpgrade.Json.Reader
import FormulaUpgrade.Text.Quoted

/-! # String literals of formulas

A literal stands in double quotes or in apostrophes and uses the escapes of JSON. In apostrophes, an
escaped apostrophe stands for itself and a double quote needs no escape.
-/

namespace FormulaUpgrade.StringLiteral

open Text

/-- The inside of a literal in apostrophes, as it reads in double quotes. -/
def requoteBody : List Char → List Char
  | [] => []
  | '\\' :: c :: cs =>
    if c = apostrophe then c :: requoteBody cs else '\\' :: c :: requoteBody cs
  | c :: cs => if c = '"' then '\\' :: '"' :: requoteBody cs else c :: requoteBody cs

def requoteChars (cs : List Char) : List Char :=
  if cs.head? = some '"' then cs else '"' :: requoteBody (cs.drop 1).dropLast ++ ['"']

/-- The literal in double quotes. A literal that already stands in them is unchanged. -/
def requote (s : String) : String :=
  String.ofList (requoteChars s.toList)

/-- The code points of a literal in double quotes; control characters may stand in it as they are. -/
def pointsOfQuoted (cs : List Char) : Except Json.Fault (List Nat) :=
  match Json.stringPoints false 0 (cs.drop 1) with
  | .error (problem, index) => .error (.at cs problem index)
  | .ok (points, pos, rest) =>
    match Json.skipBlanks pos rest with
    | (_, []) => .ok points
    | (pos, _) => .error (.at cs .extraData pos)

/-- The code points that a literal stands for. A surrogate that is written without its partner is one
of them. -/
def codePoints (s : String) : Except Json.Fault (List Nat) :=
  pointsOfQuoted (requoteChars s.toList)

/-- The text that a literal stands for. -/
def value [Host] (s : String) : Except Json.Fault String :=
  (codePoints s).map Json.textOfPoints

end FormulaUpgrade.StringLiteral
