import FormulaUpgrade.Text.Lines

/-! # Why a text is no JSON -/

namespace FormulaUpgrade.Json

inductive Problem where
  | expectingValue
  | expectingName
  | expectingColon
  | expectingComma
  | extraData
  | unterminatedString
  | controlCharacter
  | invalidEscape
  | invalidUnicodeEscape
  | byteOrderMark
deriving DecidableEq, Repr

def Problem.message : Problem → String
  | .expectingValue => "Expecting value"
  | .expectingName => "Expecting property name enclosed in double quotes"
  | .expectingColon => "Expecting ':' delimiter"
  | .expectingComma => "Expecting ',' delimiter"
  | .extraData => "Extra data"
  | .unterminatedString => "Unterminated string starting at"
  | .controlCharacter => "Invalid control character at"
  | .invalidEscape => "Invalid \\escape"
  | .invalidUnicodeEscape => "Invalid \\uXXXX escape"
  | .byteOrderMark => "Unexpected UTF-8 BOM (decode using utf-8-sig)"

/-- A problem and the place where it shows. -/
structure Fault where
  problem : Problem
  place : Text.Place
deriving DecidableEq, Repr

def Fault.message (f : Fault) : String :=
  f.problem.message ++ ": " ++ f.place.show

/-- The fault of a text that has a problem at an index. -/
def Fault.at (cs : List Char) (problem : Problem) (index : Nat) : Fault :=
  ⟨problem, Text.placeOf cs index⟩

end FormulaUpgrade.Json
