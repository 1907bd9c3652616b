import FormulaUpgrade.Text.Hex
import FormulaUpgrade.Text.Printable

/-! # Quoted text in messages

Messages quote a name or a pair so that its ends and its unusual characters can be seen.
-/

namespace FormulaUpgrade.Text

/-- The character that opens and closes a single-quoted text. -/
def apostrophe : Char := '\x27'

/-- Apostrophes quote a text, unless it holds one and no double quote. -/
def quoteMark (cs : List Char) : Char :=
  if cs.contains apostrophe && !cs.contains '"' then '"' else apostrophe

/-- A character inside a text quoted with `mark`: the mark, the backslash, and whatever is not
printable are escaped, with the shortest escape that holds the code point. -/
def escapeChar (mark c : Char) : List Char :=
  if c = mark ∨ c = '\\' then ['\\', c]
  else if c = '\n' then ['\\', 'n']
  else if c = '\r' then ['\\', 'r']
  else if c = '\t' then ['\\', 't']
  else if isPrintable c then [c]
  else if c.toNat < 0x100 then '\\' :: 'x' :: hexDigits 2 c.toNat
  else if c.toNat < 0x10000 then '\\' :: 'u' :: hexDigits 4 c.toNat
  else '\\' :: 'U' :: hexDigits 8 c.toNat

/-- A text in quotes, as messages show it. -/
def quoted (s : String) : String :=
  let mark := quoteMark s.toList
  String.ofList (mark :: s.toList.flatMap (escapeChar mark) ++ [mark])

end FormulaUpgrade.Text
