/-! # Line ends and line positions -/

namespace FormulaUpgrade.Text

/-- Every way to end a line becomes a single line feed. -/
def unifyLineEnds : List Char → List Char
  | '\r' :: '\n' :: cs => '\n' :: unifyLineEnds cs
  | '\r' :: cs => '\n' :: unifyLineEnds cs
  | c :: cs => c :: unifyLineEnds cs
  | [] => []

/-- A place in a text as people count it: lines and columns from one, characters from zero. -/
structure Place where
  line : Nat
  column : Nat
  index : Nat
deriving DecidableEq, Repr

/-- The place of the character at `index`. -/
def placeOf (cs : List Char) (index : Nat) : Place :=
  let before := cs.take index
  { line := before.count '\n' + 1
    column := (before.reverse.takeWhile (· ≠ '\n')).length + 1 + (index - before.length)
    index := index }

/-- The place as messages give it. -/
def Place.show (p : Place) : String :=
  s!"line {p.line} column {p.column} (char {p.index})"

end FormulaUpgrade.Text
