import FormulaUpgrade.Json.StringBody

/-! # The code points that a text mentions

A text mentions its characters, and whatever its escapes may stand for.
-/

namespace FormulaUpgrade.Json

/-- The first and the last code point that a code unit may stand for. Any low surrogate may follow a
high one. -/
def unitRange (unit : Nat) : Nat × Nat :=
  if isHighSurrogate unit then (joinSurrogates unit 0xDC00, joinSurrogates unit 0xDFFF)
  else (unit, unit)

/-- The code unit written by the first four characters. -/
def leadingUnit? : List Char → Option Nat
  | h₁ :: h₂ :: h₃ :: h₄ :: _ => codeUnit? h₁ h₂ h₃ h₄
  | _ => none

end FormulaUpgrade.Json

namespace FormulaUpgrade.Text.Block

open Json

/-- Whether a block has none of the code points from the first to the last of a range. -/
def avoids (block : Block) (range : Nat × Nat) : Bool :=
  range.2 < block.start || block.start + 0x800 ≤ range.1

/-- Whether a text mentions none of a block's characters. -/
def isFree (block : Block) : List Char → Bool
  | [] => true
  | c :: cs =>
    block.avoids (c.toNat, c.toNat) && (leadingUnit? (c :: cs)).all (block.avoids <| unitRange ·) &&
      block.isFree cs

/-- The block that starts at a code point, if it holds characters only. -/
def at? (start : Nat) : Option Block :=
  if h : start + 0x800 ≤ 0xD800 ∨ 0xE000 ≤ start ∧ start + 0x800 ≤ 0x110000 then some ⟨start, h⟩
  else none

/-- Blocks of ideographs and syllables, which are shown as they are wherever text is quoted. -/
def candidates : List Block :=
  let rows (first count : Nat) := (List.range count).map fun row => first + 0x800 * row
  (rows 0x3400 3 ++ rows 0x4E00 10 ++ rows 0xAC00 5 ++ rows 0x20000 20).filterMap at?

/-- A block that a text does not mention. There is one unless the text mentions all candidates. -/
def unmentioned (cs : List Char) : Block :=
  (candidates.find? (·.isFree cs)).getD ⟨0x3400, by decide⟩

end FormulaUpgrade.Text.Block
