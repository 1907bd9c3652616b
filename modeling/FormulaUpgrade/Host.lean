/-! # What a run fixes once

How deeply trees may be nested is up to the machine. And a text may hold surrogates without a partner,
which are no characters: a run keeps each of them by a character that stands for it, from a block
that nothing it reads mentions.
-/

namespace FormulaUpgrade

/-- As many characters in a row as there are surrogates. -/
structure Text.Block where
  start : Nat
  valid : start + 0x800 ≤ 0xD800 ∨ 0xE000 ≤ start ∧ start + 0x800 ≤ 0x110000
deriving DecidableEq, Repr

class Host where
  /-- Syntax trees and formulas may be nested this many steps of work deep. -/
  nestingLimit : Nat
  /-- JSON arrays and objects may be nested this deep. -/
  jsonNestingLimit : Nat
  /-- The characters that stand for the surrogates, in their order. -/
  standIns : Text.Block

export Host (nestingLimit)

/-- Limits as they are usual, and stand-ins that are rarely met. -/
@[reducible] def Host.usual : Host :=
  ⟨990, 990, ⟨0x20000, by decide⟩⟩

namespace Text

/-- The character that stands for a surrogate. -/
def standIn [Host] (surrogate : Nat) : Char :=
  Char.ofNat (Host.standIns.start + (surrogate - 0xD800))

/-- The surrogate that a character stands for. -/
def surrogate? [Host] (c : Char) : Option Nat :=
  let start := Host.standIns.start
  if start ≤ c.toNat ∧ c.toNat < start + 0x800 then some (0xD800 + (c.toNat - start)) else none

end Text

end FormulaUpgrade
