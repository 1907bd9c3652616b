import FormulaUpgrade.Host
import FormulaUpgrade.Text.Quoted

/-! # Writing texts that hold surrogates

UTF-8 has no form for a surrogate. Diagnostics show it as an escape, and a strict stream refuses the
text.
-/

namespace FormulaUpgrade.Text

/-- The code points of a text. -/
def points [Host] (s : String) : List Nat :=
  s.toList.map fun c => (surrogate? c).getD c.toNat

/-- The escape that shows a surrogate. -/
def surrogateEscape (surrogate : Nat) : List Char :=
  '\\' :: 'u' :: hexDigits 4 surrogate

/-- A text with escapes in the place of its surrogates. -/
def escapeSurrogates [Host] (s : String) : String :=
  String.ofList (s.toList.flatMap fun c =>
    match surrogate? c with
    | some surrogate => surrogateEscape surrogate
    | none => [c])

/-- A text in quotes, with its surrogates escaped. -/
def shown [Host] (s : String) : String :=
  escapeSurrogates (quoted s)

/-- Why a text cannot be encoded: the first of its surrogates, and where the run of surrogates starts
and stops. -/
structure EncodeFault where
  surrogate : Nat
  start : Nat
  stop : Nat
deriving DecidableEq, Repr

/-- A single surrogate is named, a run of them is told by its positions. -/
def EncodeFault.message (f : EncodeFault) : String :=
  let run :=
    if f.stop = f.start + 1 then
      "character '" ++ String.ofList (surrogateEscape f.surrogate) ++ "' in position " ++
        toString f.start
    else
      "characters in position " ++ toString f.start ++ "-" ++ toString (f.stop - 1)
  "'utf-8' codec can't encode " ++ run ++ ": surrogates not allowed"

/-- The first surrogates of characters from position `pos` on. -/
def encodeFaultFrom? [Host] (pos : Nat) : List Char → Option EncodeFault
  | [] => none
  | c :: cs =>
    match surrogate? c with
    | none => encodeFaultFrom? (pos + 1) cs
    | some surrogate =>
      some ⟨surrogate, pos, pos + 1 + (cs.takeWhile fun c => (surrogate? c).isSome).length⟩

/-- What keeps a text from being encoded. -/
def encodeFault? [Host] (s : String) : Option EncodeFault :=
  encodeFaultFrom? 0 s.toList

end FormulaUpgrade.Text
