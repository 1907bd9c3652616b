import FormulaUpgrade.Token.Lexeme

/-! # Splitting a text into tokens -/

namespace FormulaUpgrade.Lexer

open Token

/-- The characters between tokens. -/
def isIgnored (c : Char) : Bool :=
  c == ' ' || c == '\t' || c == '\r' || c == '\n'

/-- A character that starts no token, and its index. -/
structure Fault where
  char : Char
  index : Nat
deriving DecidableEq, Repr

/-- The error that ends the reading. -/
def Fault.message (f : Fault) : String :=
  s!"Illegal character '{f.char}' encountered at position {f.index}"

/-- The diagnostic written when the character is met. -/
def Fault.notice (f : Fault) : String :=
  s!"Illegal character '{f.char}' at position {f.index}"

/-- The tokens of a text up to its end or its first fault. -/
structure Scan where
  tokens : List Token
  fault : Option Fault
deriving DecidableEq, Repr

/-- Splits the characters from index `pos` on. -/
def scanFrom (pos : Nat) (cs : List Char) : Scan :=
  match cs with
  | [] => ⟨[], none⟩
  | c :: cs =>
    if isIgnored c then scanFrom (pos + 1) cs
    else
      match _h : Lexeme.lexeme? (c :: cs) with
      | none => ⟨[], some ⟨c, pos⟩⟩
      | some (kind, text, rest) =>
        let scan := scanFrom (pos + text.length) rest
        ⟨⟨kind, String.ofList text, pos⟩ :: scan.tokens, scan.fault⟩
termination_by cs.length
decreasing_by
  · simp
  · exact Lexeme.lexeme?_rest_lt _h

/-- The tokens of a text, in order. -/
def scan (s : String) : Scan :=
  scanFrom 0 s.toList

end FormulaUpgrade.Lexer
