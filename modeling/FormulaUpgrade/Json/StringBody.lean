import FormulaUpgrade.Json.Fault
import FormulaUpgrade.Host
import FormulaUpgrade.Text.Hex

/-! # Reading JSON strings -/

namespace FormulaUpgrade.Json

/-- What a single character after a backslash stands for. -/
def escaped? : Char → Option Char
  | '"' => some '"'
  | '\\' => some '\\'
  | '/' => some '/'
  | 'b' => some '\x08'
  | 'f' => some '\x0c'
  | 'n' => some '\n'
  | 'r' => some '\r'
  | 't' => some '\t'
  | _ => none

/-- The number written by four hexadecimal digits. -/
def codeUnit? (h₁ h₂ h₃ h₄ : Char) : Option Nat :=
  match Text.hexValue? h₁, Text.hexValue? h₂, Text.hexValue? h₃, Text.hexValue? h₄ with
  | some a, some b, some c, some d => some (((a * 16 + b) * 16 + c) * 16 + d)
  | _, _, _, _ => none

def isHighSurrogate (n : Nat) : Bool :=
  0xD800 ≤ n && n < 0xDC00

def isLowSurrogate (n : Nat) : Bool :=
  0xDC00 ≤ n && n < 0xE000

def isSurrogate (n : Nat) : Bool :=
  isHighSurrogate n || isLowSurrogate n

/-- The code point that a surrogate pair stands for. -/
def joinSurrogates (high low : Nat) : Nat :=
  0x10000 + (high - 0xD800) * 0x400 + (low - 0xDC00)

/-- The code points of code units: a high surrogate joins the low one behind it. A surrogate without
its partner stays as it is. -/
def pointsOfUnits : List Nat → List Nat
  | [] => []
  | [unit] => [unit]
  | high :: low :: units =>
    if isHighSurrogate high && isLowSurrogate low then
      joinSurrogates high low :: pointsOfUnits units
    else high :: pointsOfUnits (low :: units)

/-- The character of a code point, or the one that stands for a surrogate. -/
def charOfPoint [Host] (n : Nat) : Char :=
  if isSurrogate n then Text.standIn n else Char.ofNat n

def textOfPoints [Host] (points : List Nat) : String :=
  String.ofList (points.map charOfPoint)

/-- The code units of a string, the index behind its closing quote, and what follows. -/
abbrev StringUnits := List Nat × Nat × List Char

/-- Puts a code unit in front of those read behind it. -/
def consUnit (unit : Nat) : Except (Problem × Nat) StringUnits → Except (Problem × Nat) StringUnits
  | .ok (units, rest) => .ok (unit :: units, rest)
  | .error e => .error e

/-- Reads a string behind the quote at index `opening`. Unless `strict`, control characters may stand
as they are. A `\u` escape must not end the text. -/
def stringUnits (strict : Bool) (opening : Nat) :
    Nat → List Char → Except (Problem × Nat) StringUnits
  | _, [] => .error (.unterminatedString, opening)
  | pos, '\\' :: 'u' :: h₁ :: h₂ :: h₃ :: h₄ :: cs =>
    match codeUnit? h₁ h₂ h₃ h₄, cs.isEmpty with
    | some unit, false => consUnit unit (stringUnits strict opening (pos + 6) cs)
    | _, _ => .error (.invalidUnicodeEscape, pos + 1)
  | pos, '\\' :: c :: cs =>
    if c = 'u' then .error (.invalidUnicodeEscape, pos + 1)
    else
      match escaped? c with
      | none => .error (.invalidEscape, pos)
      | some e => consUnit e.toNat (stringUnits strict opening (pos + 2) cs)
  | pos, c :: cs =>
    if c = '"' then .ok ([], pos + 1, cs)
    else if c = '\\' then .error (.unterminatedString, opening)
    else if strict && c.toNat < 0x20 then .error (.controlCharacter, pos)
    else consUnit c.toNat (stringUnits strict opening (pos + 1) cs)

/-- The code points of a string behind the quote at index `opening`, the index behind its closing
quote, and what follows. -/
def stringPoints (strict : Bool) (opening : Nat) (cs : List Char) :
    Except (Problem × Nat) (List Nat × Nat × List Char) :=
  match stringUnits strict opening (opening + 1) cs with
  | .ok (units, rest) => .ok (pointsOfUnits units, rest)
  | .error e => .error e

/-- The text of a string behind the quote at index `opening`, the index behind its closing quote, and
what follows. -/
def stringBody [Host] (strict : Bool) (opening : Nat) (cs : List Char) :
    Except (Problem × Nat) (String × Nat × List Char) :=
  match stringPoints strict opening cs with
  | .ok (points, rest) => .ok (textOfPoints points, rest)
  | .error e => .error e

end FormulaUpgrade.Json
