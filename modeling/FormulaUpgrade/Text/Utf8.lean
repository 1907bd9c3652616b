import FormulaUpgrade.Text.Hex

/-! # Decoding UTF-8

Bytes are read one at a time. A character of several bytes is pending until its last byte, and the
range allowed for its second byte excludes overlong forms, surrogates and values past the last code
point.
-/

namespace FormulaUpgrade.Text.Utf8

inductive Reason where
  | invalidStart
  | invalidContinuation
  | unexpectedEnd
deriving DecidableEq, Repr

/-- Why bytes are no UTF-8 text: the first byte of the faulty run, and where the run starts and
stops. -/
structure Fault where
  byte : UInt8
  start : Nat
  stop : Nat
  reason : Reason
deriving DecidableEq, Repr

def Reason.message : Reason → String
  | .invalidStart => "invalid start byte"
  | .invalidContinuation => "invalid continuation byte"
  | .unexpectedEnd => "unexpected end of data"

/-- A run of one byte is named by its value, a longer one by its positions. -/
def Fault.message (f : Fault) : String :=
  let run :=
    if f.stop = f.start + 1 then
      "byte 0x" ++ String.ofList (hexDigits 2 f.byte.toNat) ++ " in position " ++ toString f.start
    else
      "bytes in position " ++ toString f.start ++ "-" ++ toString (f.stop - 1)
  "'utf-8' codec can't decode " ++ run ++ ": " ++ f.reason.message

/-- A character whose last byte is still to come. -/
structure Pending where
  byte : UInt8
  start : Nat
  owed : Nat
  low : Nat
  high : Nat
  value : Nat
deriving DecidableEq, Repr

/-- What the first byte of a character announces. -/
inductive Lead where
  | whole
  | more (owed low high value : Nat)
  | invalid
deriving DecidableEq, Repr

/-- The bytes owed after a first byte, the range of the second, and the bits already known. -/
def lead (b : Nat) : Lead :=
  if b < 0x80 then .whole
  else if b < 0xC2 then .invalid
  else if b < 0xE0 then .more 1 0x80 0xBF (b - 0xC0)
  else if b = 0xE0 then .more 2 0xA0 0xBF 0
  else if b = 0xED then .more 2 0x80 0x9F 0xD
  else if b < 0xF0 then .more 2 0x80 0xBF (b - 0xE0)
  else if b = 0xF0 then .more 3 0x90 0xBF 0
  else if b = 0xF4 then .more 3 0x80 0x8F 4
  else if b < 0xF4 then .more 3 0x80 0xBF (b - 0xF0)
  else .invalid

/-- Decodes the bytes from position `pos` on. -/
def decodeFrom (pos : Nat) : Option Pending → List UInt8 → Except Fault (List Char)
  | none, [] => .ok []
  | some p, [] => .error ⟨p.byte, p.start, pos, .unexpectedEnd⟩
  | none, b :: bs =>
    match lead b.toNat with
    | .whole => (Char.ofNat b.toNat :: ·) <$> decodeFrom (pos + 1) none bs
    | .more owed low high value => decodeFrom (pos + 1) (some ⟨b, pos, owed, low, high, value⟩) bs
    | .invalid => .error ⟨b, pos, pos + 1, .invalidStart⟩
  | some p, b :: bs =>
    if p.low ≤ b.toNat ∧ b.toNat ≤ p.high then
      let value := p.value * 64 + (b.toNat - 0x80)
      if p.owed ≤ 1 then
        (Char.ofNat value :: ·) <$> decodeFrom (pos + 1) none bs
      else
        decodeFrom (pos + 1) (some ⟨p.byte, p.start, p.owed - 1, 0x80, 0xBF, value⟩) bs
    else .error ⟨p.byte, p.start, pos, .invalidContinuation⟩

/-- The characters that the bytes stand for. -/
def decode (bytes : List UInt8) : Except Fault (List Char) :=
  decodeFrom 0 none bytes

end FormulaUpgrade.Text.Utf8
