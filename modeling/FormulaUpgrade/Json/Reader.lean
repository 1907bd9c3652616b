import FormulaUpgrade.Json.StringBody
import FormulaUpgrade.Json.Value

/-! # Reading JSON text

The reader accepts the JSON grammar and the numbers `NaN`, `Infinity` and `-Infinity`. It stops at
the first problem, at too deep a nesting, and at an integer too long to convert.
-/

namespace FormulaUpgrade.Json

open Decimal

inductive Container where
  | array
  | object
deriving DecidableEq, Repr

/-- What stops the reader, with indices into the text. -/
inductive Stop where
  | problem (problem : Problem) (index : Nat)
  | tooDeep (container : Container)
  | longInteger (digits : Nat)
deriving DecidableEq, Repr

/-- A value read, the index behind it, and what follows. -/
abbrev Read (α : Type) := Except Stop (α × Nat × List Char)

/-! ## Blanks -/

def isBlank (c : Char) : Bool :=
  c == ' ' || c == '\t' || c == '\n' || c == '\r'

def skipBlanks (pos : Nat) (cs : List Char) : Nat × List Char :=
  (pos + (cs.takeWhile isBlank).length, cs.dropWhile isBlank)

/-! ## Numbers -/

def isDigit (c : Char) : Bool :=
  '0' ≤ c && c ≤ '9'

/-- The number written by decimal digits. -/
def digitsValue (ds : List Char) : Nat :=
  ds.foldl (fun n d => n * 10 + (d.toNat - 0x30)) 0

theorem foldl_digits_lt {ds : List Char} (h : ∀ d ∈ ds, isDigit d) (n : Nat) :
    ds.foldl (fun n d => n * 10 + (d.toNat - 0x30)) n < (n + 1) * Nat.pow 10 ds.length := by
  induction ds generalizing n with
  | nil => simp
  | cons d ds ih =>
      rw [List.forall_mem_cons] at h
      have hd : d.toNat - 0x30 ≤ 9 := by
        have hle : d ≤ '9' := by simp_all [isDigit]
        have : d.toNat ≤ 0x39 := hle
        omega
      calc ds.foldl (fun n d => n * 10 + (d.toNat - 0x30)) (n * 10 + (d.toNat - 0x30))
          < (n * 10 + (d.toNat - 0x30) + 1) * Nat.pow 10 ds.length := ih h.2 _
        _ ≤ (n + 1) * 10 * Nat.pow 10 ds.length := Nat.mul_le_mul_right _ (by omega)
        _ = (n + 1) * (Nat.pow 10 ds.length * 10) := by rw [Nat.mul_assoc, Nat.mul_comm 10]

theorem digitsValue_lt {ds : List Char} (h : ∀ d ∈ ds, isDigit d) {limit : Nat}
    (hlength : ds.length ≤ limit) : digitsValue ds < Nat.pow 10 limit := by
  have hvalue : digitsValue ds < Nat.pow 10 ds.length := by
    simpa [digitsValue] using foldl_digits_lt h 0
  exact Nat.lt_of_lt_of_le hvalue (Nat.pow_le_pow_right (by decide) hlength)

/-- The integer written by digits, with or without a sign in front of them. -/
def Integer.ofDigits (negative : Bool) (ds : List Char) (hdigits : ∀ d ∈ ds, isDigit d)
    (hlength : ds.length ≤ digitLimit) : Integer where
  value := if negative then -digitsValue ds else digitsValue ds
  short := by
    have hvalue := digitsValue_lt hdigits hlength
    split
    · rwa [Int.natAbs_neg, Int.natAbs_natCast]
    · rwa [Int.natAbs_natCast]

/-- The whole part of a number: a zero, or digits that do not start with one. -/
def wholePart : List Char → List Char × List Char
  | [] => ([], [])
  | c :: cs =>
    if c = '0' then (['0'], cs)
    else if isDigit c then (c :: cs.takeWhile isDigit, cs.dropWhile isDigit)
    else ([], c :: cs)

theorem isDigit_of_mem_wholePart {cs : List Char} : ∀ d ∈ (wholePart cs).1, isDigit d := by
  fun_cases wholePart cs with
  | case1 => simp
  | case2 cs => simp [isDigit]
  | case3 c cs hzero hc =>
      refine List.forall_mem_cons.mpr ⟨hc, fun d hd => ?_⟩
      exact List.all_eq_true.mp List.all_takeWhile d hd
  | case4 c cs hzero hc => simp

/-- The digits behind a point, if there are any. -/
def fractionPart : List Char → Option (List Char × List Char)
  | '.' :: cs =>
    if (cs.takeWhile isDigit).isEmpty then none
    else some (cs.takeWhile isDigit, cs.dropWhile isDigit)
  | _ => none

/-- The sign and the digits of an exponent, if it has digits, and the length of the sign. -/
def exponentPart : List Char → Option (Bool × Nat × List Char × List Char)
  | [] => none
  | c :: cs =>
    if c = 'e' ∨ c = 'E' then
      let (negative, width, cs) :=
        match cs with
        | '-' :: cs => (true, 1, cs)
        | '+' :: cs => (false, 1, cs)
        | cs => (false, 0, cs)
      if (cs.takeWhile isDigit).isEmpty then none
      else some (negative, width, cs.takeWhile isDigit, cs.dropWhile isDigit)
    else none

/-- Reads a number. A point or an exponent without digits is left unread. -/
def number (pos : Nat) (cs : List Char) : Read Value :=
  let (negative, signWidth, unsigned) :=
    match cs with
    | '-' :: cs => (true, 1, cs)
    | cs => (false, 0, cs)
  let whole := (wholePart unsigned).1
  let rest := (wholePart unsigned).2
  if whole.isEmpty then .error (.problem .expectingValue pos)
  else
    let pos := pos + signWidth + whole.length
    let fraction := fractionPart rest
    let (fractionDigits, pos, rest) :=
      match fraction with
      | some (ds, rest) => (ds, pos + 1 + ds.length, rest)
      | none => ([], pos, rest)
    let power := exponentPart rest
    let (exponent, pos, rest) : Int × Nat × List Char :=
      match power with
      | some (below, width, ds, rest) =>
        let n : Int := digitsValue ds
        (if below then -n else n, pos + 1 + width + ds.length, rest)
      | none => (0, pos, rest)
    if fraction.isNone && power.isNone then
      if hlength : whole.length ≤ digitLimit then
        .ok (.int (.ofDigits negative whole isDigit_of_mem_wholePart hlength), pos, rest)
      else .error (.longInteger whole.length)
    else
      let digits := whole ++ fractionDigits
      let value := Binary64.ofDecimal negative (digitsValue digits) digits.length
        (exponent - fractionDigits.length)
      .ok (.float value, pos, rest)

/-! ## Words -/

def words : List (List Char × Value) := [
  ("null".toList, .null), ("true".toList, .bool true), ("false".toList, .bool false),
  ("NaN".toList, .float .nan), ("Infinity".toList, .float (.infinite false)),
  ("-Infinity".toList, .float (.infinite true))]

def word? (pos : Nat) (cs : List Char) : Option (Value × Nat × List Char) :=
  words.findSome? fun (text, value) =>
    if text.isPrefixOf cs then some (value, pos + text.length, cs.drop text.length) else none

/-! ## Values -/

def string [Host] (pos : Nat) (cs : List Char) : Read String :=
  match stringBody true pos cs with
  | .ok read => .ok read
  | .error (problem, index) => .error (.problem problem index)

mutual

/-- Reads the value at the head of the text, at the given depth of nesting. The fuel bounds the number
of steps and exceeds the length of the text. -/
def value [Host] (fuel depth pos : Nat) (cs : List Char) : Read Value :=
  match fuel with
  | 0 => .error (.problem .expectingValue pos)
  | fuel + 1 =>
    match cs with
    | '"' :: cs =>
      match string pos cs with
      | .ok (text, rest) => .ok (.string text, rest)
      | .error e => .error e
    | '[' :: cs =>
      if Host.jsonNestingLimit ≤ depth then .error (.tooDeep .array)
      else
        match skipBlanks (pos + 1) cs with
        | (pos, ']' :: cs) => .ok (.array [], pos + 1, cs)
        | (pos, cs) =>
          match items fuel (depth + 1) pos cs with
          | .ok (values, rest) => .ok (.array values, rest)
          | .error e => .error e
    | '\x7b' :: cs =>
      if Host.jsonNestingLimit ≤ depth then .error (.tooDeep .object)
      else
        match skipBlanks (pos + 1) cs with
        | (pos, '\x7d' :: cs) => .ok (.object [], pos + 1, cs)
        | (pos, cs) =>
          match members fuel (depth + 1) pos cs with
          | .ok (entries, rest) => .ok (.object entries, rest)
          | .error e => .error e
    | cs =>
      match word? pos cs with
      | some read => .ok read
      | none => number pos cs

/-- Reads one or more items up to the closing bracket. -/
def items [Host] (fuel depth pos : Nat) (cs : List Char) : Read (List Value) :=
  match fuel with
  | 0 => .error (.problem .expectingValue pos)
  | fuel + 1 =>
    match value fuel depth pos cs with
    | .error e => .error e
    | .ok (v, pos, cs) =>
      match skipBlanks pos cs with
      | (pos, ']' :: cs) => .ok ([v], pos + 1, cs)
      | (pos, ',' :: cs) =>
        let (pos, cs) := skipBlanks (pos + 1) cs
        match items fuel depth pos cs with
        | .ok (vs, rest) => .ok (v :: vs, rest)
        | .error e => .error e
      | (pos, _) => .error (.problem .expectingComma pos)

/-- Reads one or more members up to the closing brace. -/
def members [Host] (fuel depth pos : Nat) (cs : List Char) : Read (List (String × Value)) :=
  match fuel with
  | 0 => .error (.problem .expectingValue pos)
  | fuel + 1 =>
    match cs with
    | '"' :: cs =>
      match string pos cs with
      | .error e => .error e
      | .ok (name, pos, cs) =>
        match skipBlanks pos cs with
        | (pos, ':' :: cs) =>
          let (pos, cs) := skipBlanks (pos + 1) cs
          match value fuel depth pos cs with
          | .error e => .error e
          | .ok (v, pos, cs) =>
            match skipBlanks pos cs with
            | (pos, '\x7d' :: cs) => .ok ([(name, v)], pos + 1, cs)
            | (pos, ',' :: cs) =>
              let (pos, cs) := skipBlanks (pos + 1) cs
              match members fuel depth pos cs with
              | .ok (entries, rest) => .ok ((name, v) :: entries, rest)
              | .error e => .error e
            | (pos, _) => .error (.problem .expectingComma pos)
        | (pos, _) => .error (.problem .expectingColon pos)
    | _ => .error (.problem .expectingName pos)

end

/-! ## Whole texts -/

/-- Why a text could not be read. -/
inductive ReadError where
  | malformed (fault : Fault)
  | tooDeep (container : Container)
  | longInteger (digits : Nat)
deriving DecidableEq, Repr

def ReadError.message : ReadError → String
  | .malformed fault => fault.message
  | .tooDeep .array =>
    "maximum recursion depth exceeded while decoding a JSON array from a unicode string"
  | .tooDeep .object =>
    "maximum recursion depth exceeded while decoding a JSON object from a unicode string"
  | .longInteger digits =>
    "Exceeds the limit (" ++ toString digitLimit ++ " digits) for integer string conversion: value has "
      ++ toString digits ++ " digits; use sys.set_int_max_str_digits() to increase the limit"

def Stop.error (cs : List Char) : Stop → ReadError
  | .problem why index => .malformed (.at cs why index)
  | .tooDeep container => .tooDeep container
  | .longInteger digits => .longInteger digits

/-- Reads a text that holds a single value between blanks. -/
def read [Host] (cs : List Char) : Except ReadError Value :=
  if cs.head? = some '\uFEFF' then .error (.malformed (.at cs .byteOrderMark 0))
  else
    let (pos, body) := skipBlanks 0 cs
    match value (2 * cs.length + 2) 0 pos body with
    | .error stop => .error (stop.error cs)
    | .ok (v, pos, rest) =>
      match skipBlanks pos rest with
      | (_, []) => .ok v
      | (pos, _) => .error (.malformed (.at cs .extraData pos))

end FormulaUpgrade.Json
