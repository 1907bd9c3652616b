import FormulaUpgrade.Json.Value
import FormulaUpgrade.Text.Hex

/-! # Writing JSON text -/

namespace FormulaUpgrade.Json

/-- A character inside a string: the quote, the backslash and control characters are escaped. -/
def escapeChar (c : Char) : List Char :=
  if c = '"' then ['\\', '"']
  else if c = '\\' then ['\\', '\\']
  else if c = '\n' then ['\\', 'n']
  else if c = '\r' then ['\\', 'r']
  else if c = '\t' then ['\\', 't']
  else if c = '\x08' then ['\\', 'b']
  else if c = '\x0c' then ['\\', 'f']
  else if c.toNat < 0x20 then '\\' :: 'u' :: Text.hexDigits 4 c.toNat
  else [c]

def quoteChars (cs : List Char) : List Char :=
  '"' :: cs.flatMap escapeChar ++ ['"']

/-- A text as a JSON string. -/
def quote (s : String) : String :=
  String.ofList (quoteChars s.toList)

/-- A line break and the indentation of a level. -/
def newline (level : Nat) : String :=
  "\n" ++ String.ofList (List.replicate (2 * level) ' ')

/-- Items on lines of their own between two brackets; nothing stands between them without items. -/
def layout (opening closing : String) (level : Nat) (items : List String) : String :=
  if items.isEmpty then opening ++ closing
  else
    opening ++ newline (level + 1) ++ ("," ++ newline (level + 1)).intercalate items ++
      newline level ++ closing

/-- A document of texts, lists and records, as results are written. -/
inductive Document where
  | null
  | string (value : String)
  | list (items : List Document)
  | record (fields : List (String × Document))

mutual

/-- The text of a document, indented by two spaces a level. -/
def Document.write (level : Nat) : Document → String
  | .null => "null"
  | .string value => quote value
  | .list items => layout "[" "]" level (writeItems (level + 1) items)
  | .record fields => layout "\x7b" "\x7d" level (writeFields (level + 1) fields)

def writeItems (level : Nat) : List Document → List String
  | [] => []
  | item :: items => item.write level :: writeItems level items

def writeFields (level : Nat) : List (String × Document) → List String
  | [] => []
  | (name, value) :: fields => (quote name ++ ": " ++ value.write level) :: writeFields level fields

end

end FormulaUpgrade.Json
