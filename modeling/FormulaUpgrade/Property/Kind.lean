import FormulaUpgrade.Json.Display

/-! # Kinds of properties -/

namespace FormulaUpgrade

/-- What a property holds, as far as its reading has changed. -/
inductive Property.Kind where
  | person
  | relation
  | rollup
  | id
  | file
  | multiSelect
  | other
deriving DecidableEq, Repr

namespace Property.Kind

/-- All kinds, in the order in which they are offered. -/
def all : List Kind :=
  [.person, .relation, .rollup, .id, .file, .multiSelect, .other]

def tag : Kind → String
  | .person => "person"
  | .relation => "relation"
  | .rollup => "rollup"
  | .id => "id"
  | .file => "file"
  | .multiSelect => "multi-select"
  | .other => "other"

def tags : List String :=
  all.map tag

/-- The tags of the kinds whose references are converted. -/
def changingTags : List String :=
  (all.filter (· ≠ .other)).map tag

def tagList : String :=
  ", ".intercalate tags

def ofTag? (t : String) : Option Kind :=
  all.find? (·.tag = t)

theorem ofTag?_tag (k : Kind) : ofTag? k.tag = some k := by
  cases k <;> decide

end Property.Kind

/-- A declared type that is no kind of property. -/
structure Property.UnknownTag where
  value : Json.Value

def Property.UnknownTag.message [Host] (e : UnknownTag) : String :=
  "Unknown property type '" ++ e.value.plain ++ "' (expected one of: " ++ Kind.tagList ++ ")"

/-- The kind that a declared type names. -/
def Property.Kind.ofValue : Json.Value → Except UnknownTag Kind
  | .string t =>
    match ofTag? t with
    | some kind => .ok kind
    | none => .error ⟨.string t⟩
  | value => .error ⟨value⟩

end FormulaUpgrade
