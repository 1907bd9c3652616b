import FormulaUpgrade.Property.Kind
import FormulaUpgrade.Text.Blank

/-! # Types given to properties by name -/

namespace FormulaUpgrade.Property

/-- Property types as declared, not yet checked. -/
abbrev Declared := Table String Json.Value

/-- Property types by name. -/
abbrev Types := Table String Kind

/-- The kind of a property. A property without a declared type is of kind `other`. -/
def Declared.resolve (d : Declared) (name : String) : Except UnknownTag Kind :=
  match d.get? name with
  | none => .ok .other
  | some value => Kind.ofValue value

/-- Checked types as declarations. -/
def Types.declared (t : Types) : Declared :=
  t.map fun kind => .string kind.tag

/-! ## Checking declarations -/

/-- Why declarations cannot be used. -/
inductive MappingError where
  | badPair (pair : String)
  | nameNotText (shown : String)
  | typeNotText (name : String) (value : Json.Value)
  | unknownType (name : String) (tag : UnknownTag)

def MappingError.message [Host] : MappingError → String
  | .badPair pair => "Invalid property type pair: " ++ Text.shown pair ++ " (expected NAME=TYPE)"
  | .nameNotText shown => "Property name must be text: " ++ shown
  | .typeNotText name value =>
    "Property type for " ++ Text.shown name ++ " must be text, got " ++ value.display
  | .unknownType name tag => tag.message ++ " for property " ++ Text.shown name

/-- The kind declared for a name, which must be text. -/
def checkType (name : String) (value : Json.Value) : Except MappingError Kind :=
  match value with
  | .string _ =>
    match Kind.ofValue value with
    | .ok kind => .ok kind
    | .error e => .error (.unknownType name e)
  | _ => .error (.typeNotText name value)

/-- Checks entries in order and stops at the first that is wrong. -/
def checkEntries : List (String × Json.Value) → Except MappingError (List (String × Kind))
  | [] => .ok []
  | (name, value) :: rest =>
    match checkType name value with
    | .error e => .error e
    | .ok kind =>
      match checkEntries rest with
      | .error e => .error e
      | .ok entries => .ok ((name, kind) :: entries)

/-- The types that declarations give. A repeated name keeps its first place and its last type, and
only that type is checked. -/
def Types.ofDeclared (d : Declared) : Except MappingError Types :=
  match checkEntries d.entries with
  | .error e => .error e
  | .ok entries => .ok (.ofList entries)

/-! ## Names of any kind -/

/-- The name of a raw entry: text, or another value as it is shown. -/
inductive RawName where
  | text (name : String)
  | other (shown : String)
deriving DecidableEq, Repr

def RawName.ofValue [Host] : Json.Value → RawName
  | .string name => .text name
  | value => .other value.display

/-- The entries in front of the first name that is not text, and that name. -/
def textNames : List (RawName × Json.Value) → List (String × Json.Value) × Option String
  | [] => ([], none)
  | (.text name, value) :: rest =>
    let (named, other) := textNames rest
    ((name, value) :: named, other)
  | (.other shown, _) :: _ => ([], some shown)

/-- The types that raw entries give. -/
def Types.ofRaw [Host] (entries : List (Json.Value × Json.Value)) : Except MappingError Types :=
  let table := Table.ofList (entries.map fun (name, value) => (RawName.ofValue name, value))
  match textNames table.entries with
  | (named, none) => Types.ofDeclared (.ofList named)
  | (named, some shown) =>
    match checkEntries named with
    | .error e => .error e
    | .ok _ => .error (.nameNotText shown)

/-! ## Pairs -/

/-- Splits a text at its last `=`. -/
def splitPair? (cs : List Char) : Option (List Char × List Char) :=
  match cs.reverse.dropWhile (· ≠ '=') with
  | [] => none
  | _ :: front => some (front.reverse, (cs.reverse.takeWhile (· ≠ '=')).reverse)

/-- The name and the declared type of a pair `NAME=TYPE`. The name may itself hold `=`, and must not
be empty. -/
def readPair (pair : String) : Except MappingError (String × Json.Value) :=
  match splitPair? pair.toList with
  | none => .error (.badPair pair)
  | some ([], _) => .error (.badPair pair)
  | some (name, tag) =>
    .ok (String.ofList name, .string (String.ofList (Text.trimChars tag)))

def readPairs : List String → Except MappingError (List (String × Json.Value))
  | [] => .ok []
  | pair :: rest =>
    match readPair pair with
    | .error e => .error e
    | .ok entry =>
      match readPairs rest with
      | .error e => .error e
      | .ok entries => .ok (entry :: entries)

/-- The types that pairs give. All pairs are split before any type is checked. -/
def Types.ofPairs (pairs : List String) : Except MappingError Types :=
  match readPairs pairs with
  | .error e => .error e
  | .ok entries => Types.ofDeclared (.ofList entries)

end FormulaUpgrade.Property
