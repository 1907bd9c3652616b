import FormulaUpgrade.CommandLine.Files
import FormulaUpgrade.Json.Reader
import FormulaUpgrade.Log
import FormulaUpgrade.Property.Mapping
import FormulaUpgrade.Text.Utf8

/-! # Property types from a file

The file holds a JSON object from property names to types.
-/

namespace FormulaUpgrade.CommandLine

open Property

/-- Why a file gives no property types. It is `unexamined` if it cannot even be told whether there is
one. -/
inductive MappingFileError where
  | notFound (path : String)
  | unopened (failure : OpenFailure) (path : String)
  | unexamined (failure : OpenFailure) (path : String)
  | undecodable (fault : Text.Utf8.Fault)
  | unreadable (error : Json.ReadError)
  | notObject
  | entry (error : MappingError)

def MappingFileError.message [Host] : MappingFileError → String
  | .notFound path => "Mapping file not found: " ++ path
  | .unopened failure path => "Cannot open mapping file: " ++ failure.message path
  | .unexamined failure path => failure.message path
  | .undecodable fault => fault.message
  | .unreadable (.malformed fault) => "Invalid JSON in mapping file: " ++ fault.message
  | .unreadable error => error.message
  | .notObject => "Mapping file must contain a JSON object"
  | .entry error => error.message

/-- The property types that characters give, line ends unified. -/
def typesOfText [Host] (cs : List Char) : Except MappingFileError Types :=
  match Json.read (Text.unifyLineEnds cs) with
  | .error e => .error (.unreadable e)
  | .ok (.object members) =>
    match Types.ofDeclared (.ofList members) with
    | .error e => .error (.entry e)
    | .ok types => .ok types
  | .ok _ => .error .notObject

/-- The property types that bytes give. -/
def typesOfBytes [Host] (bytes : List UInt8) : Except MappingFileError Types :=
  match Text.Utf8.decode bytes with
  | .error fault => .error (.undecodable fault)
  | .ok cs => typesOfText cs

/-- The property types in the file that was found. A missing file is named by the path as given, one
that cannot be opened by the path as it was read. -/
def typesOfFound [Host] (path : String) : Found → Except MappingFileError Types
  | .file bytes => typesOfBytes bytes
  | .nullCharacter => .error (.notFound path)
  | .failure failure =>
    match failure with
    | .missing | .notDirectory | .loop => .error (.notFound path)
    | .nameTooLong | .unsearchable => .error (.unexamined failure (Path.ofString path).text)
    | .denied | .isDirectory => .error (.unopened failure (Path.ofString path).text)

/-- The records of reading a file. Nothing is recorded unless something is there. -/
def mappingFileLog (path : String) (types : Except MappingFileError Types) : List Log.Record :=
  let reading := Log.debug ("Reading property mapping: " ++ path)
  match types with
  | .error (.notFound _) | .error (.unexamined ..) => []
  | .error _ => [reading]
  | .ok types => [reading, Log.debug ("Loaded " ++ toString types.size ++ " property types")]

end FormulaUpgrade.CommandLine
