import FormulaUpgrade.CommandLine.MappingFile
import FormulaUpgrade.CommandLine.Usage
import FormulaUpgrade.Conversion.Report
import FormulaUpgrade.Conversion.Run
import FormulaUpgrade.Json.Mentions
import FormulaUpgrade.Text.Surrogates

/-! # Running the converter from the command line -/

namespace FormulaUpgrade.CommandLine

open Property Conversion

/-- The standard input: its text, or why reading it gives none. -/
inductive StandardInput where
  | text (text : String)
  | undecodable (fault : Text.Utf8.Fault)
  | interrupted

/-- What the standard output does with a text that holds surrogates. -/
inductive StandardOutput where
  | strict
  | lenient
deriving DecidableEq, Repr

/-- What a run meets: what stands at each path, the standard streams, and how deeply formulas and JSON
values may be nested. -/
structure World where
  find : Path → Found
  stdin : StandardInput
  stdout : StandardOutput
  nestingLimit : Nat
  jsonNestingLimit : Nat

inductive Exit where
  | ok
  | conversionErrors
  | mappingError
  | inputError
  | interrupted
  | unexpected
deriving DecidableEq, Repr

def Exit.code : Exit → Nat
  | .ok => 0
  | .conversionErrors => 1
  | .mappingError => 2
  | .inputError => 3
  | .interrupted => 4
  | .unexpected => 5

/-- How a run ended, what it printed, and its log records. -/
structure Session where
  exit : Exit
  stdout : String
  log : List Log.Record

/-- The session that an error in the property types ends. -/
def Session.mappingError (message : String) : Session :=
  ⟨.mappingError, "", [Log.validationResult false ("Property mapping error: " ++ message)]⟩

/-- The session that unusable input ends. -/
def Session.inputError (message : String) : Session :=
  ⟨.inputError, "", [Log.error ("Formula file error: " ++ message)]⟩

/-- The session that an interrupt ends. -/
def Session.interrupted : Session :=
  ⟨.interrupted, "", [Log.error "Conversion interrupted by user"]⟩

/-- The session that any other error ends. -/
def Session.unexpected (message : String) : Session :=
  ⟨.unexpected, "", [Log.error ("Unexpected error: " ++ message)]⟩

/-- Puts records in front of a session's own. -/
def Session.after (log : List Log.Record) (s : Session) : Session :=
  { s with log := log ++ s.log }

/-! ## Loading the property types -/

/-- Why no property types could be loaded. -/
inductive LoadError where
  | file (error : MappingFileError)
  | pairs (error : MappingError)
  | noPair

/-- The session that a load error ends. Bytes that are no text and numbers with too many digits count
as unusable input; a file that cannot be examined, a nesting beyond the limit and a pair that was not
given are unexpected. -/
def LoadError.session [Host] : LoadError → Session
  | .pairs e => .mappingError e.message
  | .noPair => .unexpected "'list' object has no attribute 'rpartition'"
  | .file e =>
    match e with
    | .undecodable _ | .unreadable (.longInteger _) => .inputError e.message
    | .unexamined .. | .unreadable (.tooDeep _) => .unexpected e.message
    | _ => .mappingError e.message

/-- The types from the mapping file, and the records of reading it. -/
def loadFile [Host] (world : World) : Option Given → Except LoadError Types × List Log.Record
  | none => (.ok .empty, [])
  | some given =>
    let path := Path.ofString given.shown
    let types := typesOfFound path.text (world.find path)
    (types.mapError .file, mappingFileLog path.text types)

/-- The texts in front of the first option that was given nothing, and whether there is one. -/
def leadingTexts : List Given → List String × Bool
  | [] => ([], false)
  | .text text :: rest =>
    let (texts, missing) := leadingTexts rest
    (text :: texts, missing)
  | .nothing :: _ => ([], true)

/-- The types from the pairs. A pair that was not given is met when the pairs are split. -/
def loadPairs (given : List Given) : Except LoadError Types :=
  match leadingTexts given with
  | (pairs, false) =>
    match Types.ofPairs pairs with
    | .error e => .error (.pairs e)
    | .ok types => .ok types
  | (pairs, true) =>
    match readPairs pairs with
    | .error e => .error (.pairs e)
    | .ok _ => .error .noPair

/-- The property types: those of the file, then those of the pairs over them. -/
def loadTypes [Host] (world : World) (settings : Settings) :
    Except LoadError Types × List Log.Record :=
  match loadFile world settings.mapping with
  | (.error e, log) => (.error e, log)
  | (.ok types, log) =>
    match loadPairs settings.types with
    | .error e => (.error e, log)
    | .ok pairs => (.ok (types.update pairs), log)

/-! ## Loading the formula -/

/-- Why no formula could be loaded. -/
inductive FormulaError where
  | notFound (path : String)
  | unopened (failure : OpenFailure) (path : String)
  | nullCharacter
  | undecodable (fault : Text.Utf8.Fault)
  | noPath

def FormulaError.message : FormulaError → String
  | .notFound path => "Formula file not found: " ++ path
  | .unopened failure path => "Error reading formula file: " ++ failure.message path
  | .nullCharacter => "embedded null byte"
  | .undecodable fault => fault.message
  | .noPath => "expected str, bytes or os.PathLike object, not list"

/-- The session that a formula error ends. A path that was not given is unexpected. -/
def FormulaError.session : FormulaError → Session
  | .noPath => .unexpected FormulaError.noPath.message
  | e => .inputError e.message

/-- The text of a file or of the standard input: line ends unified and blanks at the ends cut. -/
def inputText (cs : List Char) : String :=
  String.ofList (Text.trimChars (Text.unifyLineEnds cs))

/-- The formula in the file that was found. -/
def formulaOfFound (path : String) : Found → Except FormulaError String
  | .file bytes =>
    match Text.Utf8.decode bytes with
    | .error fault => .error (.undecodable fault)
    | .ok cs => .ok (inputText cs)
  | .failure .missing => .error (.notFound path)
  | .failure failure => .error (.unopened failure path)
  | .nullCharacter => .error .nullCharacter

/-- The formula as given, from the input file, or from the standard input. Without a formula the run
ends with a session. -/
def loadFormula (world : World) (settings : Settings) : Except Session Given :=
  match settings.formula, settings.input with
  | some formula, _ => .ok formula
  | none, some .nothing => .error FormulaError.noPath.session
  | none, some (.text given) =>
    let path := Path.ofString given
    match formulaOfFound path.text (world.find path) with
    | .error e => .error e.session
    | .ok formula => .ok (.text formula)
  | none, none =>
    match world.stdin with
    | .text text => .ok (.text (inputText text.toList))
    | .undecodable fault => .error (.inputError fault.message)
    | .interrupted => .error .interrupted

/-! ## Printing the result -/

/-- A result as a document. -/
def resultDocument (r : Result) : Json.Document :=
  let context : Option String → Json.Document
    | none => .null
    | some text => .string text
  .record [
    ("formula", .string r.formula),
    ("changes", .list (r.changes.map fun c =>
      .record [("changeIdentifier", .string c.identifier), ("context", context c.context)])),
    ("errors", .list (r.issues.map fun i =>
      .record [("errorIdentifier", .string i.identifier), ("context", context i.context)])),
    ("propsReferenced", .list (r.references.map .string))]

/-- The report on a result behind an empty line. An empty report is left out. -/
def explanation [Host] (declared : Declared) (r : Result) : List (Except UnknownChange String) :=
  match report declared r with
  | .error e => [.error e]
  | .ok text => if text.isEmpty then [] else [.ok "", .ok text]

/-- The texts to be printed, one after the other. -/
def printouts [Host] (settings : Settings) (declared : Declared) (r : Result) :
    List (Except UnknownChange String) :=
  if settings.json then [.ok ((resultDocument r).write 0)]
  else .ok r.formula :: if settings.explain then explanation declared r else []

/-- Why something was not printed. -/
inductive PrintError where
  | unencodable (fault : Text.EncodeFault)
  | unexplained (change : UnknownChange)

/-- The session that a print error ends. A text that cannot be encoded counts as unusable input. -/
def PrintError.session : PrintError → Session
  | .unencodable fault => .inputError fault.message
  | .unexplained change => .unexpected change.message

/-- What keeps a text from being printed. -/
def StandardOutput.fault? [Host] (stdout : StandardOutput) (text : String) :
    Option Text.EncodeFault :=
  match stdout with
  | .strict => Text.encodeFault? text
  | .lenient => none

/-- Prints texts, each on a line of its own, up to the first that cannot be printed. -/
def printAll [Host] (stdout : StandardOutput) :
    List (Except UnknownChange String) → String × Option PrintError
  | [] => ("", none)
  | .error change :: _ => ("", some (.unexplained change))
  | .ok text :: rest =>
    match stdout.fault? text with
    | some fault => ("", some (.unencodable fault))
    | none =>
      let (printed, error) := printAll stdout rest
      (text ++ "\n" ++ printed, error)

/-- The properties without a type, if there are any. -/
def untypedLog (types : Types) (r : Result) : List Log.Record :=
  match r.references.filter fun name => !types.keys.contains name with
  | [] => []
  | names =>
    [Log.info ("Properties without a type (treated as other): " ++ ", ".intercalate names)]

/-! ## A run -/

/-- Converts a formula that was loaded, and prints the result. -/
def convertSession [Host] (settings : Settings) (stdout : StandardOutput) (types : Types)
    (formula : Given) : Session :=
  let run := Conversion.run types.declared formula.toText
  let r := run.result
  let log := Log.info ("📋 Formula loaded: " ++ formula.shown) :: run.log
  match printAll stdout (printouts settings types.declared r) with
  | (printed, some e) => { e.session.after log with stdout := printed }
  | (printed, none) =>
    { exit := if r.ok then .ok else .conversionErrors
      stdout := printed
      log := log ++ untypedLog types r ++ r.issues.map fun i => Log.warning i.message }

/-- Loads the types, then the formula, and converts it. -/
def mainSession [Host] (settings : Settings) (world : World) : Session :=
  match loadTypes world settings with
  | (.error e, log) => e.session.after log
  | (.ok types, log) =>
    let loaded := Log.validationResult true
      ("Property mapping loaded (" ++ toString types.size ++ " entries)")
    let session :=
      match loadFormula world settings with
      | .error session => session
      | .ok formula => convertSession settings world.stdout types formula
    session.after (log ++ [loaded])

/-- A run with given settings. Listing the types needs neither types nor formula. -/
def session [Host] (settings : Settings) (world : World) : Session :=
  if settings.listTypes then ⟨.ok, String.join (Kind.tags.map (· ++ "\n")), []⟩
  else mainSession settings world

/-! ## The whole program -/

/-- The characters of a file, if it is a text. -/
def Found.characters : Found → List Char
  | .file bytes => (Text.Utf8.decode bytes).toOption.getD []
  | .failure _ | .nullCharacter => []

def StandardInput.characters : StandardInput → List Char
  | .text input => input.toList
  | .undecodable _ | .interrupted => []

/-- The paths that a run may look at. -/
def Settings.paths (settings : Settings) : List Path :=
  (settings.mapping.toList ++ settings.input.toList).map fun given => .ofString given.shown

/-- All that a run may read: what the options were given, the files and the standard input. -/
def Settings.characters (settings : Settings) (world : World) : List Char :=
  let given := settings.formula.toList ++ settings.input.toList ++ settings.mapping.toList ++
    settings.types
  given.flatMap (·.shown.toList) ++ settings.paths.flatMap (fun path => (world.find path).characters)
    ++ world.stdin.characters

/-- The limits of the world, and the stand-ins of a run. -/
@[reducible] def World.host (world : World) (standIns : Text.Block) : Host where
  nestingLimit := world.nestingLimit
  jsonNestingLimit := world.jsonNestingLimit
  standIns := standIns

/-- Stand-ins that occur in nothing that is read. -/
def Settings.standIns (settings : Settings) (world : World) : Text.Block :=
  .unmentioned (settings.characters world)

/-- Whether a run reads the standard input: it does if the types can be loaded and no formula or file
is given. -/
def Settings.readsStandardInput (settings : Settings) (world : World) : Bool :=
  let standIns := settings.standIns world
  let _ := world.host standIns
  !settings.listTypes && settings.formula.isNone && settings.input.isNone &&
    (loadTypes world settings).1.isOk

/-- What a run leaves behind. The standard output is told by its code points, among which may be
surrogates. -/
structure Output where
  exit : Nat
  stdout : List Nat
  stderr : String
deriving DecidableEq, Repr

/-- A run of the whole program. Only the log records of the chosen level are written. -/
def run (arguments : List String) (world : World) : Output :=
  match parseArguments arguments with
  | .error .help => ⟨0, helpText.toList.map Char.toNat, ""⟩
  | .error (.usage e) => ⟨2, [], e.text⟩
  | .ok settings =>
    let standIns := settings.standIns world
    let _ := world.host standIns
    let s := session settings world
    ⟨s.exit.code, Text.points s.stdout,
      Text.escapeSurrogates (Log.written (.ofFlags settings.verbose settings.debug) s.log)⟩

end FormulaUpgrade.CommandLine
