import FormulaUpgrade.Text.DecimalDigit
import FormulaUpgrade.Text.Quoted

/-! # Command line arguments

Every argument is first told apart as an option or as plain text; then options are taken from left to
right. Long options may be shortened, a value may be joined to its option, and short options without a
value may be written together.
-/

namespace FormulaUpgrade.CommandLine

/-! ## Options -/

inductive Switch where
  | help
  | formula
  | input
  | mapping
  | type
  | explain
  | json
  | listTypes
  | verbose
  | debug
deriving DecidableEq, Repr

namespace Switch

def all : List Switch :=
  [.help, .formula, .input, .mapping, .type, .explain, .json, .listTypes, .verbose, .debug]

def short? : Switch → Option Char
  | .help => some 'h'
  | .formula => some 'f'
  | .input => some 'i'
  | .mapping => some 'm'
  | .type => some 't'
  | .verbose => some 'v'
  | _ => none

def long : Switch → String
  | .help => "--help"
  | .formula => "--formula"
  | .input => "--input"
  | .mapping => "--mapping"
  | .type => "--type"
  | .explain => "--explain"
  | .json => "--json"
  | .listTypes => "--list-types"
  | .verbose => "--verbose"
  | .debug => "--debug"

/-- An option as messages name it. -/
def title (s : Switch) : String :=
  match s.short? with
  | some c => "-" ++ String.singleton c ++ "/" ++ s.long
  | none => s.long

def takesValue : Switch → Bool
  | .formula | .input | .mapping | .type => true
  | _ => false

def ofShort? (c : Char) : Option Switch :=
  all.find? (·.short? = some c)

def ofLong? (name : String) : Option Switch :=
  all.find? (·.long = name)

/-- The options whose long name starts with a text. -/
def withLongStart (start : List Char) : List Switch :=
  all.filter fun s => start.isPrefixOf s.long.toList

end Switch

/-! ## Settings -/

/-- What an option that takes a value was given. Two dashes joined to it end the options instead of
being its value, so that it has been given nothing. -/
inductive Given where
  | text (text : String)
  | nothing
deriving DecidableEq, Repr

/-- What characters joined to an option give it. -/
def Given.ofJoined (cs : List Char) : Given :=
  if cs = ['-', '-'] then .nothing else .text (String.ofList cs)

/-- A given value as it is shown. Nothing is shown as an empty list. -/
def Given.shown : Given → String
  | .text s => s
  | .nothing => "[]"

/-- The text that was given, which is empty for nothing. -/
def Given.toText : Given → String
  | .text s => s
  | .nothing => ""

/-- What the arguments ask for. -/
structure Settings where
  formula : Option Given := none
  input : Option Given := none
  mapping : Option Given := none
  types : List Given := []
  explain : Bool := false
  json : Bool := false
  listTypes : Bool := false
  verbose : Bool := false
  debug : Bool := false
deriving DecidableEq, Repr

/-- Why arguments are refused. -/
inductive UsageError where
  | missingValue (option : Switch)
  | ignoredValue (option : Switch) (value : String)
  | conflict (option earlier : Switch)
  | ambiguous (argument : String) (options : List Switch)
  | unrecognized (arguments : List String)
deriving DecidableEq, Repr

def UsageError.message : UsageError → String
  | .missingValue option => "argument " ++ option.title ++ ": expected one argument"
  | .ignoredValue option value =>
    "argument " ++ option.title ++ ": ignored explicit argument " ++ Text.quoted value
  | .conflict option earlier =>
    "argument " ++ option.title ++ ": not allowed with argument " ++ earlier.title
  | .ambiguous argument options =>
    "ambiguous option: " ++ argument ++ " could match " ++ ", ".intercalate (options.map Switch.long)
  | .unrecognized arguments => "unrecognized arguments: " ++ " ".intercalate arguments

/-- Why the arguments give no settings. -/
inductive Refusal where
  | help
  | usage (error : UsageError)
deriving DecidableEq, Repr

/-! ## Telling arguments apart -/

/-- An argument: plain text, or an option and the characters joined to it, if there are any. -/
inductive Word where
  | plain (text : String)
  | short (option : Switch) (joined : Option (List Char))
  | long (option : Switch) (joined : Option (List Char))
  | unknown (text : String)
deriving DecidableEq, Repr

/-- Whether a text reads as a negative number; a line feed may follow it. -/
def isNegativeNumber : List Char → Bool
  | '-' :: cs =>
    let cs := if cs.getLast? = some '\n' then cs.dropLast else cs
    let rest := cs.dropWhile Text.isDecimalDigit
    match rest with
    | [] => !cs.isEmpty
    | '.' :: fraction => !fraction.isEmpty && fraction.all Text.isDecimalDigit
    | _ => false
  | _ => false

/-- An argument that starts with a dash but names no option. -/
def undashed (text : String) : Word :=
  if isNegativeNumber text.toList || text.toList.contains ' ' then .plain text else .unknown text

/-- Splits a text at its first `=`. -/
def splitValue (cs : List Char) : List Char × Option (List Char) :=
  match cs.dropWhile (· ≠ '=') with
  | [] => (cs, none)
  | _ :: value => (cs.takeWhile (· ≠ '='), some value)

/-- An argument with two dashes. The name before a `=` may be shortened. -/
def longWord (text : String) : Except UsageError Word :=
  let (name, joined) := splitValue text.toList
  match Switch.ofLong? (String.ofList name) with
  | some option => .ok (.long option joined)
  | none =>
    match Switch.withLongStart name with
    | [] => .ok (undashed text)
    | [option] => .ok (.long option joined)
    | options => .error (.ambiguous text options)

/-- An argument with one dash: an option and, joined to it, a value or more options. A `=` right behind
the option is dropped. -/
def shortWord (text : String) (c : Char) (rest : List Char) : Word :=
  match Switch.ofShort? c with
  | none => undashed text
  | some option =>
    match rest with
    | [] => .short option none
    | '=' :: joined => .short option (some joined)
    | _ => .short option (some rest)

def word (text : String) : Except UsageError Word :=
  match text.toList with
  | '-' :: '-' :: _ => longWord text
  | '-' :: c :: rest => .ok (shortWord text c rest)
  | _ => .ok (.plain text)

/-- Tells all arguments apart, up to an argument of two dashes alone; that one and those behind it
belong to no option. -/
def splitWords : List String → Except UsageError (List Word × List String)
  | [] => .ok ([], [])
  | text :: rest =>
    if text = "--" then .ok ([], text :: rest)
    else
      match word text with
      | .error e => .error e
      | .ok w =>
        match splitWords rest with
        | .error e => .error e
        | .ok (words, behind) => .ok (w :: words, behind)

/-! ## Taking options -/

/-- How the options of a word end. -/
inductive Ending where
  | bare (option : Switch)
  | value (option : Switch) (value : Given)
  | leftover (text : String)
deriving DecidableEq, Repr

/-- The options without a value in a group of short options, and how it ends, from the first option
and what is joined to it. In front of a value inside the group no `=` is dropped. -/
def ungroup (option : Switch) : List Char → Except UsageError (List Switch × Ending)
  | [] =>
    if option.takesValue then .ok ([], .value option (.text "")) else .error (.ignoredValue option "")
  | c :: cs =>
    if option.takesValue then .ok ([], .value option (.ofJoined (c :: cs)))
    else
      match Switch.ofShort? c, cs with
      | none, _ => .error (.ignoredValue option (String.ofList (c :: cs)))
      | some next, [] => .ok ([option], .bare next)
      | some next, _ :: _ =>
        match ungroup next cs with
        | .error e => .error e
        | .ok (options, ending) => .ok (option :: options, ending)

/-- Takes an option without a value. -/
def Settings.take (s : Settings) : Switch → Except Refusal Settings
  | .help => .error .help
  | .explain => .ok { s with explain := true }
  | .json => .ok { s with json := true }
  | .listTypes => .ok { s with listTypes := true }
  | .verbose => .ok { s with verbose := true }
  | .debug => .ok { s with debug := true }
  | .formula | .input | .mapping | .type => .ok s

/-- Takes an option with its value. A formula and an input file exclude each other. -/
def Settings.takeValue (s : Settings) (value : Given) : Switch → Except Refusal Settings
  | .formula =>
    if s.input.isSome then .error (.usage (.conflict .formula .input))
    else .ok { s with formula := some value }
  | .input =>
    if s.formula.isSome then .error (.usage (.conflict .input .formula))
    else .ok { s with input := some value }
  | .mapping => .ok { s with mapping := some value }
  | .type => .ok { s with types := s.types ++ [value] }
  | .help | .explain | .json | .listTypes | .verbose | .debug => .ok s

def Settings.takeAll (s : Settings) : List Switch → Except Refusal Settings
  | [] => .ok s
  | option :: options =>
    match s.take option with
    | .error e => .error e
    | .ok s => s.takeAll options

/-- The settings and the arguments that no option took. -/
structure Progress where
  settings : Settings
  extras : List String

/-- Takes the options without a value, then goes on. -/
def Progress.advance (p : Progress) (options : List Switch) : Except Refusal Progress :=
  match p.settings.takeAll options with
  | .error e => .error e
  | .ok s => .ok { p with settings := s }

def Progress.advanceValue (p : Progress) (options : List Switch) (option : Switch) (value : Given) :
    Except Refusal Progress :=
  match p.advance options with
  | .error e => .error e
  | .ok p =>
    match p.settings.takeValue value option with
    | .error e => .error e
    | .ok s => .ok { p with settings := s }

def Progress.addExtra (p : Progress) (text : String) : Progress :=
  { p with extras := p.extras ++ [text] }

/-- What a word asks for: options without a value, then perhaps one that needs a value or has one, or
a text that is no option. -/
def Word.parts : Word → Except UsageError (List Switch × Ending)
  | .plain text | .unknown text => .ok ([], .leftover text)
  | .short option none | .long option none => .ok ([], .bare option)
  | .short option (some joined) => ungroup option joined
  | .long option (some joined) =>
    if option.takesValue then .ok ([], .value option (.ofJoined joined))
    else .error (.ignoredValue option (String.ofList joined))

/-- Takes words from left to right. An option that needs a value takes the plain text behind it. -/
def takeWords (p : Progress) : List Word → Except Refusal Progress
  | [] => .ok p
  | w :: ws =>
    match w.parts with
    | .error e => .error (.usage e)
    | .ok (options, .leftover text) =>
      match (p.addExtra text).advance options with
      | .error e => .error e
      | .ok p => takeWords p ws
    | .ok (options, .value option value) =>
      match p.advanceValue options option value with
      | .error e => .error e
      | .ok p => takeWords p ws
    | .ok (options, .bare option) =>
      if option.takesValue then
        match ws with
        | .plain value :: ws =>
          match p.advanceValue options option (.text value) with
          | .error e => .error e
          | .ok p => takeWords p ws
        | _ => .error (.usage (.missingValue option))
      else
        match p.advance (options ++ [option]) with
        | .error e => .error e
        | .ok p => takeWords p ws

/-- The settings that arguments give. -/
def parseArguments (arguments : List String) : Except Refusal Settings :=
  match splitWords arguments with
  | .error e => .error (.usage e)
  | .ok (words, behind) =>
    match takeWords ⟨{}, []⟩ words with
    | .error e => .error e
    | .ok p =>
      match p.extras ++ behind with
      | [] => .ok p.settings
      | extras => .error (.usage (.unrecognized extras))

end FormulaUpgrade.CommandLine
