/-! # Log records -/

namespace FormulaUpgrade.Log

inductive Level where
  | debug
  | info
  | warning
  | error
deriving DecidableEq, Repr

/-- Higher levels have higher numbers. -/
def Level.number : Level → Nat
  | .debug => 10
  | .info => 20
  | .warning => 30
  | .error => 40

def Level.label : Level → String
  | .debug => "DEBUG"
  | .info => "INFO"
  | .warning => "WARNING"
  | .error => "ERROR"

def Level.ofLabel? (label : String) : Option Level :=
  [Level.debug, .info, .warning, .error].find? (·.label = label)

/-- The level until one is chosen. -/
def Level.initial : Level := .info

/-- The level that the flags choose. -/
def Level.ofFlags (verbose debug : Bool) : Level :=
  if debug then .debug else if verbose then .info else .warning

structure Record where
  level : Level
  message : String
deriving DecidableEq, Repr

/-- A record as it is written. Plain information carries no label. -/
def Record.line (r : Record) : String :=
  match r.level with
  | .info => r.message ++ "\n"
  | level => "[" ++ level.label ++ "] " ++ r.message ++ "\n"

/-- The records of at least a level, in order. -/
def visible (level : Level) (records : List Record) : List Record :=
  records.filter fun r => level.number ≤ r.level.number

/-- What is written of records at a level. -/
def written (level : Level) (records : List Record) : String :=
  String.join ((visible level records).map Record.line)

def debug (message : String) : Record := ⟨.debug, message⟩

def info (message : String) : Record := ⟨.info, message⟩

def warning (message : String) : Record := ⟨.warning, message⟩

def error (message : String) : Record := ⟨.error, message⟩

/-! ## Records of a conversion -/

def conversionStart (formula : String) (mapped : Nat) : List Record :=
  [debug ("=== Converting formula (" ++ toString mapped ++ " mapped properties) ==="),
    debug ("Input: " ++ formula)]

/-- A context is shown unless it is empty. -/
def contextText (before : String) (context : Option String) (after : String) : String :=
  match context with
  | none => ""
  | some text => if text.isEmpty then "" else before ++ text ++ after

def changeRecorded (identifier : String) (context : Option String) : Record :=
  debug ("    ✏️  change '" ++ identifier ++ "'" ++ contextText " (" context ")")

def errorRecorded (identifier : String) (context : Option String) : Record :=
  debug ("    ⚠️  error '" ++ identifier ++ "'" ++ contextText ": " context "")

def conversionSummary (formula : String) (changes errors references : Nat) : Record :=
  debug ("Output: " ++ formula ++ " (changes=" ++ toString changes ++ ", errors=" ++
    toString errors ++ ", props=" ++ toString references ++ ")")

/-- The outcome of a check, with a message of its own if none is given. -/
def validationResult (success : Bool) (message : String) : Record :=
  if success then
    debug ("✅ " ++ if message.isEmpty then "Validation successful" else message)
  else
    error ("❌ " ++ if message.isEmpty then "Validation failed" else message)

end FormulaUpgrade.Log
