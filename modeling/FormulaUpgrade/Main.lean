import FormulaUpgrade.CommandLine.Session

/-! # The program -/

namespace FormulaUpgrade.CommandLine

/-- The system's number for an error, which may be given with either sign. -/
def errorNumber (code : UInt32) : Nat :=
  min code.toNat (0 - code).toNat

/-- The failure that an error stands for, if it is one of those told apart. -/
def failureOf? : IO.Error → Option OpenFailure
  | .noFileOrDirectory .. => some .missing
  | .permissionDenied .. => some .denied
  | .inappropriateType _ code _ =>
    some (if errorNumber code = OpenFailure.notDirectory.number then .notDirectory else .isDirectory)
  | .invalidArgument _ code _ =>
    [OpenFailure.nameTooLong, .loop].find? (·.number = errorNumber code)
  | _ => none

/-- Whether a file that is denied can at least be found. -/
def denial (path : Path) : IO OpenFailure := do
  try
    discard (IO.FS.realPath path.text)
    return .denied
  catch _ => return .unsearchable

/-- What stands at a path on the disk. -/
def findOnDisk (path : Path) : IO Found := do
  if path.text.toList.contains (Char.ofNat 0) then return .nullCharacter
  try
    return .file (← IO.FS.readBinFile path.text).toList
  catch e =>
    match failureOf? e with
    | some .denied => return .failure (← denial path)
    | some failure => return .failure failure
    | none => throw e

def readStandardInput : IO StandardInput := do
  match Text.Utf8.decode (← (← IO.getStdin).readBinToEnd).toList with
  | .ok cs => return .text (String.ofList cs)
  | .error fault => return .undecodable fault

/-- The part of the world that a run with given settings looks at. -/
def visibleWorld (settings : Settings) : IO World := do
  let found ← settings.paths.mapM fun path => return (path, ← findOnDisk path)
  let find (path : Path) : Found := (found.lookup path).getD (.failure .missing)
  let world : World := ⟨find, .text "", .strict, 990, 990⟩
  if settings.readsStandardInput world then return { world with stdin := ← readStandardInput }
  return world

end FormulaUpgrade.CommandLine

open FormulaUpgrade.CommandLine in
def main (arguments : List String) : IO UInt32 := do
  let world ← match parseArguments arguments with
    | .ok settings => visibleWorld settings
    | .error _ => pure ⟨fun _ => .failure .missing, .text "", .strict, 990, 990⟩
  let output := run arguments world
  IO.print (String.ofList (output.stdout.map Char.ofNat))
  IO.eprint output.stderr
  return output.exit.toUInt32
