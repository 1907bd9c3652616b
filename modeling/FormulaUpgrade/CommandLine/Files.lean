import FormulaUpgrade.Table
import FormulaUpgrade.Text.Quoted

/-! # Paths and files -/

namespace FormulaUpgrade.CommandLine

/-! ## Paths -/

/-- A path: the slashes it starts with, and its parts. -/
structure Path where
  root : String
  parts : List String
deriving DecidableEq, Repr

/-- Splits characters at slashes. -/
def splitSlashes : List Char → List (List Char)
  | [] => [[]]
  | c :: cs =>
    if c = '/' then [] :: splitSlashes cs
    else
      match splitSlashes cs with
      | [] => [[c]]
      | part :: parts => (c :: part) :: parts

/-- Exactly two slashes in front are kept; any other number of them is one. -/
def rootOf : List Char → String
  | '/' :: '/' :: '/' :: _ => "/"
  | '/' :: '/' :: _ => "//"
  | '/' :: _ => "/"
  | _ => ""

/-- Reads a path. Empty parts and single dots mean nothing. -/
def Path.ofString (s : String) : Path :=
  ⟨rootOf s.toList, ((splitSlashes s.toList).map String.ofList).filter fun part =>
    part ≠ "" ∧ part ≠ "."⟩

/-- A path without root or parts is the current directory. -/
def Path.text (p : Path) : String :=
  if p.root = "" ∧ p.parts = [] then "." else p.root ++ "/".intercalate p.parts

/-! ## Looking up a path -/

/-- Why the file at a path cannot be opened. The path may be `denied` although something is there, and
is `unsearchable` where a directory on the way may not be searched. -/
inductive OpenFailure where
  | missing
  | denied
  | unsearchable
  | notDirectory
  | isDirectory
  | nameTooLong
  | loop
deriving DecidableEq, Repr

/-- The system's number for a failure. -/
def OpenFailure.number : OpenFailure → Nat
  | .missing => 2
  | .denied | .unsearchable => 13
  | .notDirectory => 20
  | .isDirectory => 21
  | .nameTooLong => 36
  | .loop => 40

/-- The system's words for a failure. -/
def OpenFailure.reason : OpenFailure → String
  | .missing => "No such file or directory"
  | .denied | .unsearchable => "Permission denied"
  | .notDirectory => "Not a directory"
  | .isDirectory => "Is a directory"
  | .nameTooLong => "File name too long"
  | .loop => "Too many levels of symbolic links"

def OpenFailure.message (failure : OpenFailure) (path : String) : String :=
  "[Errno " ++ toString failure.number ++ "] " ++ failure.reason ++ ": " ++ Text.quoted path

/-- What stands at a path. A path with a null character is refused before anything is opened. -/
inductive Found where
  | file (bytes : List UInt8)
  | failure (failure : OpenFailure)
  | nullCharacter
deriving DecidableEq, Repr

/-! ## File trees -/

/-- What can be put at a path. -/
inductive Entry where
  | file (bytes : List UInt8)
  | directory
deriving DecidableEq, Repr

/-- Files and directories below the current directory, by the parts of their paths. -/
abbrev FileTree := Table (List String) Entry

/-- The parts of the place that a path leads to through directories: a double dot takes back the part
in front of it. -/
def Path.place (path : Path) : List String :=
  (path.parts.foldl (fun stack part => if part = ".." then stack.tail else part :: stack) []).reverse

/-- Puts entries at their paths, one after the other, so that the last one at a path stays. -/
def FileTree.ofList (entries : List (Path × Entry)) : FileTree :=
  Table.ofList (entries.map fun (path, entry) => (path.place, entry))

/-- What stands at the parts of a path: an entry, or a directory that an entry's path goes through. -/
def FileTree.at? (files : FileTree) (parts : List String) : Option Entry :=
  if parts.isEmpty then some .directory
  else
    match files.get? parts with
    | some entry => some entry
    | none => if files.keys.any fun key => parts.isPrefixOf key then some .directory else none

/-- The number of bytes that a part of a path may have. -/
def nameLimit : Nat := 255

/-- The number of bytes that a path may have. -/
def pathLimit : Nat := 4095

/-- Where a walk stands: at a place of the tree, with its innermost part first, or above the tree. -/
abbrev Standing := Option (List String)

/-- What stands where a walk stands. Above the tree there is nothing but directories. -/
def FileTree.standing? (files : FileTree) : Standing → Option Entry
  | none => some .directory
  | some stack => files.at? stack.reverse

/-- Where a double dot leads to, if it leads to `top` from the top of the tree. -/
def Standing.up (top : Standing) : Standing → Standing
  | none => none
  | some [] => top
  | some (_ :: stack) => some stack

/-- Follows the parts of a path. Only a directory can be gone through. -/
def FileTree.follow (files : FileTree) (top : Standing) (here : Standing) : List String → Found
  | [] =>
    match files.standing? here with
    | some (.file bytes) => .file bytes
    | some .directory => .failure .isDirectory
    | none => .failure .missing
  | part :: parts =>
    match files.standing? here with
    | none => .failure .missing
    | some (.file _) => .failure .notDirectory
    | some .directory =>
      if nameLimit < part.utf8ByteSize then .failure .nameTooLong
      else if part = ".." then files.follow top (Standing.up top here) parts
      else
        match here with
        | none => .failure .missing
        | some stack => files.follow top (some (part :: stack)) parts

/-- What a system has from its root, whatever else it holds: the standard directories and the empty
device. -/
def systemTree : FileTree :=
  Table.ofList ((["bin", "boot", "dev", "etc", "home", "lib", "media", "mnt", "opt", "proc", "run",
    "sbin", "srv", "sys", "tmp", "usr", "var"].map fun name => ([name], .directory)) ++
    [(["dev", "null"], .file [])])

/-- What stands at a path among the files. A path without a root starts at the current directory, one
with a root at the root, above which a double dot does not lead. -/
def FileTree.find (files : FileTree) (path : Path) : Found :=
  if path.text.toList.contains (Char.ofNat 0) then .nullCharacter
  else if pathLimit < path.text.utf8ByteSize then .failure .nameTooLong
  else if path.root = "" then files.follow none (some []) path.parts
  else systemTree.follow (some []) (some []) path.parts

end FormulaUpgrade.CommandLine
