import FormulaUpgrade.Log

/-! # What a conversion records -/

namespace FormulaUpgrade.Conversion

/-- Something that was converted. -/
structure Change where
  identifier : String
  context : Option String
deriving DecidableEq, Repr

/-- Something that could not be converted. -/
structure Issue where
  identifier : String
  context : Option String
deriving DecidableEq, Repr

/-- An identifier with its context, unless that is empty. -/
def entryText (identifier : String) (context : Option String) : String :=
  identifier ++ Log.contextText ": " context ""

def Change.text (c : Change) : String :=
  entryText c.identifier c.context

def Issue.text (i : Issue) : String :=
  entryText i.identifier i.context

/-- The outcome of a conversion: the converted text, changes with an outer one before those inside it,
issues with an inner one first, and the names of the properties in order of first reference. -/
structure Result where
  formula : String
  changes : List Change
  issues : List Issue
  references : List String
deriving DecidableEq, Repr

def Result.empty : Result :=
  ⟨"", [], [], []⟩

/-- Whether nothing stood in the way. -/
def Result.ok (r : Result) : Bool :=
  r.issues.isEmpty

/-- What has been recorded so far, and the log records of it as they were made. -/
structure Context where
  changes : List Change
  issues : List Issue
  references : List String
  log : List Log.Record
deriving DecidableEq, Repr

namespace Context

def empty : Context :=
  ⟨[], [], [], []⟩

/-- The place of the next change. -/
def mark (c : Context) : Nat :=
  c.changes.length

/-- Records a change at a place among those recorded before, or at the end if the place is past it. -/
def insertChange (c : Context) (place : Nat) (identifier : String) (context : Option String) :
    Context :=
  { c with
    changes := c.changes.take place ++ ⟨identifier, context⟩ :: c.changes.drop place
    log := c.log ++ [Log.changeRecorded identifier context] }

/-- Records a change at the end. -/
def addChange (c : Context) (identifier : String) (context : Option String) : Context :=
  c.insertChange c.mark identifier context

/-- The place that an index names: a negative one counts from the end, and one out of range is the
nearest place. -/
def place (c : Context) (index : Int) : Nat :=
  if index < 0 then (c.mark + index).toNat else min index.toNat c.mark

def addIssue (c : Context) (identifier : String) (context : Option String) : Context :=
  { c with
    issues := c.issues ++ [⟨identifier, context⟩]
    log := c.log ++ [Log.errorRecorded identifier context] }

/-- Records a reference, once for each name. -/
def addReference (c : Context) (name : String) : Context :=
  if c.references.contains name then c else { c with references := c.references ++ [name] }

/-- The outcome with the given text. -/
def result (c : Context) (formula : String) : Result :=
  ⟨formula, c.changes, c.issues, c.references⟩

end Context

end FormulaUpgrade.Conversion
