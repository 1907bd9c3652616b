import FormulaUpgrade.Conversion.Catalogue
import FormulaUpgrade.Property.Mapping

/-! # Reports on conversions

A report has a section for the issues, one for the properties with their types, and one for the
changes. A section without entries is left out.
-/

namespace FormulaUpgrade.Conversion

open Property

/-- Lines of text, one below the other. -/
def lines (texts : List String) : String :=
  "\n".intercalate texts

def issueSection (issues : List Issue) : List String :=
  if issues.isEmpty then []
  else [lines ("Errors" :: issues.map fun i => "  - " ++ i.message)]

/-- The type of a property as a report shows it. A declared type that is no kind is shown as it is. -/
def shownType [Host] (declared : Declared) (name : String) : String :=
  match declared.resolve name with
  | .ok kind => kind.tag
  | .error e => e.value.plain

def propertySection [Host] (declared : Declared) (names : List String) : List String :=
  if names.isEmpty then []
  else
    [lines ("Property types" ::
      ("  Property types with changes: " ++ ", ".intercalate Kind.changingTags) ::
      names.map fun name => "  - " ++ name ++ ": " ++ shownType declared name)]

/-- The explanations of changes, up to the first that has none. -/
def explainAll : List Change → Except UnknownChange (List Explanation)
  | [] => .ok []
  | change :: changes =>
    match change.explain with
    | .error e => .error e
    | .ok explanation =>
      match explainAll changes with
      | .error e => .error e
      | .ok explanations => .ok (explanation :: explanations)

def changeSection (explanations : List Explanation) : List String :=
  if explanations.isEmpty then []
  else
    [lines ("Changes" :: explanations.flatMap fun e =>
      ["  - " ++ e.description, "    Example: " ++ e.sample])]

/-- The report on a result. -/
def report [Host] (declared : Declared) (r : Result) : Except UnknownChange String :=
  match explainAll r.changes with
  | .error e => .error e
  | .ok explanations =>
    .ok ("\n\n".intercalate (issueSection r.issues ++ propertySection declared r.references ++
      changeSection explanations))

end FormulaUpgrade.Conversion
