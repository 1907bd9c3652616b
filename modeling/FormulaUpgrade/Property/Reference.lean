import FormulaUpgrade.Json.Writer
import FormulaUpgrade.Property.Kind

/-! # References to properties -/

namespace FormulaUpgrade.Property

/-- The expression that refers to a property by name. -/
def reference (name : String) : String :=
  "prop(" ++ Json.quote name ++ ")"

/-- Text around a reference. -/
structure Template where
  before : String
  after : String
deriving DecidableEq, Repr

def Template.fill (t : Template) (text : String) : String :=
  t.before ++ text ++ t.after

/-- The template with its place marked. -/
def Template.show (t : Template) : String :=
  t.fill "\x7bprop\x7d"

/-- The expression that still gives the text or number that a reference of this kind used to give. -/
def Kind.template : Kind → Template
  | .person | .relation => ⟨"join(", ", map(format(current)), \", \")"⟩
  | .rollup => ⟨"join(", ", map(format(current)), \",\")"⟩
  | .file | .multiSelect => ⟨"join(", ", \", \")"⟩
  | .id => ⟨"", ".split('-').last().toNumber()"⟩
  | .other => ⟨"", ""⟩

/-- A reference to a property, converted as its kind demands. -/
def convertedReference (name : String) (kind : Kind) : String :=
  kind.template.fill (reference name)

/-- The kinds in the order in which their templates are listed. -/
def templateOrder : List Kind :=
  [.person, .relation, .rollup, .file, .multiSelect, .id, .other]

end FormulaUpgrade.Property
