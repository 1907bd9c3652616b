import FormulaUpgrade.Proofs.Conversion.Dependence
import FormulaUpgrade.Proofs.Conversion.FixedPoint

/-! # The names in references

Whatever characters a name is made of, the reference to it is read as a property of that name, and a
converted reference holds the name once.
-/

namespace FormulaUpgrade

open Grammar

/-- Whether a tree is a call of the named function. -/
def SyntaxTree.isCallOf (name : String) : SyntaxTree → Bool
  | .call function _ => function == name
  | _ => false

namespace Property

theorem parse_convertedReference (name : String) (kind : Kind) :
    SyntaxTree.parse (convertedReference name kind) =
      .ok (kind.templateTree (referenceTree name)) := by
  have hderivable := derivable_templateTree kind (derivable_referenceTree name)
  exact (prints_convertedReference name kind).parse (hderivable.loosen (by decide))

theorem parse_reference (name : String) :
    SyntaxTree.parse (reference name) = .ok (referenceTree name) := by
  have h := parse_convertedReference name .other
  simpa [convertedReference, Kind.template, Template.fill, Kind.templateTree] using h

theorem isAllBlank_reference (name : String) : Text.isAllBlank (reference name) = false := by
  have hfirst : Text.isBlank 'p' = false := by decide
  simp [reference, Text.isAllBlank, hfirst]

/-- The only reference in a template is the one that it is filled with. -/
theorem calls_templateTree (name : String) (kind : Kind) :
    (kind.templateTree (referenceTree name)).subtrees.filter (SyntaxTree.isCallOf "prop") =
      [referenceTree name] := by
  cases kind <;>
    simp [Kind.templateTree, referenceTree, SyntaxTree.subtrees_eq, SyntaxTree.children,
      SyntaxTree.isCallOf]

end Property

theorem Formula.normal_referenceTree [Host] {declared : Property.Declared} {kind : Property.Kind}
    {name : String} (h : declared.resolve name = .ok kind) :
    normal declared (Property.referenceTree name) = ⟨.property name kind, []⟩ := by
  rw [Property.referenceTree, normal, if_pos rfl, normalProperty, propertyName_quote, h]

namespace Property

/-- A reference is read as the property that it was made of, and a converted one has a single call of
`prop`, whose argument stands for the name. So no two names have one reference. -/
theorem reference_keeps_name [Host] (declared : Declared) (hdeclared : declared.Valid)
    (name : String) (kind : Kind) :
    (∃ resolved, declared.resolve name = .ok resolved ∧
        Formula.parse declared (reference name) = ⟨.property name resolved, []⟩) ∧
      (∃ tree written, SyntaxTree.parse (convertedReference name kind) = .ok tree ∧
        tree.subtrees.filter (SyntaxTree.isCallOf "prop") =
          [.call "prop" [.constant .string written]] ∧
        StringLiteral.codePoints written = .ok (name.toList.map Char.toNat) ∧
        StringLiteral.value written = .ok name) ∧
      ∀ other, reference other = reference name → other = name := by
  refine ⟨⟨_, hdeclared.resolve_eq name, ?_⟩, ?_, fun other => reference_injective⟩
  · rw [Formula.parse_of_ok (isAllBlank_reference name) (parse_reference name) (Nat.zero_le _)]
    exact Formula.normal_referenceTree (hdeclared.resolve_eq name)
  · exact ⟨_, Json.quote name, parse_convertedReference name kind, calls_templateTree name kind,
      StringLiteral.codePoints_quote name, StringLiteral.value_quote name⟩

attribute [local instance] Host.usual

/-- A name with both marks, a backslash, braces and control characters. -/
theorem reference_keeps_name_escaped :
    let name := "\"'\\\x7bprop\x7d\x00\n"
    let declared := Types.declared (.ofList [("B", .file), (name, .id)])
    declared.Valid ∧ Formula.parse declared (reference name) = ⟨.property name .id, []⟩ ∧
      ∃ tree written, SyntaxTree.parse (convertedReference name .id) = .ok tree ∧
        tree.subtrees.filter (SyntaxTree.isCallOf "prop") =
          [.call "prop" [.constant .string written]] ∧
        StringLiteral.value written = .ok name := by
  intro name declared
  have hvalid : declared.Valid := Declared.valid_declared _
  obtain ⟨⟨kind, hresolve, hparse⟩, ⟨tree, written, htree, hcalls, _, hvalue⟩, _⟩ :=
    reference_keeps_name declared hvalid name .id
  obtain rfl : Kind.id = kind := Except.ok.inj hresolve
  exact ⟨hvalid, hparse, tree, written, htree, hcalls, hvalue⟩

end Property

end FormulaUpgrade
