import FormulaUpgrade.Proofs.Conversion.Traversal
import FormulaUpgrade.Proofs.Formula.Reading

/-! # Outcomes of a conversion

All that can come of a text: what is read, and what the conversion returns for it.
-/

namespace FormulaUpgrade.Conversion

open Property Formula

/-- What is read of a text, and what its conversion returns. Nothing is read of a blank text and of
one that cannot be read, and nothing is converted of a formula that is nested too deeply. -/
inductive Outcome [Host] (declared : Declared) (s : String) : Normal → Result → Prop where
  | blank : Text.isAllBlank s → Outcome declared s ⟨.missing, []⟩ .empty
  | unread : Text.isAllBlank s = false → Unread s →
      Outcome declared s ⟨.missing, [couldNotParse]⟩ ⟨"", [], [messageIssue couldNotParse], []⟩
  | deep {tree} : Text.isAllBlank s = false → SyntaxTree.parse s = .ok tree →
      tree.nesting ≤ nestingLimit → nestingLimit < (normal declared tree).formula.nesting →
      Outcome declared s (normal declared tree) ⟨"", [], [messageIssue tooDeep], []⟩
  | converted {tree} : Text.isAllBlank s = false → SyntaxTree.parse s = .ok tree →
      tree.nesting ≤ nestingLimit → (normal declared tree).formula.nesting ≤ nestingLimit →
      Outcome declared s (normal declared tree)
        ⟨(normal declared tree).formula.convertedText, (normal declared tree).formula.changes,
          (normal declared tree).formula.issues,
          addNames [] (normal declared tree).formula.propertyNames⟩

theorem convert_outcome [Host] (declared : Declared) (s : String) :
    Outcome declared s (parse declared s) (convert declared s) := by
  rw [convert_eq, runFormula_result]
  cases hs : Text.isAllBlank s with
  | true =>
      rw [parse_of_blank hs]
      exact .blank hs
  | false =>
      by_cases hunread : Unread s
      · rw [parse_of_unread hs hunread]
        exact .unread hs hunread
      · obtain ⟨tree, htree, hnesting⟩ := parse_of_not_unread hunread
        have hread := (reports_of_parse declared htree).1
        rw [parse_of_ok hs htree hnesting, if_neg (by simp [hread])]
        by_cases hdeep : nestingLimit < (normal declared tree).formula.nesting
        · rw [if_pos hdeep]
          exact .deep hs htree hnesting hdeep
        · rw [if_neg hdeep]
          exact .converted hs htree hnesting (Nat.le_of_not_lt hdeep)

end FormulaUpgrade.Conversion
