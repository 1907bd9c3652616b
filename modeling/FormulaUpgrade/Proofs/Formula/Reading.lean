import FormulaUpgrade.Formula.Reading
import FormulaUpgrade.Proofs.Formula.Errors
import FormulaUpgrade.Proofs.Parser.Correctness

/-! # The formula of a text

A text that is not blank has a formula exactly if it parses to a tree that is not nested too deeply.
-/

namespace FormulaUpgrade.Formula

open Property

variable {declared : Declared} {s : String} {tree : SyntaxTree}

/-- No formula comes of a text that does not parse, nor of one whose tree is nested too deeply. -/
def Unread [Host] (s : String) : Prop :=
  (∃ e, SyntaxTree.parse s = .error e) ∨
    ∃ tree, SyntaxTree.parse s = .ok tree ∧ nestingLimit < tree.nesting

theorem not_unread [Host] (h : SyntaxTree.parse s = .ok tree)
    (hnesting : tree.nesting ≤ nestingLimit) :
    ¬Unread s := by
  intro hunread
  rcases hunread with ⟨e, herror⟩ | ⟨tree', hparse, hdeep⟩
  · rw [h] at herror
    cases herror
  · obtain rfl := Except.ok.inj (h.symm.trans hparse)
    omega

theorem parse_of_not_unread [Host] (h : ¬Unread s) :
    ∃ tree, SyntaxTree.parse s = .ok tree ∧ tree.nesting ≤ nestingLimit := by
  cases hparse : SyntaxTree.parse s with
  | error e => exact absurd (.inl ⟨e, hparse⟩) h
  | ok tree =>
      refine ⟨tree, rfl, Nat.le_of_not_lt fun hdeep => h (.inr ?_)⟩
      exact ⟨tree, hparse, hdeep⟩

/-- A tree that was parsed becomes a formula, which keeps the errors made on the way to it. -/
theorem reports_of_parse [Host] (declared : Declared) (h : SyntaxTree.parse s = .ok tree) :
    (normal declared tree).formula.isMissing = false ∧ (normal declared tree).Reports := by
  obtain ⟨ws, _, hsentence⟩ := SyntaxTree.parse_eq_ok_iff.mp h
  exact reports_of_sentence hsentence

/-- A tree that was parsed and that becomes a formula without issues. -/
theorem normalizes_of_parse [Host] (h : SyntaxTree.parse s = .ok tree)
    (hissues : (normal declared tree).formula.issues = []) :
    Normalizes declared tree (normal declared tree).formula := by
  obtain ⟨ws, hwords, hsentence⟩ := SyntaxTree.parse_eq_ok_iff.mp h
  exact normalizes_of_sentence hsentence (Lexer.lexical_of_words? hwords) hissues

theorem parse_of_blank [Host] (hs : Text.isAllBlank s) : parse declared s = ⟨.missing, []⟩ := by
  rw [parse, Reading.of, if_pos hs]
  rfl

theorem parse_of_unread [Host] (hs : Text.isAllBlank s = false) (h : Unread s) :
    parse declared s = ⟨.missing, [couldNotParse]⟩ := by
  rw [parse, Reading.of, if_neg (by simp [hs])]
  rcases h with ⟨e, herror⟩ | ⟨tree, hparse, hdeep⟩
  · rw [herror]
    rfl
  · rw [hparse]
    dsimp only
    rw [if_pos hdeep]
    rfl

theorem parse_of_ok [Host] (hs : Text.isAllBlank s = false) (h : SyntaxTree.parse s = .ok tree)
    (hnesting : tree.nesting ≤ nestingLimit) : parse declared s = normal declared tree := by
  have hread := (reports_of_parse declared h).1
  rw [parse, Reading.of, if_neg (by simp [hs]), h]
  dsimp only
  rw [if_neg (Nat.not_lt.mpr hnesting), Reading.result, if_neg (by simp [hread])]

theorem parse_eq_normal [Host] (h : (parse declared s).formula.isMissing = false) :
    ∃ tree, SyntaxTree.parse s = .ok tree ∧ parse declared s = normal declared tree := by
  cases hs : Text.isAllBlank s with
  | true =>
      rw [parse_of_blank hs] at h
      cases h
  | false =>
      by_cases hunread : Unread s
      · rw [parse_of_unread hs hunread] at h
        cases h
      · obtain ⟨tree, htree, hnesting⟩ := parse_of_not_unread hunread
        exact ⟨tree, htree, parse_of_ok hs htree hnesting⟩

end FormulaUpgrade.Formula
