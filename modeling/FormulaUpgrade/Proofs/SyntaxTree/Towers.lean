import FormulaUpgrade.Proofs.SyntaxTree.Text
import FormulaUpgrade.SyntaxTree.Nesting
import FormulaUpgrade.Text.Blank

/-! # Towers

Layers of one construct around a number make trees of any depth. Their texts parse, and every layer
adds the same to their nesting.
-/

namespace FormulaUpgrade

open Grammar

theorem Text.isAllBlank_of_mem {s : String} {c : Char} (h : c ∈ s.toList) (hc : isBlank c = false) :
    isAllBlank s = false := by
  rw [isAllBlank, List.all_eq_false]
  exact ⟨c, h, by simp [hc]⟩

namespace SyntaxTree

/-- A construct around a tree of a level of the grammar, which is of that level too. -/
structure Layer where
  around : SyntaxTree → SyntaxTree
  before : String
  after : String
  level : Level
  steps : Nat
  text_around (t) : (around t).text = before ++ t.text ++ after
  derivable_around {t} : Derivable level t → Derivable level (around t)
  separable_around {t} : t.Separable → (around t).Separable
  nesting_around (t) : (around t).nesting = steps + t.nesting

namespace Layer

variable (layer : Layer)

/-- A number in layers, one inside the other. -/
def tower : Nat → SyntaxTree
  | 0 => .constant .number "1"
  | n + 1 => layer.around (tower n)

def towerText (n : Nat) : String :=
  String.join (List.replicate n layer.before) ++ "1" ++ String.join (List.replicate n layer.after)

theorem towerText_ne_blank (n : Nat) : Text.isAllBlank (layer.towerText n) = false :=
  Text.isAllBlank_of_mem (by simp [towerText] : '1' ∈ _) (by decide)

theorem text_tower (n : Nat) : (layer.tower n).text = layer.towerText n := by
  induction n with
  | zero => rfl
  | succ n ih =>
      rw [tower, layer.text_around, ih, towerText, towerText, List.replicate_succ,
        List.replicate_succ', ← String.toList_inj]
      simp

theorem derivable_tower (n : Nat) :
    Derivable layer.level (layer.tower n) ∧ (layer.tower n).Separable := by
  induction n with
  | zero =>
      have hrank : layer.level.rank ≤ Level.primary.rank := by
        cases layer.level <;> decide
      have hnumber : Derivable .primary (.constant .number "1") := .number (by decide)
      exact ⟨hnumber.loosen hrank, separable_constant _ _⟩
  | succ n ih => exact ⟨layer.derivable_around ih.1, layer.separable_around ih.2⟩

theorem parse_towerText (n : Nat) : parse (layer.towerText n) = .ok (layer.tower n) := by
  obtain ⟨hderivable, hseparable⟩ := layer.derivable_tower n
  rw [← text_tower]
  exact hderivable.parse_text hseparable

theorem nesting_tower (n : Nat) : (layer.tower n).nesting = layer.steps * n := by
  induction n with
  | zero => rfl
  | succ n ih =>
      rw [tower, layer.nesting_around, ih, Nat.mul_succ]
      omega

end Layer

end SyntaxTree

end FormulaUpgrade
