import FormulaUpgrade.Formula.Basic

/-! # The nodes of a formula

Every formula is a tree. Its nodes are listed in two orders, from left to right in both: each node
in front of its parts, or behind them.
-/

namespace FormulaUpgrade.Formula

/-- Induction over formulas, with the hypothesis for every argument. -/
@[elab_as_elim]
theorem inductionOn {motive : Formula → Prop} (f : Formula) (missing : motive .missing)
    (literal : ∀ text, motive (.literal text))
    (function : ∀ name args, (∀ arg ∈ args, motive arg) → motive (.function name args))
    (property : ∀ name kind, motive (.property name kind))
    (parentheses : ∀ inner, motive inner → motive (.parentheses inner))
    (operator : ∀ op args, (∀ arg ∈ args, motive arg) → motive (.operator op args))
    (conditional : ∀ condition ifTrue ifFalse, motive condition → motive ifTrue → motive ifFalse →
      motive (.conditional condition ifTrue ifFalse))
    (symbol : ∀ name, motive (.symbol name)) (error : ∀ message, motive (.error message)) :
    motive f :=
  Formula.rec missing literal function property (fun inner ih => parentheses inner ih) operator
    conditional symbol error (by simp)
    (fun _ _ head tail => List.forall_mem_cons.mpr ⟨head, tail⟩) f

/-- The formulas right below a formula. -/
def parts : Formula → List Formula
  | .missing | .literal _ | .property .. | .symbol _ | .error _ => []
  | .function _ args | .operator _ args => args
  | .parentheses inner => [inner]
  | .conditional condition ifTrue ifFalse => [condition, ifTrue, ifFalse]

/-- Induction over formulas, with the hypothesis for every child. -/
@[elab_as_elim]
theorem inductionOnParts {motive : Formula → Prop} (f : Formula)
    (node : ∀ f, (∀ x ∈ f.parts, motive x) → motive f) : motive f := by
  induction f using inductionOn with
  | missing | literal | property | symbol | error => exact node _ (by simp [parts])
  | function _ _ ih | operator _ _ ih => exact node _ ih
  | parentheses _ ih => exact node _ (by simpa [parts] using ih)
  | conditional _ _ _ ihc iht ihf => exact node _ (by simpa [parts] using ⟨ihc, iht, ihf⟩)

/-! ## Nodes in front of their parts -/

mutual

/-- The nodes of a formula, each in front of its parts. -/
def preorder : Formula → List Formula
  | .function name args => .function name args :: preorders args
  | .operator op args => .operator op args :: preorders args
  | .parentheses inner => .parentheses inner :: inner.preorder
  | .conditional condition ifTrue ifFalse =>
    .conditional condition ifTrue ifFalse ::
      (condition.preorder ++ (ifTrue.preorder ++ ifFalse.preorder))
  | leaf => [leaf]

def preorders : List Formula → List Formula
  | [] => []
  | formula :: formulas => formula.preorder ++ preorders formulas

end

theorem preorders_eq_flatMap (fs : List Formula) : preorders fs = fs.flatMap preorder := by
  induction fs with
  | nil => rfl
  | cons f fs ih => rw [preorders, ih, List.flatMap_cons]

theorem preorder_eq (f : Formula) : f.preorder = f :: f.parts.flatMap preorder := by
  cases f <;> simp [preorder, parts, preorders_eq_flatMap]

/-! ## Nodes behind their parts -/

mutual

/-- The nodes of a formula, each behind its parts. -/
def postorder : Formula → List Formula
  | .function name args => postorders args ++ [.function name args]
  | .operator op args => postorders args ++ [.operator op args]
  | .parentheses inner => inner.postorder ++ [.parentheses inner]
  | .conditional condition ifTrue ifFalse =>
    condition.postorder ++ (ifTrue.postorder ++ (ifFalse.postorder ++
      [.conditional condition ifTrue ifFalse]))
  | leaf => [leaf]

def postorders : List Formula → List Formula
  | [] => []
  | formula :: formulas => formula.postorder ++ postorders formulas

end

theorem postorders_eq_flatMap (fs : List Formula) : postorders fs = fs.flatMap postorder := by
  induction fs with
  | nil => rfl
  | cons f fs ih => rw [postorders, ih, List.flatMap_cons]

theorem postorder_eq (f : Formula) : f.postorder = f.parts.flatMap postorder ++ [f] := by
  cases f <;> simp [postorder, parts, postorders_eq_flatMap]

theorem mem_postorder {f g : Formula} :
    g ∈ f.postorder ↔ g = f ∨ ∃ x ∈ f.parts, g ∈ x.postorder := by
  rw [postorder_eq]
  simp [or_comm]

end FormulaUpgrade.Formula
