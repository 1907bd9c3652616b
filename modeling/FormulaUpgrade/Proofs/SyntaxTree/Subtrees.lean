import FormulaUpgrade.SyntaxTree.Basic

/-! # Subtrees -/

namespace FormulaUpgrade.SyntaxTree

/-- The trees right below a tree. -/
def children : SyntaxTree → List SyntaxTree
  | .missing | .constant .. | .symbol _ => []
  | .call _ args | .operator _ args => args
  | .paren content => [content]
  | .conditional condition ifTrue ifFalse => [condition, ifTrue, ifFalse]
  | .array items => items
  | .object entries => entries.map Prod.snd
  | .assignment target value => [target, value]
  | .index owner indices => owner :: indices
  | .member owner _ => [owner]
  | .method owner _ args => owner :: args
  | .block statements => statements

theorem sizeOf_lt_of_mem_children {x t : SyntaxTree} (h : x ∈ t.children) :
    sizeOf x < sizeOf t := by
  cases t with
  | missing | constant | symbol => simp [children] at h
  | call _ args | operator _ args | array args | block args =>
      have hlt := List.sizeOf_lt_of_mem (show x ∈ args from h)
      simp only [call.sizeOf_spec, operator.sizeOf_spec, array.sizeOf_spec, block.sizeOf_spec]
      omega
  | paren | member | assignment | conditional =>
      simp only [children, List.mem_cons, List.not_mem_nil, or_false] at h
      grind [paren.sizeOf_spec, member.sizeOf_spec, assignment.sizeOf_spec,
        conditional.sizeOf_spec]
  | index _ args | method _ _ args =>
      simp only [index.sizeOf_spec, method.sizeOf_spec]
      rcases List.mem_cons.mp h with rfl | hmem
      · omega
      · have hlt := List.sizeOf_lt_of_mem hmem
        omega
  | object entries =>
      obtain ⟨⟨key, value⟩, hentry, rfl⟩ := List.mem_map.mp h
      have hlt := List.sizeOf_lt_of_mem hentry
      simp only [Prod.mk.sizeOf_spec] at hlt
      simp only [object.sizeOf_spec]
      omega

/-- Induction over trees, with the hypothesis for every child. -/
@[elab_as_elim]
theorem inductionOnChildren {motive : SyntaxTree → Prop} (t : SyntaxTree)
    (node : ∀ t, (∀ x ∈ t.children, motive x) → motive t) : motive t :=
  node t fun x _ => inductionOnChildren x node
termination_by sizeOf t
decreasing_by exact sizeOf_lt_of_mem_children (by assumption)

/-- A tree reaches itself, and what the trees reach that come next. -/
inductive Reached (next : SyntaxTree → List SyntaxTree) : SyntaxTree → SyntaxTree → Prop where
  | self (t) : Reached next t t
  | child {x y t} : y ∈ next t → Reached next x y → Reached next x t

theorem reached_iff {next : SyntaxTree → List SyntaxTree} {x t : SyntaxTree} :
    Reached next x t ↔ x = t ∨ ∃ y ∈ next t, Reached next x y := by
  constructor
  · intro h
    cases h with
    | self => exact .inl rfl
    | child hy h => exact .inr ⟨_, hy, h⟩
  · rintro (rfl | ⟨y, hy, h⟩)
    · exact .self x
    · exact .child hy h

theorem Reached.mono {next next' : SyntaxTree → List SyntaxTree}
    (hnext : ∀ {t x}, x ∈ next t → x ∈ next' t) {x t : SyntaxTree} (h : Reached next x t) :
    Reached next' x t := by
  induction h with
  | self => exact .self _
  | child hy _ ih => exact .child (hnext hy) ih

/-- A tree is within itself and within what its children are within. -/
abbrev Within : SyntaxTree → SyntaxTree → Prop :=
  Reached children

theorem within_iff {x t : SyntaxTree} : Within x t ↔ x = t ∨ ∃ y ∈ t.children, Within x y :=
  reached_iff

/-- The trees within a tree, with the tree itself first and each as often as it stands there. -/
def subtrees (t : SyntaxTree) : List SyntaxTree :=
  t :: t.children.attach.flatMap fun x => x.1.subtrees
termination_by sizeOf t
decreasing_by exact sizeOf_lt_of_mem_children x.2

theorem subtrees_eq (t : SyntaxTree) : t.subtrees = t :: t.children.flatMap subtrees := by
  rw [subtrees]
  simp

/-- A property of every tree within a tree. -/
def Everywhere (P : SyntaxTree → Prop) (t : SyntaxTree) : Prop :=
  ∀ x, Within x t → P x

theorem everywhere_iff {P : SyntaxTree → Prop} {t : SyntaxTree} :
    Everywhere P t ↔ P t ∧ ∀ x ∈ t.children, Everywhere P x := by
  constructor
  · intro h
    exact ⟨h t (.self t), fun x hx y hy => h y (.child hx hy)⟩
  · rintro ⟨ht, hchildren⟩ x hx
    rcases within_iff.mp hx with rfl | ⟨y, hy, hx⟩
    · exact ht
    · exact hchildren y hy x hx

end FormulaUpgrade.SyntaxTree
