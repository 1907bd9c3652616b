import FormulaUpgrade.Proofs.Formula.Normalizes
import FormulaUpgrade.Proofs.Formula.Nodes

/-! # Errors that a formula keeps

Normalizing lists the message of every error it makes, and leaves some of the errors in the formula.
A conditional with an error among its terms keeps that one and drops all the others, so an error may
be lost, but never the last one.
-/

namespace FormulaUpgrade

open Token Grammar Property

namespace Formula

/-! ## Messages in a formula -/

/-- The message of a node that is an error. -/
def message? : Formula → Option String
  | .error message => some message
  | _ => none

/-- The messages of the errors in a formula, from left to right. -/
def messages (f : Formula) : List String :=
  f.postorder.filterMap message?

theorem messages_eq (f : Formula) :
    f.messages = f.parts.flatMap messages ++ f.message?.toList := by
  rw [messages, postorder_eq, List.filterMap_append, List.filterMap_flatMap]
  cases hmessage : f.message? <;> simp [hmessage] <;> rfl

@[simp] theorem messages_error (message : String) : (error message).messages = [message] :=
  rfl

@[simp] theorem messages_function (name : String) (args : List Formula) :
    (function name args).messages = args.flatMap messages := by
  rw [messages_eq]
  simp [parts, message?]

@[simp] theorem messages_operator (op : String) (args : List Formula) :
    (operator op args).messages = args.flatMap messages := by
  rw [messages_eq]
  simp [parts, message?]

@[simp] theorem messages_conditional (condition ifTrue ifFalse : Formula) :
    (conditional condition ifTrue ifFalse).messages =
      condition.messages ++ (ifTrue.messages ++ ifFalse.messages) := by
  rw [messages_eq]
  simp [parts, message?]

/-! ## What is kept -/

/-- Some of the errors made are kept in their order, and at least one if any was made. -/
structure Keeps (kept made : List String) : Prop where
  sublist : kept.Sublist made
  eq_nil : kept = [] → made = []

namespace Keeps

theorem refl (made : List String) : Keeps made made :=
  ⟨List.Sublist.refl made, id⟩

theorem append {kept kept' made made' : List String} (h : Keeps kept made)
    (h' : Keeps kept' made') : Keeps (kept ++ kept') (made ++ made') := by
  refine ⟨h.sublist.append h'.sublist, ?_⟩
  intro hnil
  rw [List.append_eq_nil_iff] at hnil ⊢
  exact ⟨h.eq_nil hnil.1, h'.eq_nil hnil.2⟩

theorem flatMap {α : Type} {kept made : α → List String} {xs : List α}
    (h : ∀ x ∈ xs, Keeps (kept x) (made x)) : Keeps (xs.flatMap kept) (xs.flatMap made) := by
  induction xs with
  | nil => exact refl []
  | cons x xs ih =>
      rw [List.forall_mem_cons] at h
      rw [List.flatMap_cons, List.flatMap_cons]
      exact h.1.append (ih h.2)

/-- An error that is kept makes up for all that are dropped. -/
theorem drop {kept made made' : List String} (h : kept.Sublist made) (hkept : kept ≠ [])
    (hmade : made.Sublist made') : Keeps kept made' :=
  ⟨h.trans hmade, fun hnil => absurd hnil hkept⟩

end Keeps

/-- A formula keeps the errors made on the way to it, and every operator in it has operands. -/
structure Normal.Reports (n : Normal) : Prop where
  keeps : Keeps n.formula.messages n.errors
  operands : ∀ op, operator op [] ∉ n.formula.postorder

theorem reports_fail (message : String) : (Normal.fail [] message).Reports :=
  ⟨.refl _, by simp [Normal.fail, postorder]⟩

/-! ## Lists -/

theorem normalAll_snd [Host] (declared : Declared) (trees : List SyntaxTree) :
    (normalAll declared trees).2 = trees.flatMap fun tree => (normal declared tree).errors := by
  induction trees with
  | nil => rfl
  | cons tree trees ih =>
      rw [List.flatMap_cons, ← ih]
      rfl

theorem keeps_normalAll [Host] {declared : Declared} {trees : List SyntaxTree}
    (hne : ∀ tree ∈ trees, (normal declared tree).formula.isMissing = false)
    (h : ∀ tree ∈ trees, (normal declared tree).Reports) :
    Keeps ((normalAll declared trees).1.flatMap messages) (normalAll declared trees).2 := by
  rw [normalAll_fst hne, normalAll_snd, List.flatMap_map]
  exact Keeps.flatMap fun tree htree => (h tree htree).keeps

theorem operands_normalAll [Host] {declared : Declared} {trees : List SyntaxTree}
    (hne : ∀ tree ∈ trees, (normal declared tree).formula.isMissing = false)
    (h : ∀ tree ∈ trees, (normal declared tree).Reports) (op : String) :
    ∀ f ∈ (normalAll declared trees).1, operator op [] ∉ f.postorder := by
  rw [normalAll_fst hne, List.forall_mem_map]
  exact fun tree htree => (h tree htree).operands op

/-! ## Constructs -/

/-- A chain that goes on keeps the errors of the chain that it goes on with. -/
theorem flatMap_messages_chain (op : String) (trees : List SyntaxTree) (fs : List Formula) :
    (chain op trees fs).flatMap messages = fs.flatMap messages := by
  unfold chain
  split
  · split <;> simp
  · rfl

theorem chain_eq_nil {op : String} {trees : List SyntaxTree} {fs : List Formula}
    (h : chain op trees fs = []) : fs = [] := by
  unfold chain at h
  split at h
  · split at h
    next hchain =>
      obtain ⟨hinner, _⟩ := List.append_eq_nil_iff.mp h
      simp [hinner] at hchain
    next => cases h
  · exact h

/-- The operands of a chain are operands of what it is made of. -/
theorem mem_postorder_of_mem_chain {op : String} {trees : List SyntaxTree} {fs : List Formula}
    {f g : Formula} (hf : f ∈ chain op trees fs) (hg : g ∈ f.postorder) :
    ∃ x ∈ fs, g ∈ x.postorder := by
  unfold chain at hf
  split at hf
  next first inner rest =>
    split at hf
    next =>
      rcases List.mem_append.mp hf with hf | hf
      · refine ⟨.operator first inner, by simp, ?_⟩
        exact mem_postorder.mpr (.inr ⟨f, hf, hg⟩)
      · exact ⟨f, by simp [hf], hg⟩
    next => exact ⟨f, hf, hg⟩
  next => exact ⟨f, hf, hg⟩

theorem reports_function [Host] {declared : Declared} {name : String} {trees : List SyntaxTree}
    (hname : name ≠ "prop")
    (hne : ∀ tree ∈ trees, (normal declared tree).formula.isMissing = false)
    (h : ∀ tree ∈ trees, (normal declared tree).Reports) :
    (normal declared (.call name trees)).Reports := by
  rw [normal, if_neg hname]
  refine ⟨?_, ?_⟩
  · rw [messages_function]
    exact keeps_normalAll hne h
  · intro op hmem
    rcases mem_postorder.mp hmem with heq | ⟨f, hf, hmem⟩
    · cases heq
    · exact operands_normalAll hne h op f hf hmem

theorem reports_operator [Host] {declared : Declared} {op : String} {trees : List SyntaxTree}
    (htrees : trees ≠ [])
    (hne : ∀ tree ∈ trees, (normal declared tree).formula.isMissing = false)
    (h : ∀ tree ∈ trees, (normal declared tree).Reports) :
    (normal declared (.operator op trees)).Reports := by
  rw [normal]
  refine ⟨?_, ?_⟩
  · rw [messages_operator, flatMap_messages_chain]
    exact keeps_normalAll hne h
  · intro op' hmem
    rcases mem_postorder.mp hmem with heq | ⟨f, hf, hmem⟩
    · have hnil := chain_eq_nil (Formula.operator.inj heq).2.symm
      rw [normalAll_fst hne, List.map_eq_nil_iff] at hnil
      exact htrees hnil
    · obtain ⟨x, hx, hmem⟩ := mem_postorder_of_mem_chain hf hmem
      exact operands_normalAll hne h op' x hx hmem

theorem reports_property [Host] (declared : Declared) (trees : List SyntaxTree) :
    (normalProperty declared trees).Reports := by
  unfold normalProperty
  split
  · dsimp only
    split
    · exact ⟨.refl _, by simp [postorder]⟩
    · exact reports_fail _
  · exact reports_fail _
  · exact reports_fail _

/-- The first error among the terms of a conditional is kept for all of them. -/
theorem reports_conditional {tree : SyntaxTree} {condition ifTrue ifFalse : Normal}
    (hc : condition.formula.isMissing = false) (ht : ifTrue.formula.isMissing = false)
    (hf : ifFalse.formula.isMissing = false) (hcondition : condition.Reports)
    (hifTrue : ifTrue.Reports) (hifFalse : ifFalse.Reports) :
    (normalConditional tree condition ifTrue ifFalse).Reports := by
  obtain ⟨c, cs⟩ := condition
  obtain ⟨t, ts⟩ := ifTrue
  obtain ⟨f, fs⟩ := ifFalse
  unfold normalConditional
  dsimp only at *
  split
  next => cases hc
  next message =>
    refine ⟨.drop hcondition.keeps.sublist (by simp) ?_, by simp [postorder]⟩
    rw [List.append_assoc]
    exact List.sublist_append_left cs _
  next message _ =>
    refine ⟨.drop hifTrue.keeps.sublist (by simp) ?_, by simp [postorder]⟩
    rw [List.append_assoc]
    exact (List.sublist_append_left ts _).trans (List.sublist_append_right cs _)
  next message _ _ =>
    refine ⟨.drop hifFalse.keeps.sublist (by simp) ?_, by simp [postorder]⟩
    exact List.sublist_append_right _ fs
  next => cases ht
  next => cases hf
  next =>
    refine ⟨?_, ?_⟩
    · rw [messages_conditional, List.append_assoc]
      exact hcondition.keeps.append (hifTrue.keeps.append hifFalse.keeps)
    · intro op hmem
      rcases mem_postorder.mp hmem with heq | ⟨x, hx, hnode⟩
      · cases heq
      · simp only [parts, List.mem_cons, List.not_mem_nil, or_false] at hx
        rcases hx with rfl | rfl | rfl
        · exact hcondition.operands op hnode
        · exact hifTrue.operands op hnode
        · exact hifFalse.operands op hnode

/-! ## Trees -/

/-- The formula of an expression keeps the errors made on the way to it. -/
theorem reports_of_derives [Host] {declared : Declared} {ℓ : Level} {ws : List Word}
    {t : SyntaxTree} (h : Derives ℓ ws t) : (normal declared t).Reports := by
  induction h with
  | tighter _ ih => exact ih
  | assignment | index | member | method | array | object => exact reports_fail _
  | conditional hc hx hy ihc ihx ihy =>
      rw [normal]
      exact reports_conditional (normal_ne_missing hc) (normal_ne_missing hx)
        (normal_ne_missing hy) ihc ihx ihy
  | infixed _ hx hy ihx ihy | power hx hy ihx ihy =>
      apply reports_operator (by simp)
      · simpa using ⟨normal_ne_missing hx, normal_ne_missing hy⟩
      · simpa using ⟨ihx, ihy⟩
  | prefixed _ hx ih =>
      apply reports_operator (by simp)
      · simpa using normal_ne_missing hx
      · simpa using ih
  | number | string => exact ⟨.refl _, by simp [normal, postorder]⟩
  | symbol =>
      rw [normal]
      split
      · exact ⟨.refl _, by simp [postorder]⟩
      · exact reports_fail _
  | paren _ ih => rwa [normal]
  | @call _ name items _ hitems ihitems =>
      by_cases hname : name = "prop"
      · rw [normal, if_pos hname]
        exact reports_property declared _
      · apply reports_function hname (normal_items_ne_missing hitems)
        rwa [List.forall_mem_map]

/-- A formula text becomes a formula that keeps the errors made on the way to it. -/
theorem reports_of_sentence [Host] {declared : Declared} {ws : List Word} {t : SyntaxTree}
    (h : Sentence ws t) :
    (normal declared t).formula.isMissing = false ∧ (normal declared t).Reports := by
  rcases h.single_or_block with ⟨v, hv, _⟩ | ⟨statements, rfl⟩
  · exact ⟨normal_ne_missing hv, reports_of_derives hv⟩
  · exact ⟨rfl, reports_fail _⟩

end Formula

end FormulaUpgrade
