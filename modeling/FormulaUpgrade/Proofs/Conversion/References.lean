import FormulaUpgrade.Proofs.Conversion.Acceptance
import FormulaUpgrade.Proofs.StringLiteral.Value

/-! # References in converted trees

Every reference in a part of a formula that is kept is a reference of the converted tree, and the
converted tree has no other ones. All references of a formula are recorded, kept or not.
-/

namespace FormulaUpgrade

open Token Grammar Property

namespace SyntaxTree

/-! ## References of a tree -/

/-- A reference to the named property can be reached. -/
def Refers [Host] (next : SyntaxTree → List SyntaxTree) (t : SyntaxTree) (name : String) : Prop :=
  ∃ kind written, Formula.propertyName kind written = name ∧
    Reached next (.call "prop" [.constant kind written]) t

theorem refers_iff [Host] {next : SyntaxTree → List SyntaxTree} {t : SyntaxTree} {name : String}
    (ht : ∀ args, t ≠ .call "prop" args) :
    Refers next t name ↔ ∃ x ∈ next t, Refers next x name := by
  constructor
  · rintro ⟨kind, written, hname, h⟩
    rcases reached_iff.mp h with rfl | ⟨x, hx, h⟩
    · exact absurd rfl (ht _)
    · exact ⟨x, hx, kind, written, hname, h⟩
  · rintro ⟨x, hx, kind, written, hname, h⟩
    exact ⟨kind, written, hname, .child hx h⟩

theorem refers_property [Host] {next : SyntaxTree → List SyntaxTree} {kind : ConstantKind}
    {written name : String} (hleaf : next (.constant kind written) = [])
    (hcall : next (.call "prop" [.constant kind written]) = [.constant kind written]) :
    Refers next (.call "prop" [.constant kind written]) name ↔
      Formula.propertyName kind written = name := by
  constructor
  · rintro ⟨kind', written', hname, h⟩
    rcases reached_iff.mp h with heq | ⟨x, hx, h⟩
    · obtain ⟨rfl, rfl⟩ : kind' = kind ∧ written' = written := by simpa using heq
      exact hname
    · rw [hcall, List.mem_singleton] at hx
      subst hx
      rw [reached_iff, hleaf] at h
      simp at h
  · intro hname
    exact ⟨kind, written, hname, .self _⟩

/-! ## References of a converted tree -/

/-- A reference to the named property is within a converted tree. -/
def Mentions (t : SyntaxTree) (name : String) : Prop :=
  Within (referenceTree name) t

section Mentions

variable {name op written : String} {kind : ConstantKind} {x y : SyntaxTree} {xs : List SyntaxTree}

theorem mentions_iff {t : SyntaxTree} (ht : ∀ args, t ≠ .call "prop" args) :
    Mentions t name ↔ ∃ x ∈ t.children, Mentions x name := by
  unfold Mentions
  rw [within_iff]
  have hself : referenceTree name ≠ t := (ht _).symm
  simp [hself]

@[simp] theorem mentions_constant : ¬Mentions (.constant kind written) name := by
  rw [mentions_iff (by simp)]
  simp [children]

@[simp] theorem mentions_symbol : ¬Mentions (.symbol written) name := by
  rw [mentions_iff (by simp)]
  simp [children]

@[simp] theorem mentions_paren : Mentions (.paren x) name ↔ Mentions x name := by
  rw [mentions_iff (by simp)]
  simp [children]

@[simp] theorem mentions_operator :
    Mentions (.operator op xs) name ↔ ∃ x ∈ xs, Mentions x name := by
  rw [mentions_iff (by simp)]
  simp [children]

@[simp] theorem mentions_array : Mentions (.array xs) name ↔ ∃ x ∈ xs, Mentions x name := by
  rw [mentions_iff (by simp)]
  simp [children]

@[simp] theorem mentions_method {member : String} :
    Mentions (.method x member xs) name ↔ Mentions x name ∨ ∃ y ∈ xs, Mentions y name := by
  rw [mentions_iff (by simp)]
  simp [children]

theorem mentions_call {function : String} (h : function ≠ "prop") :
    Mentions (.call function xs) name ↔ ∃ x ∈ xs, Mentions x name := by
  rw [mentions_iff (by simp [h])]
  simp [children]

@[simp] theorem mentions_referenceTree {other : String} :
    Mentions (referenceTree other) name ↔ other = name := by
  constructor
  · intro h
    rcases within_iff.mp h with heq | ⟨x, hx, h⟩
    · have hquote : Json.quote name = Json.quote other := by simpa [referenceTree] using heq
      exact (StringLiteral.quote_injective hquote).symm
    · obtain rfl : x = .constant .string (Json.quote other) := by
        simpa [referenceTree, children] using hx
      exact absurd h mentions_constant
  · rintro rfl
    exact .self _

theorem mentions_templateTree {kind : Property.Kind} {other : String} :
    Mentions (kind.templateTree (referenceTree other)) name ↔ other = name := by
  cases kind <;> simp [Property.Kind.templateTree, mentions_call]

theorem mentions_raise : Mentions (raise x y) name ↔ Mentions x name ∨ Mentions y name := by
  fun_induction raise x y with
  | case1 op x y ih => simp [ih]
  | case2 x y => simp

theorem mentions_binary : Mentions (binary op x y) name ↔ Mentions x name ∨ Mentions y name := by
  unfold binary
  split
  · exact mentions_raise
  · simp

end Mentions

end SyntaxTree

namespace Formula

open Conversion SyntaxTree

variable {declared : Declared} {name : String}

theorem mentions_operandTree {f : Formula} :
    Mentions f.operandTree name ↔ Mentions f.convertedTree name := by
  unfold operandTree grouped
  split <;> simp

theorem mentions_args [Host] {args : List Pair}
    (ih : ∀ arg ∈ args, (Mentions arg.2.convertedTree name ↔ Refers keptChildren arg.1 name)) :
    (∃ x ∈ convertedTrees (args.map Prod.snd), Mentions x name) ↔
      ∃ x ∈ args.map Prod.fst, Refers keptChildren x name := by
  rw [convertedTrees_eq_map, List.map_map]
  constructor
  · rintro ⟨x, hx, h⟩
    obtain ⟨arg, harg, rfl⟩ := List.mem_map.mp hx
    exact ⟨arg.1, List.mem_map_of_mem harg, (ih arg harg).mp h⟩
  · rintro ⟨x, hx, h⟩
    obtain ⟨arg, harg, rfl⟩ := List.mem_map.mp hx
    exact ⟨_, List.mem_map_of_mem harg, (ih arg harg).mpr h⟩

theorem mentions_special {special : Special} (hspecial : special ≠ .unaryMinus)
    (fs : List Formula) : Mentions (specialTree special fs (convertedTrees fs)) name ↔
      ∃ x ∈ convertedTrees fs, Mentions x name := by
  cases special with
  | unaryMinus => exact absurd rfl hspecial
  | unaryPlus => exact mentions_call (by decide)
  | day | month => simp [specialTree, mentions_call]
  | join =>
      cases fs with
      | nil => simp [specialTree, convertedTrees, mentions_call]
      | cons f fs => simp [specialTree, convertedTrees, mentions_call, or_comm]

theorem mentions_function [Host] {function : String} {args : List Pair} (hprop : function ≠ "prop")
    (hcount : ∀ op, treatment function = .operator op → args.length = 2)
    (ih : ∀ arg ∈ args, (Mentions arg.2.convertedTree name ↔ Refers keptChildren arg.1 name)) :
    Mentions (Formula.function function (args.map Prod.snd)).convertedTree name ↔
      Refers keptChildren (.call function (args.map Prod.fst)) name := by
  rw [refers_iff (by simp [hprop]), keptChildren, convertedTree]
  by_cases hminus : function = "unaryMinus"
  · subst hminus
    cases args with
    | nil =>
        change Mentions (.operator "-" []) name ↔ _
        simp
    | cons arg args =>
        change Mentions (.operator "-" [arg.2.operandTree]) name ↔ _
        simp [mentions_operandTree, ih arg (by simp)]
  · rw [if_neg hminus, ← mentions_args ih, functionTree]
    cases htreatment : treatment function with
    | renamed renamed =>
        have hrenamed : ∀ entry ∈ renamedFunctions, entry.2 ≠ "prop" := by
          decide
        exact mentions_call (hrenamed _ (mem_renamedFunctions htreatment))
    | operator op =>
        obtain ⟨arg, other, rfl⟩ := eq_pair_of_length (hcount op htreatment)
        change Mentions (SyntaxTree.binary op arg.2.operandTree other.2.operandTree) name ↔ _
        simp [mentions_binary, mentions_operandTree, convertedTrees]
    | special special =>
        obtain rfl := name_of_special htreatment
        refine mentions_special ?_ _
        rintro rfl
        exact hminus rfl
    | unchanged => exact mentions_call hprop

theorem mentions_prefixed [Host] {kind : Token.Kind} {op : String} {x : SyntaxTree} {f : Formula}
    (hkind : kind ∈ prefixKinds) (hop : Word.Lexical (kind, op))
    (ih : Mentions f.convertedTree name ↔ Refers keptChildren x name) :
    Mentions (operator op [f]).convertedTree name ↔
      Refers keptChildren (.operator op [x]) name := by
  have hsign : ∀ sign, Mentions (.operator sign [f.operandTree]) name ↔
      Refers keptChildren x name := by
    simp [mentions_operandTree, ih]
  rw [refers_iff (by simp)]
  simp only [keptChildren, children, List.mem_singleton, exists_eq_left]
  rcases prefixed_spelling hkind hop with
    ⟨rfl, rfl⟩ | ⟨rfl, rfl⟩ | ⟨rfl, rfl⟩ | ⟨rfl, rfl⟩
  · exact hsign "-"
  · rw [← ih]
    change Mentions (.call "toNumber" [f.convertedTree]) name ↔ _
    simp [mentions_call]
  · exact hsign "!"
  · exact hsign "!"

/-- The converted tree of a formula has the references of the parts that are kept. -/
theorem Normalizes.mentions_iff [Host] {t : SyntaxTree} {f : Formula}
    (h : Normalizes declared t f) :
    Mentions f.convertedTree name ↔ Refers keptChildren t name := by
  induction h with
  | number | string =>
      rw [refers_iff (by simp), convertedTree]
      simp [keptChildren, children]
  | symbol hname =>
      rw [refers_iff (by simp), convertedTree]
      split
      · rw [mentions_call (by rintro rfl; exact absurd hname (by decide))]
        simp [keptChildren, children]
      · simp [keptChildren, children]
  | property =>
      rw [refers_property rfl rfl]
      exact mentions_templateTree
  | function _ _ hprop hcount _ ih => exact mentions_function hprop hcount ih
  | prefixed hkind hop _ ih => exact mentions_prefixed hkind hop ih
  | infixed _ _ _ _ ihx ihy | power _ _ ihx ihy =>
      rw [refers_iff (by simp), convertedTree_operator _ (by simp)]
      simp [keptChildren, children, mentions_binary, mentions_operandTree, ihx, ihy]
  | continued _ _ _ hlength _ ihx ihy =>
      rw [refers_iff (by simp), convertedTree_concat _ hlength]
      simp [keptChildren, children, mentions_binary, mentions_operandTree, ihx, ihy]
  | paren _ ih =>
      rw [refers_iff (by simp)]
      simp [keptChildren, children, ih]
  | @conditional _ _ _ condition ifTrue ifFalse _ _ _ ihc ihx ihy =>
      rw [refers_iff (by simp)]
      change Mentions (.call "if" [condition.operandTree, ifTrue.operandTree,
        ifFalse.operandTree]) name ↔ _
      simp [mentions_call, mentions_operandTree, keptChildren, children, ihc, ihx, ihy]

/-- All references of a tree are recorded. -/
theorem Normalizes.mem_propertyNames [Host] {t : SyntaxTree} {f : Formula}
    (h : Normalizes declared t f) :
    name ∈ f.propertyNames ↔ Refers children t name := by
  induction h with
  | number | string | symbol =>
      rw [refers_iff (by simp)]
      simp [propertyNames, children]
  | property =>
      rw [refers_property rfl rfl]
      simp [propertyNames, eq_comm]
  | function _ _ hprop _ _ ih =>
      rw [refers_iff (by simp [hprop]), propertyNames, mem_propertyNamesOfAll]
      constructor
      · rintro ⟨g, hg, h⟩
        obtain ⟨arg, harg, rfl⟩ := List.mem_map.mp hg
        exact ⟨arg.1, List.mem_map_of_mem harg, (ih arg harg).mp h⟩
      · rintro ⟨x, hx, h⟩
        obtain ⟨arg, harg, rfl⟩ := List.mem_map.mp hx
        exact ⟨arg.2, List.mem_map_of_mem harg, (ih arg harg).mpr h⟩
  | prefixed _ _ _ ih =>
      rw [refers_iff (by simp)]
      simp [propertyNames, propertyNamesOfAll, children, ih]
  | infixed _ _ _ _ ihx ihy | power _ _ ihx ihy =>
      rw [refers_iff (by simp)]
      simp [propertyNames, propertyNamesOfAll, children, ihx, ihy]
  | continued _ _ _ _ _ ihx ihy =>
      rw [propertyNames, mem_propertyNamesOfAll] at ihx
      rw [refers_iff (by simp), propertyNames, mem_propertyNamesOfAll]
      simp [children, ← ihx, ← ihy, or_and_right, exists_or]
  | paren _ ih =>
      rw [refers_iff (by simp)]
      simp [children, ih]
  | conditional _ _ _ ihc ihx ihy =>
      rw [refers_iff (by simp)]
      simp [propertyNames, children, ihc, ihx, ihy]

end Formula

end FormulaUpgrade
