import FormulaUpgrade.Proofs.Conversion.Grouping
import FormulaUpgrade.Proofs.Conversion.Outcome
import FormulaUpgrade.Proofs.StringLiteral.Value
import FormulaUpgrade.Proofs.SyntaxTree.Towers

/-! # Formulas that a conversion leaves as they are

A conversion that changes nothing writes its formula anew: chains without the parentheses that they
do not need, and operands with those that they do. What it writes is read as the same formula.
-/

namespace FormulaUpgrade

open Token Grammar Property Conversion

theorem SyntaxTree.raise_of_not_unary {x : SyntaxTree} (h : x.isUnary = false) (y : SyntaxTree) :
    raise x y = .operator "^" [x, y] := by
  unfold raise
  split
  · cases h
  · rfl

namespace Formula

/-! ## Plain formulas -/

def isConditional : Formula → Bool
  | .conditional .. => true
  | _ => false

/-- Whether a node is a power with an operator of one argument as its base. -/
def raisesUnary : Formula → Bool
  | .operator op (.operator _ [_] :: _) => op == "^"
  | _ => false

/-- A node that is written as what it is. -/
structure PlainNode (f : Formula) : Prop where
  unchanged : f.ownChange? = none
  unconditional : f.isConditional = false
  base : f.raisesUnary = false

/-- A formula whose nodes are all written as what they are. -/
def Plain (f : Formula) : Prop :=
  ∀ g ∈ f.preorder, g.PlainNode

theorem plain_iff {f : Formula} : f.Plain ↔ f.PlainNode ∧ ∀ x ∈ f.parts, x.Plain := by
  rw [Plain, preorder_eq]
  simp only [List.forall_mem_cons, List.forall_mem_flatMap]
  rfl

theorem Plain.treatment_eq {name : String} {args : List Formula} (h : (function name args).Plain) :
    treatment name = .unchanged := by
  have hown := (plain_iff.mp h).1.unchanged
  simpa [ownChange?] using hown

theorem Plain.operator_of_concat {op : String} {inner : List Formula} {g : Formula}
    (hop : op ≠ "^") (hlength : 2 ≤ inner.length) (h : (operator op (inner ++ [g])).Plain) :
    (operator op inner).Plain ∧ g.Plain := by
  obtain ⟨_, hparts⟩ := plain_iff.mp h
  simp only [parts, List.forall_mem_append, List.forall_mem_singleton] at hparts
  refine ⟨plain_iff.mpr ⟨?_, hparts.1⟩, hparts.2⟩
  obtain ⟨first, second, rest, rfl⟩ : ∃ first second rest, inner = first :: second :: rest := by
    rcases inner with _ | ⟨first, _ | ⟨second, rest⟩⟩
    · simp at hlength
    · simp at hlength
    · exact ⟨first, second, rest, rfl⟩
  refine ⟨rfl, rfl, ?_⟩
  unfold raisesUnary
  split
  next heq =>
    obtain ⟨rfl, _⟩ := Formula.operator.inj heq
    simpa using hop
  next => rfl

theorem Plain.not_conditional {condition ifTrue ifFalse : Formula} :
    ¬(conditional condition ifTrue ifFalse).Plain := by
  intro h
  cases (plain_iff.mp h).1.unconditional

variable {declared : Declared} {t : SyntaxTree} {f g : Formula} {op : String}

theorem Normalizes.isMissing_eq [Host] (h : Normalizes declared t f) : f.isMissing = false := by
  induction h with
  | paren _ ih => exact ih
  | number | string | symbol | property | function | prefixed | infixed | continued | power
  | conditional => rfl

/-- Nothing that a plain formula comes from leaves a minus sign without an operand. -/
theorem Normalizes.complete_of_plain [Host] (h : Normalizes declared t f) (hplain : f.Plain) :
    t.Complete := by
  induction h with
  | number | string | symbol => simp [SyntaxTree.Complete]
  | property =>
      rw [SyntaxTree.complete_iff]
      simp [SyntaxTree.keptChildren, SyntaxTree.Complete]
  | @function _ name args _ _ _ _ _ ih =>
      have hname : name ≠ "unaryMinus" := by
        intro hminus
        have htreatment := hplain.treatment_eq
        rw [hminus] at htreatment
        revert htreatment
        decide
      have hparts := (plain_iff.mp hplain).2
      rw [parts, List.forall_mem_map] at hparts
      refine SyntaxTree.complete_iff.mpr ⟨by simp [hname], ?_⟩
      rw [SyntaxTree.keptChildren, if_neg hname, List.forall_mem_map]
      exact fun arg harg => ih arg harg (hparts arg harg)
  | prefixed _ _ _ ih =>
      have hparts := (plain_iff.mp hplain).2
      simpa using ih (hparts _ (by simp [parts]))
  | infixed _ _ _ _ ihx ihy | power _ _ ihx ihy =>
      have hparts := (plain_iff.mp hplain).2
      simpa using ⟨ihx (hparts _ (by simp [parts])), ihy (hparts _ (by simp [parts]))⟩
  | continued hkind hop _ hlength _ ihx ihy =>
      obtain ⟨hx, hy⟩ := hplain.operator_of_concat (ne_power hkind hop) hlength
      simpa using ⟨ihx hx, ihy hy⟩
  | paren _ ih => simpa using ih hplain
  | conditional => exact absurd hplain Plain.not_conditional

/-! ## Operands -/

theorem normal_operandTree [Host] (h : normal declared f.convertedTree = ⟨f, []⟩) :
    normal declared f.operandTree = ⟨f, []⟩ := by
  unfold operandTree grouped
  split
  · rwa [normal]
  · exact h

theorem normalAll_convertedTrees [Host] {fs : List Formula}
    (h : ∀ f ∈ fs, normal declared f.convertedTree = ⟨f, []⟩ ∧ f.isMissing = false) :
    normalAll declared (convertedTrees fs) = (fs, []) := by
  induction fs with
  | nil => rfl
  | cons f fs ih =>
      rw [List.forall_mem_cons] at h
      simp [convertedTrees, normalAll, h.1, ih h.2]

theorem normal_binary [Host] {x y : SyntaxTree} (hx : normal declared x = ⟨f, []⟩)
    (hy : normal declared y = ⟨g, []⟩) (hf : f.isMissing = false) (hg : g.isMissing = false) :
    normal declared (.operator op [x, y]) = ⟨.operator op (chain op [x, y] [f, g]), []⟩ := by
  simp [normal, normalAll, hx, hy, hf, hg]

/-- A chain as an operand is put in parentheses, and so no chain goes on with it. -/
theorem chain_operandTree (op : String) (f g : Formula) (y : SyntaxTree) :
    chain op [f.operandTree, y] [f, g] = [f, g] := by
  by_cases hneeds : f.needsParentheses
  · rw [operandTree_of_needsParentheses hneeds]
    rfl
  · rcases chain_binary op f.operandTree y f g with h | ⟨inner, rfl, _, hlength, _⟩
    · exact h
    · exact absurd (by simpa [needsParentheses] using hlength) hneeds

/-- A chain on the left, written without parentheses, goes on. -/
theorem chain_convertedTree {inner : List Formula} (hop : op ≠ "^") (hlength : 2 ≤ inner.length)
    (g : Formula) (y : SyntaxTree) :
    chain op [(operator op inner).convertedTree, y] [operator op inner, g] = inner ++ [g] := by
  have htree : ∃ args, (operator op inner).convertedTree = .operator op args := by
    rcases List.eq_nil_or_concat inner with rfl | ⟨front, last, rfl⟩
    · cases hlength
    · have hfront : front.map operandTree ≠ [] := by
        intro hnil
        simp_all
      rw [convertedTree_operator op hlength, List.concat_eq_append, List.map_append,
        List.map_singleton, SyntaxTree.chained_concat op hfront, SyntaxTree.binary, if_neg hop]
      exact ⟨_, rfl⟩
  obtain ⟨args, htree⟩ := htree
  rw [htree, chain, if_pos ⟨hop, rfl, hlength⟩]

theorem isUnary_operandTree_of_ne (hf : ∀ op x, f ≠ operator op [x]) :
    f.operandTree.isUnary = false := by
  cases f with
  | function name args => exact isUnary_operandTree_function name args
  | operator op args =>
      match args with
      | [] => rfl
      | [x] => exact absurd rfl (hf op x)
      | _ :: _ :: _ => exact isUnary_operandTree_of_needsParentheses (by simp [needsParentheses])
  | property name kind => cases kind <;> rfl
  | symbol name =>
      rw [operandTree_of_not_needsParentheses rfl, convertedTree]
      split <;> rfl
  | missing | literal | parentheses | conditional | error => rfl

/-! ## Formulas -/

theorem propertyName_quote [Host] (name : String) :
    propertyName .string (Json.quote name) = name := by
  rw [propertyName, StringLiteral.value_quote]
  rfl

/-- A plain formula is what its converted text is read as. -/
theorem Normalizes.normal_convertedTree [Host] (h : Normalizes declared t f) (hplain : f.Plain) :
    normal declared f.convertedTree = ⟨f, []⟩ := by
  induction h with
  | number h => simp [convertedTree, h.ofText_eq, normal]
  | string h =>
      have hquoted := StringLiteral.lexical_requote h
      simp [convertedTree, hquoted.ofText_eq, normal, StringLiteral.requote_requote]
  | @symbol name hname =>
      have hsame : ¬calledConstants.contains name := by
        simpa [ownChange?] using (plain_iff.mp hplain).1.unchanged
      rw [convertedTree, if_neg hsame]
      simp [normal, hname]
  | @property kind text propertyKind hresolve =>
      obtain rfl : propertyKind = .other := by
        simpa [ownChange?] using (plain_iff.mp hplain).1.unchanged
      simp [convertedTree, Kind.templateTree, referenceTree, normal, normalProperty,
        propertyName_quote, hresolve]
  | @function _ name args _ _ hname _ hargs ih =>
      have hparts := (plain_iff.mp hplain).2
      rw [parts, List.forall_mem_map] at hparts
      have hall := @normalAll_convertedTrees declared _ (args.map Prod.snd) <| by
        rw [List.forall_mem_map]
        exact fun arg harg => ⟨ih arg harg (hparts arg harg), (hargs arg harg).isMissing_eq⟩
      rw [convertedTree, functionTree, hplain.treatment_eq]
      simp [normal, hname, hall]
  | @prefixed _ op _ f _ _ hx ih =>
      obtain ⟨hnode, hparts⟩ := plain_iff.mp hplain
      have hoperand := normal_operandTree (ih (hparts f (by simp [parts])))
      obtain ⟨hnot, hplus⟩ : op ≠ "not" ∧ op ≠ "+" := by
        have hown := hnode.unchanged
        rw [ownChange?] at hown
        grind
      rw [convertedTree, prefixedTree, if_neg hnot, if_neg hplus, ← operandTree]
      simp [normal, normalAll, hoperand, hx.isMissing_eq, chain]
  | @infixed _ _ op _ _ f g hkind hop hx hy ihx ihy =>
      have hparts := (plain_iff.mp hplain).2
      have hf := normal_operandTree (ihx (hparts _ (by simp [parts])))
      have hg := normal_operandTree (ihy (hparts _ (by simp [parts])))
      rw [convertedTree_operator op (by simp), List.map_cons, List.map_singleton,
        SyntaxTree.chained_pair, SyntaxTree.binary, if_neg (ne_power hkind hop),
        normal_binary hf hg hx.isMissing_eq hy.isMissing_eq, chain_operandTree]
  | @continued _ _ op _ _ inner g hkind hop hx hlength hy ihx ihy =>
      have hne := ne_power hkind hop
      obtain ⟨hinner, hg⟩ := hplain.operator_of_concat hne hlength
      rw [convertedTree_concat op hlength, SyntaxTree.binary, if_neg hne,
        normal_binary (ihx hinner) (normal_operandTree (ihy hg)) rfl hy.isMissing_eq,
        chain_convertedTree hne hlength]
  | @power _ _ f g hx hy ihx ihy =>
      obtain ⟨hnode, hparts⟩ := plain_iff.mp hplain
      have hf := normal_operandTree (ihx (hparts _ (by simp [parts])))
      have hg := normal_operandTree (ihy (hparts _ (by simp [parts])))
      have hbase : ∀ op x, f ≠ operator op [x] := by
        intro op x hunary
        have hraises := hnode.base
        rw [hunary] at hraises
        cases hraises
      rw [convertedTree_operator "^" (by simp), List.map_cons, List.map_singleton,
        SyntaxTree.chained_pair, SyntaxTree.binary, if_pos rfl,
        SyntaxTree.raise_of_not_unary (isUnary_operandTree_of_ne hbase),
        normal_binary hf hg hx.isMissing_eq hy.isMissing_eq, chain_operandTree]
  | paren _ ih => exact ih hplain
  | conditional => exact absurd hplain Plain.not_conditional

/-- The converted text of a plain formula is read as that formula, unless its tree is nested too
deeply. -/
theorem Normalizes.parse_of_plain [Host] (h : Normalizes declared t f) (hplain : f.Plain)
    (hblank : Text.isAllBlank f.convertedText = false) :
    SyntaxTree.parse f.convertedText = .ok f.convertedTree ∧
      Formula.parse declared f.convertedText =
        if f.convertedTree.nesting ≤ nestingLimit then ⟨f, []⟩
        else ⟨.missing, [couldNotParse]⟩ := by
  have hparse := h.parse_convertedText (h.complete_of_plain hplain)
  refine ⟨hparse, ?_⟩
  by_cases hout : f.convertedTree.nesting ≤ nestingLimit
  · rw [if_pos hout, parse_of_ok hblank hparse hout, h.normal_convertedTree hplain]
  · rw [if_neg hout]
    exact parse_of_unread hblank (.inr ⟨_, hparse, Nat.lt_of_not_le hout⟩)

end Formula

/-! ## Conversions -/

namespace Conversion

open Formula

/-- A conversion without changes and issues writes a text that is read as the same formula and that
is converted to itself, unless the parentheses that it writes make the text too deep to be read.
The formula must be without conditionals, which become calls, and without powers of an operator of
one argument, which become that operator in front of a power. -/
theorem convert_fixes_plain_formulas [Host] (declared : Declared) (s : String)
    (hblank : Text.isAllBlank (convert declared s).formula = false)
    (hissues : (convert declared s).issues = []) (hchanges : (convert declared s).changes = [])
    (hnodes : ∀ g ∈ (Formula.parse declared s).formula.preorder,
      g.isConditional = false ∧ g.raisesUnary = false) :
    ∃ out, SyntaxTree.parse (convert declared s).formula = .ok out ∧
      (Formula.parse declared (convert declared s).formula =
          ⟨(Formula.parse declared s).formula, []⟩ ↔ out.nesting ≤ nestingLimit) ∧
      (convert declared (convert declared s).formula = convert declared s ↔
        out.nesting ≤ nestingLimit) := by
  have houtcome := convert_outcome declared s
  generalize Formula.parse declared s = read, convert declared s = result
    at houtcome hblank hissues hchanges hnodes ⊢
  cases houtcome with
  | blank => exact absurd hblank (by decide)
  | unread | deep => cases hissues
  | @converted tree _ htree _ hdeep =>
      have hnormal := normalizes_of_parse htree hissues
      dsimp only at *
      generalize (normal declared tree).formula = f at *
      have hplain : f.Plain := fun g hg =>
        ⟨List.filterMap_eq_nil_iff.mp hchanges g hg, (hnodes g hg).1, (hnodes g hg).2⟩
      obtain ⟨hparse, hread⟩ := hnormal.parse_of_plain hplain hblank
      refine ⟨f.convertedTree, hparse, ?_⟩
      rw [convert_eq, hread, runFormula_result]
      by_cases hout : f.convertedTree.nesting ≤ nestingLimit
      · simp [hout, hnormal.isMissing_eq, Nat.not_lt.mpr hdeep]
      · simp [hout, hissues, isMissing]

attribute [local instance] Host.usual

/-- A chain and a group in front of the same operator are told apart, and `and` stays a call. -/
theorem convert_fixes_chain_and_group :
    let s := "1 - 2 - 3 == (1 - 2) - 3 and and(prop('B'), (2 ^ 3) ^ -4)"
    let text := "((1 - 2 - 3) == ((1 - 2) - 3)) and and(prop(\"B\"), (2 ^ 3) ^ -4)"
    convert .empty s = ⟨text, [], [], ["B"]⟩ ∧
    (∀ g ∈ (Formula.parse .empty s).formula.preorder,
      g.isConditional = false ∧ g.raisesUnary = false) ∧
    Formula.parse .empty text = ⟨(Formula.parse .empty s).formula, []⟩ := by
  intro s text
  have hresult : convert .empty s = ⟨text, [], [], ["B"]⟩ := by decide +kernel
  have hagain : convert .empty text = ⟨text, [], [], ["B"]⟩ := by decide +kernel
  have hnodes : ∀ g ∈ (Formula.parse .empty s).formula.preorder,
      g.isConditional = false ∧ g.raisesUnary = false := by
    decide +kernel
  have hfixed := convert_fixes_plain_formulas .empty s
  rw [hresult] at hfixed
  obtain ⟨out, _, hparse, hconvert⟩ := hfixed (by decide +kernel) rfl rfl hnodes
  exact ⟨hresult, hnodes, hparse.mpr (hconvert.mp hagain)⟩

end Conversion

/-! ## Powers that are nested deeply -/

/-- A power with a tree as its exponent. -/
def SyntaxTree.Layer.powers : Layer where
  around t := .operator "^" [.constant .number "1", t]
  before := "1 ^ "
  after := ""
  level := .prefixed
  steps := 6
  text_around t := by
    rw [← String.toList_inj, toList_text_binary]
    simp [text]
  derivable_around h := by
    have hnumber : Derivable .primary (.constant .number "1") := .number (by decide)
    exact ((hnumber.loosen (by decide)).power h).loosen (by decide)
  separable_around h := separable_iff.mpr (by simpa [accessesWholeNumber, children] using h)
  nesting_around t := by simp [nesting, nestings]

namespace Formula

/-- The formula of powers of numbers. -/
def powers : Nat → Formula
  | 0 => .literal "1"
  | n + 1 => .operator "^" [.literal "1", powers n]

theorem normalizes_powers [Host] (declared : Declared) (n : Nat) :
    Normalizes declared (SyntaxTree.Layer.powers.tower n) (powers n) := by
  induction n with
  | zero => exact .number (by decide)
  | succ n ih => exact .power (.number (by decide)) ih

theorem plain_powers (n : Nat) : (powers n).Plain := by
  have hliteral : (literal "1").Plain := plain_iff.mpr ⟨⟨rfl, rfl, rfl⟩, by simp [parts]⟩
  induction n with
  | zero => exact hliteral
  | succ n ih =>
      refine plain_iff.mpr ⟨⟨rfl, rfl, rfl⟩, ?_⟩
      simpa [powers, parts] using ⟨hliteral, ih⟩

theorem normal_powers [Host] (declared : Declared) (n : Nat) :
    normal declared (SyntaxTree.Layer.powers.tower n) = ⟨powers n, []⟩ := by
  induction n with
  | zero => rfl
  | succ n ih =>
      have hmissing := (normalizes_powers declared n).isMissing_eq
      exact normal_binary rfl ih rfl hmissing

theorem nesting_powers (n : Nat) : (powers n).nesting = 5 * n := by
  induction n with
  | zero => rfl
  | succ n ih =>
      rw [powers, nesting, nestings, nestings, ih]
      · simp only [nesting, nestings]
        omega
      · simp

/-- Every exponent that is a power is put in parentheses. -/
theorem nesting_convertedTree_powers (n : Nat) :
    (powers (n + 1)).convertedTree.nesting = 9 * n + 6 := by
  induction n with
  | zero => rfl
  | succ n ih =>
      have htree : (powers (n + 2)).convertedTree =
          .operator "^" [.constant .number "1", .paren (powers (n + 1)).convertedTree] := rfl
      rw [htree, SyntaxTree.nesting, SyntaxTree.nestings, SyntaxTree.nestings, SyntaxTree.nestings,
        SyntaxTree.nesting, SyntaxTree.nesting, ih]
      omega

theorem issues_powers (n : Nat) : (powers n).issues = [] := by
  induction n with
  | zero => rfl
  | succ n ih => simp [powers, issues, issuesOfAll, ih]

theorem convertedText_powers_ne_blank (n : Nat) :
    Text.isAllBlank (powers n).convertedText = false := by
  cases n with
  | zero => decide
  | succ n =>
      refine @Text.isAllBlank_of_mem _ '1' ?_ (by decide)
      rw [powers, convertedText_operator "^" (by simp)]
      simp [operandText, wrap, needsParentheses, convertedText, String.intercalate_cons_cons]

end Formula

namespace Conversion

open Formula SyntaxTree

/-- A conversion of powers changes nothing. -/
theorem convert_powers [Host] (declared : Declared) {n : Nat} (h : 6 * n ≤ nestingLimit) :
    Formula.parse declared (Layer.powers.towerText n) = ⟨powers n, []⟩ ∧
      (convert declared (Layer.powers.towerText n)).formula = (powers n).convertedText ∧
      (convert declared (Layer.powers.towerText n)).issues = [] ∧
      (convert declared (Layer.powers.towerText n)).changes = [] := by
  have hread : Formula.parse declared (Layer.powers.towerText n) = ⟨powers n, []⟩ := by
    have hblank := Layer.powers.towerText_ne_blank n
    rw [parse_of_ok hblank (Layer.powers.parse_towerText n), normal_powers]
    rwa [Layer.powers.nesting_tower]
  have hdeep : ¬nestingLimit < (powers n).nesting := by
    rw [nesting_powers]
    omega
  have hmissing := (normalizes_powers declared n).isMissing_eq
  refine ⟨hread, ?_⟩
  rw [convert_eq, hread, runFormula_result, if_neg (by simp [hmissing]), if_neg hdeep]
  exact ⟨rfl, issues_powers n, List.filterMap_eq_nil_iff.mpr fun g hg =>
    (plain_powers n g hg).unchanged⟩

attribute [local instance] Host.usual

/-- A conversion without changes and issues whose text is too deep to be read again. -/
theorem convert_of_deep_powers :
    Text.isAllBlank (convert .empty (Layer.powers.towerText 130)).formula = false ∧
    (convert .empty (Layer.powers.towerText 130)).issues = [] ∧
    (convert .empty (Layer.powers.towerText 130)).changes = [] ∧
    (∀ g ∈ (Formula.parse .empty (Layer.powers.towerText 130)).formula.preorder,
      g.isConditional = false ∧ g.raisesUnary = false) ∧
    Formula.parse .empty (convert .empty (Layer.powers.towerText 130)).formula =
      ⟨.missing, ["Could not parse formula"]⟩ ∧
    (Formula.parse .empty (Layer.powers.towerText 130)).formula.isMissing = false := by
  obtain ⟨hread, hformula, hissues, hchanges⟩ := @convert_powers _ .empty 130 (by decide)
  have hblank := convertedText_powers_ne_blank 130
  have hdeep : ¬(powers 130).convertedTree.nesting ≤ nestingLimit := by
    rw [nesting_convertedTree_powers 129]
    decide
  have hout := ((normalizes_powers .empty 130).parse_of_plain (plain_powers 130) hblank).2
  rw [if_neg hdeep] at hout
  rw [hread, hformula]
  refine ⟨hblank, hissues, hchanges, ?_, hout, rfl⟩
  intro g hg
  have hnode := plain_powers 130 g hg
  exact ⟨hnode.unconditional, hnode.base⟩

end Conversion

end FormulaUpgrade
