import FormulaUpgrade.Proofs.Conversion.Accumulators
import FormulaUpgrade.Proofs.Conversion.Outcome
import FormulaUpgrade.Proofs.Conversion.Words
import FormulaUpgrade.Proofs.SyntaxTree.Towers
import Mathlib.Data.List.Basic

/-! # Issues of a conversion

The issues of a conversion are the errors that the formula has kept, and one issue for every call of
a function of two arguments that has more or fewer of them. So a conversion without issues has lost
no error, and a formula that is nested too deeply has an issue of its own.
-/

namespace FormulaUpgrade

open Property Conversion Grammar

namespace Conversion

theorem treatment_eq_operator_iff {name op : String} :
    treatment name = .operator op ↔ operatorFunctions.lookup name = some op := by
  constructor
  · intro h
    have hall : ∀ entry ∈ operatorFunctions, operatorFunctions.lookup entry.1 = some entry.2 := by
      decide
    exact hall _ (mem_operatorFunctions h)
  · intro h
    have hall : ∀ entry ∈ operatorFunctions, treatment entry.1 = .operator entry.2 := by
      decide
    exact hall _ (mem_of_lookup h)

end Conversion

namespace Formula

/-! ## The two kinds of issues -/

/-- The name of a function of two arguments that a node calls with more or fewer of them. -/
def miscountedName? : Formula → Option String
  | .function name args =>
    if (operatorFunctions.lookup name).isSome ∧ args.length ≠ 2 then some name else none
  | _ => none

/-- The issue that a call with a wrong number of arguments is. -/
def countIssue (name : String) : Issue :=
  ⟨"operatorIncorrectArgs", some name⟩

theorem ownIssue?_function (name : String) (args : List Formula) :
    (function name args).ownIssue? = (function name args).miscountedName?.map countIssue := by
  rw [ownIssue?, miscountedName?]
  cases hlookup : operatorFunctions.lookup name with
  | none =>
      have hne : ∀ op, treatment name ≠ .operator op := by
        intro op h
        rw [treatment_eq_operator_iff, hlookup] at h
        cases h
      cases htreatment : treatment name with
      | operator op => exact absurd htreatment (hne op)
      | renamed | special | unchanged => rfl
  | some op =>
      rw [treatment_eq_operator_iff.mpr hlookup]
      by_cases hcount : args.length = 2
      · simp [hcount]
      · simp [hcount, countIssue]

/-- The issues among the messages are the errors of the formula. -/
theorem filter_parserError (f : Formula) :
    f.issues.filter (·.identifier = "parserError") = f.messages.map messageIssue := by
  have hown : ∀ g : Formula, (g.ownIssue?.filter fun issue => issue.identifier = "parserError") =
      g.message?.map messageIssue := by
    intro g
    cases g with
    | missing | literal | property | parentheses | conditional | symbol | error => rfl
    | function name args =>
        rw [ownIssue?_function]
        cases (function name args).miscountedName? <;> rfl
    | operator op args => cases args <;> rfl
  rw [issues_eq_postorder, messages, List.filter_filterMap, List.map_filterMap]
  simp only [hown]

/-- The other issues are the calls with a wrong number of arguments. -/
theorem filter_not_parserError {f : Formula} (h : ∀ op, operator op [] ∉ f.postorder) :
    f.issues.filter (·.identifier ≠ "parserError") =
      (f.postorder.filterMap miscountedName?).map countIssue := by
  have hown : ∀ g ∈ f.postorder,
      (g.ownIssue?.filter fun issue => issue.identifier ≠ "parserError") =
        g.miscountedName?.map countIssue := by
    intro g hg
    cases g with
    | missing | literal | property | parentheses | conditional | symbol | error => rfl
    | function name args =>
        rw [ownIssue?_function]
        cases (function name args).miscountedName? <;> rfl
    | operator op args =>
        cases args with
        | nil => exact absurd hg (h op)
        | cons => rfl
  rw [issues_eq_postorder, List.filter_filterMap, List.map_filterMap]
  exact List.filterMap_congr hown

theorem filterMap_miscountedName?_eq_nil {f : Formula} :
    f.postorder.filterMap miscountedName? = [] ↔ ∀ name args, function name args ∈ f.postorder →
      (operatorFunctions.lookup name).isSome → args.length = 2 := by
  rw [List.filterMap_eq_nil_iff]
  constructor
  · intro h name args hmem hlookup
    have hnone := h _ hmem
    rw [miscountedName?] at hnone
    by_cases hcount : args.length = 2
    · exact hcount
    · simp [hlookup, hcount] at hnone
  · intro h g hg
    cases g with
    | function name args =>
        rw [miscountedName?, if_neg]
        intro hmiscounted
        exact hmiscounted.2 (h name args hg hmiscounted.1)
    | missing | literal | property | parentheses | operator | conditional | symbol | error => rfl

/-! ## Issues and errors -/

/-- The issues of a formula tell of the errors made on the way to it: some of them in their order,
and at least one if any was made. The other issues are the calls with a wrong number of
arguments. -/
structure Tells (issues : List Issue) (read : Normal) : Prop where
  sublist : ((issues.filter (·.identifier = "parserError")).map (·.context)).Sublist
    (read.errors.map some)
  ne_nil : read.errors ≠ [] → issues.filter (·.identifier = "parserError") ≠ []
  calls : issues.filter (·.identifier ≠ "parserError") =
    (read.formula.postorder.filterMap miscountedName?).map countIssue

namespace Normal.Reports

variable {read : Normal} (h : read.Reports)

include h

theorem tells : Tells read.formula.issues read := by
  refine ⟨?_, ?_, filter_not_parserError h.operands⟩
  · rw [filter_parserError, List.map_map]
    exact h.keeps.sublist.map some
  · intro herrors hnil
    rw [filter_parserError, List.map_eq_nil_iff] at hnil
    exact herrors (h.keeps.eq_nil hnil)

theorem issues_eq_nil_iff :
    read.formula.issues = [] ↔ read.errors = [] ∧
      ∀ name args, function name args ∈ read.formula.postorder →
        (operatorFunctions.lookup name).isSome → args.length = 2 := by
  rw [← filterMap_miscountedName?_eq_nil]
  have hparser := filter_parserError read.formula
  have hcalls := filter_not_parserError h.operands
  constructor
  · intro hissues
    rw [hissues] at hparser hcalls
    exact ⟨h.keeps.eq_nil (by simpa using hparser), by simpa using hcalls⟩
  · intro hnone
    have hmessages : read.formula.messages = [] := by
      have hsublist := h.keeps.sublist
      rwa [hnone.1, List.sublist_nil] at hsublist
    rw [hmessages, List.map_nil, List.filter_eq_nil_iff] at hparser
    rw [hnone.2, List.map_nil, List.filter_eq_nil_iff] at hcalls
    apply List.eq_nil_iff_forall_not_mem.mpr
    intro issue hissue
    by_cases hidentifier : issue.identifier = "parserError"
    · exact hparser issue hissue (by simpa using hidentifier)
    · exact hcalls issue hissue (by simpa using hidentifier)

theorem identifier_ne {issue : Issue} (hissue : issue ∈ read.formula.issues) :
    issue.identifier ≠ "operatorNoArgs" := by
  by_cases hidentifier : issue.identifier = "parserError"
  · rw [hidentifier]
    decide
  · have hmem : issue ∈ read.formula.issues.filter (·.identifier ≠ "parserError") :=
      List.mem_filter.mpr ⟨hissue, by simpa using hidentifier⟩
    rw [filter_not_parserError h.operands] at hmem
    obtain ⟨name, _, rfl⟩ := List.mem_map.mp hmem
    simp [countIssue]

end Normal.Reports

end Formula

/-! ## Conversions -/

namespace Conversion

/-- The issues of a conversion tell what came of the text. There are none for a blank text. A text
of which no formula comes has one issue for that, and a formula that is nested too deeply to be
converted has one for that. Otherwise the issues tell of the errors made, and of the calls of
functions of two arguments that have more or fewer of them. No operator lacks its operands. -/
theorem convert_tells_errors [Host] (declared : Declared) (s : String) :
    (Text.isAllBlank s → (convert declared s).issues = []) ∧
    (Text.isAllBlank s = false →
      ((Formula.parse declared s).formula.isMissing ↔ Formula.Unread s) ∧
      ((Formula.parse declared s).formula.isMissing →
        (convert declared s).issues = [⟨"parserError", some "Could not parse formula"⟩]) ∧
      ((Formula.parse declared s).formula.isMissing = false →
        nestingLimit < (Formula.parse declared s).formula.nesting →
        (convert declared s).issues = [⟨"parserError", some "Formula is nested too deeply"⟩]) ∧
      ((Formula.parse declared s).formula.isMissing = false →
        (Formula.parse declared s).formula.nesting ≤ nestingLimit →
        Formula.Tells (convert declared s).issues (Formula.parse declared s)) ∧
      ((convert declared s).ok ↔
        (Formula.parse declared s).formula.isMissing = false ∧
        (Formula.parse declared s).formula.nesting ≤ nestingLimit ∧
        (Formula.parse declared s).errors = [] ∧
        ∀ name args, .function name args ∈ (Formula.parse declared s).formula.postorder →
          (operatorFunctions.lookup name).isSome → args.length = 2)) ∧
    ∀ issue ∈ (convert declared s).issues, issue.identifier ≠ "operatorNoArgs" := by
  have houtcome := convert_outcome declared s
  generalize Formula.parse declared s = read, convert declared s = result at houtcome ⊢
  cases houtcome with
  | blank hs => simp [hs, Result.empty]
  | unread hs hunread =>
      simp [hs, hunread, Formula.isMissing, messageIssue, Formula.couldNotParse, Result.ok]
  | deep hs htree hnesting hdeep =>
      have hread := (Formula.reports_of_parse declared htree).1
      have hunread := Formula.not_unread htree hnesting
      simp [hs, hread, hunread, hdeep, Nat.not_le.mpr hdeep, messageIssue, tooDeep, Result.ok]
  | converted hs htree hnesting hdeep =>
      obtain ⟨hread, hreports⟩ := Formula.reports_of_parse declared htree
      have hunread := Formula.not_unread htree hnesting
      refine ⟨by simp [hs], fun _ => ⟨by simp [hread, hunread], by simp [hread], ?_, ?_, ?_⟩, ?_⟩
      · exact fun _ h => absurd h (Nat.not_lt.mpr hdeep)
      · exact fun _ _ => hreports.tells
      · rw [← hreports.issues_eq_nil_iff]
        simp [Result.ok, hread, hdeep]
      · exact fun issue hissue => hreports.identifier_ne hissue

end Conversion

/-! ## Formulas that are nested deeply -/

namespace SyntaxTree.Layer

/-- Parentheses around a tree. -/
def groups : Layer where
  around := .paren
  before := "("
  after := ")"
  level := .primary
  steps := 3
  text_around t := by
    rw [← String.toList_inj, toList_text_paren]
    simp
  derivable_around h := (h.loosen (by decide)).paren
  separable_around h := separable_iff.mpr (by simpa [accessesWholeNumber, children] using h)
  nesting_around t := by rw [nesting]

/-- A conditional with a tree as its last term. -/
def conditionals : Layer where
  around := .conditional (.constant .number "1") (.constant .number "1")
  before := "1 ? 1 : "
  after := ""
  level := .conditional
  steps := 3
  text_around t := by
    rw [text, ← String.toList_inj]
    simp [text]
  derivable_around h := by
    have hnumber : Derivable .primary (.constant .number "1") := .number (by decide)
    exact .conditional (hnumber.loosen (by decide)) (hnumber.loosen (by decide)) h
  separable_around h := separable_iff.mpr (by simpa [accessesWholeNumber, children] using h)
  nesting_around t := by simp [nesting]

end SyntaxTree.Layer

namespace Formula

/-- The formula of conditionals of numbers. -/
def conditionals : Nat → Formula
  | 0 => .literal "1"
  | n + 1 => .conditional (.literal "1") (.literal "1") (conditionals n)

theorem normal_conditionals [Host] (declared : Declared) (n : Nat) :
    normal declared (SyntaxTree.Layer.conditionals.tower n) = ⟨conditionals n, []⟩ := by
  induction n with
  | zero => rfl
  | succ n ih =>
      change normal declared (.conditional _ _ (SyntaxTree.Layer.conditionals.tower n)) = _
      rw [normal, ih]
      cases n <;> rfl

theorem nesting_conditionals (n : Nat) : (conditionals n).nesting = 5 * n := by
  induction n with
  | zero => rfl
  | succ n ih =>
      rw [conditionals, nesting, ih]
      simp only [nesting]
      omega

theorem function_notMem_conditionals (n : Nat) (name : String) (args : List Formula) :
    function name args ∉ (conditionals n).postorder := by
  induction n with
  | zero => simp [conditionals, postorder]
  | succ n ih => simp [conditionals, postorder, ih]

end Formula

namespace Conversion

open SyntaxTree

attribute [local instance] Host.usual

/-- A text that parses may still be too deep to be read as a formula, and a formula that was read
without an error may be too deep to be converted. -/
theorem convert_refuses_deep_formulas :
    ((∃ tree, SyntaxTree.parse (Layer.groups.towerText 1500) = .ok tree) ∧
      (Formula.parse .empty (Layer.groups.towerText 1500)).formula.isMissing ∧
      (convert .empty (Layer.groups.towerText 1500)).issues =
        [⟨"parserError", some "Could not parse formula"⟩]) ∧
    ((Formula.parse .empty (Layer.conditionals.towerText 260)).formula.isMissing = false ∧
      (Formula.parse .empty (Layer.conditionals.towerText 260)).errors = [] ∧
      (∀ name args, .function name args ∉
        (Formula.parse .empty (Layer.conditionals.towerText 260)).formula.postorder) ∧
      (convert .empty (Layer.conditionals.towerText 260)).ok = false) := by
  constructor
  · have hparse := Layer.groups.parse_towerText 1500
    have hs := Layer.groups.towerText_ne_blank 1500
    have hunread : Formula.Unread (Layer.groups.towerText 1500) := by
      refine .inr ⟨_, hparse, ?_⟩
      rw [Layer.groups.nesting_tower]
      decide
    refine ⟨⟨_, hparse⟩, ?_, ?_⟩
    · rw [Formula.parse_of_unread hs hunread]
      rfl
    · rw [convert_eq, Formula.parse_of_unread hs hunread]
      rfl
  · have hs := Layer.conditionals.towerText_ne_blank 260
    have hread : Formula.parse .empty (Layer.conditionals.towerText 260) =
        ⟨Formula.conditionals 260, []⟩ := by
      rw [Formula.parse_of_ok hs (Layer.conditionals.parse_towerText 260),
        Formula.normal_conditionals]
      rw [Layer.conditionals.nesting_tower]
      decide
    have hdeep : nestingLimit < (Formula.conditionals 260).nesting := by
      rw [Formula.nesting_conditionals]
      decide
    rw [convert_eq, runFormula_result, hread]
    refine ⟨rfl, rfl, Formula.function_notMem_conditionals 260, ?_⟩
    have hmissing : ¬(Formula.conditionals 260).isMissing := Bool.false_ne_true
    dsimp only
    rw [if_neg hmissing, if_pos hdeep]
    rfl

end Conversion

end FormulaUpgrade
