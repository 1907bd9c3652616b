import FormulaUpgrade.Conversion.Run
import FormulaUpgrade.Proofs.Formula.Nodes

/-! # What a conversion returns, part by part

The walk over a formula returns a text and records changes, issues and references on the way. Each
of them is a function of the formula alone, whatever was recorded before.
-/

namespace FormulaUpgrade

open Conversion

namespace Formula

/-! ## Texts -/

mutual

/-- The converted text of a formula. -/
def convertedText : Formula → String
  | .missing | .error _ => ""
  | .literal text => text
  | .parentheses inner => "(" ++ inner.convertedText ++ ")"
  | .function name args => functionText name args (convertedTexts args)
  | .property name kind => Property.convertedReference name kind
  | .operator _ [] => ""
  | .operator op [arg] => prefixText op arg arg.convertedText
  | .operator op args => operatorText op args (convertedTexts args)
  | .conditional condition ifTrue ifFalse =>
    callText "if" [wrap condition condition.convertedText, wrap ifTrue ifTrue.convertedText,
      wrap ifFalse ifFalse.convertedText]
  | .symbol name => if calledConstants.contains name then callText name [] else name

def convertedTexts : List Formula → List String
  | [] => []
  | formula :: formulas => formula.convertedText :: convertedTexts formulas

end

theorem convertedTexts_eq_map (fs : List Formula) : convertedTexts fs = fs.map convertedText := by
  induction fs with
  | nil => rfl
  | cons f fs ih => rw [convertedTexts, ih, List.map_cons]

/-! ## Changes -/

/-- The change that a node itself is, whatever is below it. -/
def ownChange? : Formula → Option Change
  | .function name _ => if treatment name = .unchanged then none else some ⟨name, none⟩
  | .property name kind =>
    if kind = .other then none else some ⟨kind.tag, some (Property.reference name)⟩
  | .operator op [_] =>
    if op = "not" then some ⟨"not", none⟩ else if op = "+" then some ⟨"unaryPlus", none⟩ else none
  | .symbol name => if calledConstants.contains name then some ⟨name, none⟩ else none
  | _ => none

/-- The changes of a formula, an outer one first. -/
def changes (f : Formula) : List Change :=
  f.preorder.filterMap ownChange?

theorem changes_eq (f : Formula) :
    f.changes = f.ownChange?.toList ++ f.parts.flatMap changes := by
  rw [changes, preorder_eq, List.filterMap_cons, List.filterMap_flatMap]
  cases f.ownChange? <;> rfl

/-! ## Issues -/

mutual

/-- The issues of a formula, an inner one first. -/
def issues : Formula → List Issue
  | .missing | .literal _ | .property .. | .symbol _ => []
  | .error message => [⟨"parserError", some message⟩]
  | .parentheses inner => inner.issues
  | .function name args =>
    issuesOfAll args ++
      match treatment name with
      | .operator _ => if args.length = 2 then [] else [⟨"operatorIncorrectArgs", some name⟩]
      | _ => []
  | .operator op [] => [⟨"operatorNoArgs", some op⟩]
  | .operator _ args => issuesOfAll args
  | .conditional condition ifTrue ifFalse => condition.issues ++ ifTrue.issues ++ ifFalse.issues

def issuesOfAll : List Formula → List Issue
  | [] => []
  | formula :: formulas => formula.issues ++ issuesOfAll formulas

end

theorem issuesOfAll_eq_nil {fs : List Formula} : issuesOfAll fs = [] ↔ ∀ f ∈ fs, f.issues = [] := by
  induction fs with
  | nil => simp [issuesOfAll]
  | cons f fs ih => simp [issuesOfAll, ih]

/-! ## References -/

mutual

/-- The names of the properties that a formula refers to, as often as it does. -/
def propertyNames : Formula → List String
  | .missing | .literal _ | .symbol _ | .error _ => []
  | .property name _ => [name]
  | .parentheses inner => inner.propertyNames
  | .function _ args | .operator _ args => propertyNamesOfAll args
  | .conditional condition ifTrue ifFalse =>
    condition.propertyNames ++ ifTrue.propertyNames ++ ifFalse.propertyNames

def propertyNamesOfAll : List Formula → List String
  | [] => []
  | formula :: formulas => formula.propertyNames ++ propertyNamesOfAll formulas

end

theorem mem_propertyNamesOfAll {fs : List Formula} {name : String} :
    name ∈ propertyNamesOfAll fs ↔ ∃ f ∈ fs, name ∈ f.propertyNames := by
  induction fs with
  | nil => simp [propertyNamesOfAll]
  | cons f fs ih => simp [propertyNamesOfAll, ih]

end Formula

namespace Conversion

/-- Adds names in order, each of them once. -/
def addNames (known new : List String) : List String :=
  new.foldl (fun names name => if names.contains name then names else names ++ [name]) known

theorem mem_addNames {known new : List String} {name : String} :
    name ∈ addNames known new ↔ name ∈ known ∨ name ∈ new := by
  induction new generalizing known with
  | nil => simp [addNames]
  | cons first rest ih =>
      have hstep : addNames known (first :: rest) =
          addNames (if known.contains first then known else known ++ [first]) rest := rfl
      rw [hstep, ih]
      by_cases hfirst : known.contains first
      · rw [if_pos hfirst]
        simp only [List.mem_cons]
        grind
      · rw [if_neg hfirst]
        simp [or_assoc]

/-- What the walk over a part returns and records. -/
structure Walked (text : α) (changes : List Change) (issues : List Issue) (names : List String)
    (c : Context) (out : α × Context) : Prop where
  fst_eq : out.1 = text
  changes_eq : out.2.changes = c.changes ++ changes
  issues_eq : out.2.issues = c.issues ++ issues
  references_eq : out.2.references = addNames c.references names

theorem emitAll_walked {fs : List Formula}
    (h : ∀ f ∈ fs, ∀ c, Walked f.convertedText f.changes f.issues f.propertyNames c (emit f c))
    (c : Context) :
    Walked (Formula.convertedTexts fs) (fs.flatMap Formula.changes) (Formula.issuesOfAll fs)
      (Formula.propertyNamesOfAll fs) c (emitAll fs c) := by
  induction fs generalizing c with
  | nil => exact ⟨rfl, by simp [emitAll], by simp [emitAll, Formula.issuesOfAll], rfl⟩
  | cons f fs ih =>
      rw [List.forall_mem_cons] at h
      have hfirst := h.1 c
      have hrest := ih h.2 (emit f c).2
      refine ⟨?_, ?_, ?_, ?_⟩
      · simp [emitAll, Formula.convertedTexts, hfirst.fst_eq, hrest.fst_eq]
      · simp [emitAll, hfirst.changes_eq, hrest.changes_eq]
      · simp [emitAll, Formula.issuesOfAll, hfirst.issues_eq, hrest.issues_eq]
      · simp [emitAll, Formula.propertyNamesOfAll, hfirst.references_eq, hrest.references_eq,
          addNames]

/-- A change goes between what was recorded before the mark and what was recorded since. -/
theorem insertChange_changes {c c' : Context} {new : List Change}
    (h : c'.changes = c.changes ++ new) (identifier : String) (context : Option String) :
    (c'.insertChange c.mark identifier context).changes =
      c.changes ++ ⟨identifier, context⟩ :: new := by
  simp [Context.insertChange, Context.mark, h]

theorem noteFunction_changes {c c' : Context} {new : List Change}
    (h : c'.changes = c.changes ++ new) (name : String) (args : List Formula) :
    (noteFunction name args.length c.mark c').changes =
      c.changes ++ ((Formula.function name args).ownChange?.toList ++ new) := by
  have hinsert := insertChange_changes h name none
  rw [noteFunction, Formula.ownChange?]
  cases treatment name with
  | unchanged => exact h
  | renamed | special => exact hinsert
  | operator op =>
      dsimp only
      split <;> exact hinsert

theorem noteFunction_issues (name : String) (count place : Nat) (c : Context) :
    (noteFunction name count place c).issues = c.issues ++
      match treatment name with
      | .operator _ => if count = 2 then [] else [⟨"operatorIncorrectArgs", some name⟩]
      | _ => [] := by
  unfold noteFunction
  split
  · simp_all
  · split <;> simp_all [Context.insertChange, Context.addIssue]
  · split <;> simp_all [Context.insertChange]

theorem noteFunction_references (name : String) (count place : Nat) (c : Context) :
    (noteFunction name count place c).references = c.references := by
  unfold noteFunction
  split
  · rfl
  · dsimp only
    split <;> rfl
  · rfl

theorem notePrefix_changes {c c' : Context} {new : List Change}
    (h : c'.changes = c.changes ++ new) (op : String) (arg : Formula) :
    (notePrefix op c.mark c').changes =
      c.changes ++ ((Formula.operator op [arg]).ownChange?.toList ++ new) := by
  rw [notePrefix, Formula.ownChange?]
  split
  · exact insertChange_changes h "not" none
  · split
    · exact insertChange_changes h "unaryPlus" none
    · exact h

theorem notePrefix_issues (op : String) (place : Nat) (c : Context) :
    (notePrefix op place c).issues = c.issues := by
  unfold notePrefix
  split
  · rfl
  · split <;> rfl

theorem notePrefix_references (op : String) (place : Nat) (c : Context) :
    (notePrefix op place c).references = c.references := by
  unfold notePrefix
  split
  · rfl
  · split <;> rfl

theorem noteProperty_walked (name : String) (kind : Property.Kind) (c : Context) :
    Walked (Property.convertedReference name kind) (Formula.property name kind).changes [] [name] c
      (emit (.property name kind) c) := by
  have hreference : (c.addReference name).changes = c.changes ∧
      (c.addReference name).issues = c.issues ∧
      (c.addReference name).references = addNames c.references [name] := by
    unfold Context.addReference
    split <;> simp_all [addNames]
  obtain ⟨hchanges, hissues, hnames⟩ := hreference
  rw [Formula.changes_eq, Formula.parts, emit, noteProperty, Formula.ownChange?]
  split
  · exact ⟨rfl, by simpa using hchanges, by simpa using hissues, hnames⟩
  · refine ⟨rfl, ?_, by simpa [Context.addChange, Context.insertChange] using hissues, hnames⟩
    rw [Context.addChange, insertChange_changes (List.append_nil _).symm, hchanges]
    rfl

/-- The walk over a formula returns its text and records its changes, its issues and its
references. -/
theorem emit_walked (f : Formula) (c : Context) :
    Walked f.convertedText f.changes f.issues f.propertyNames c (emit f c) := by
  induction f using Formula.inductionOn generalizing c with
  | missing | literal text =>
      exact ⟨rfl, (List.append_nil _).symm, by simp [emit, Formula.issues], rfl⟩
  | function name args ih =>
      have hargs := emitAll_walked ih c
      refine ⟨?_, ?_, ?_, ?_⟩
      · simp [emit, Formula.convertedText, hargs.fst_eq]
      · rw [Formula.changes_eq]
        exact noteFunction_changes hargs.changes_eq name args
      · simp [emit, Formula.issues, noteFunction_issues, hargs.issues_eq]
      · simp [emit, Formula.propertyNames, noteFunction_references, hargs.references_eq]
  | property name kind => exact noteProperty_walked name kind c
  | parentheses inner ih =>
      have hinner := ih c
      refine ⟨?_, ?_, ?_, ?_⟩
      · simp [emit, Formula.convertedText, hinner.fst_eq]
      · rw [Formula.changes_eq]
        simp [emit, Formula.ownChange?, Formula.parts, hinner.changes_eq]
      · simp [emit, Formula.issues, hinner.issues_eq]
      · simp [emit, Formula.propertyNames, hinner.references_eq]
  | operator op args ih =>
      cases args with
      | nil => exact ⟨rfl, (List.append_nil _).symm, rfl, rfl⟩
      | cons arg rest =>
          cases rest with
          | nil =>
              have harg := ih arg (by simp) c
              refine ⟨?_, ?_, ?_, ?_⟩
              · simp [emit, Formula.convertedText, harg.fst_eq]
              · rw [Formula.changes_eq]
                simpa [emit, Formula.parts] using notePrefix_changes harg.changes_eq op arg
              · simp [emit, Formula.issues, Formula.issuesOfAll, notePrefix_issues, harg.issues_eq]
              · simp [emit, Formula.propertyNames, Formula.propertyNamesOfAll,
                  notePrefix_references, harg.references_eq]
          | cons second rest =>
              have hargs := emitAll_walked ih c
              refine ⟨?_, ?_, ?_, ?_⟩
              · simp [emit, Formula.convertedText, hargs.fst_eq]
              · rw [Formula.changes_eq]
                simpa [emit, Formula.ownChange?, Formula.parts] using hargs.changes_eq
              · simp [emit, Formula.issues, hargs.issues_eq]
              · simp [emit, Formula.propertyNames, hargs.references_eq]
  | conditional condition ifTrue ifFalse ihc iht ihf =>
      have hc := ihc c
      have ht := iht (emit condition c).2
      have hf := ihf (emit ifTrue (emit condition c).2).2
      refine ⟨?_, ?_, ?_, ?_⟩
      · simp [emit, Formula.convertedText, hc.fst_eq, ht.fst_eq, hf.fst_eq]
      · rw [Formula.changes_eq]
        simp [emit, Formula.ownChange?, Formula.parts, hc.changes_eq, ht.changes_eq,
          hf.changes_eq]
      · simp [emit, Formula.issues, hc.issues_eq, ht.issues_eq, hf.issues_eq]
      · simp [emit, Formula.propertyNames, hc.references_eq, ht.references_eq, hf.references_eq,
          addNames]
  | symbol name =>
      rw [Formula.changes_eq]
      simp only [emit, Formula.convertedText, Formula.ownChange?, Formula.parts]
      split
      · refine ⟨rfl, ?_, by simp [Context.addChange, Context.insertChange, Formula.issues], rfl⟩
        exact insertChange_changes (List.append_nil _).symm name none
      · exact ⟨rfl, (List.append_nil _).symm, by simp [Formula.issues], rfl⟩
  | error message => exact ⟨rfl, (List.append_nil _).symm, rfl, rfl⟩

/-! ## Conversions -/

/-- The issue that a message is. -/
def messageIssue (message : String) : Issue :=
  ⟨"parserError", some message⟩

theorem addMessages_result (messages : List String) (c : Context) (text : String) :
    (addMessages messages c).result text =
      ⟨text, c.changes, c.issues ++ messages.map messageIssue, c.references⟩ := by
  induction messages generalizing c with
  | nil => simp [addMessages, Context.result]
  | cons message messages ih =>
      have hstep : addMessages (message :: messages) c =
          addMessages messages (c.addIssue "parserError" (some message)) := rfl
      rw [hstep, ih]
      simp [Context.addIssue, messageIssue]

/-- What a conversion returns for what was read: the messages, without a formula; one message, for a
formula that is nested too deeply; and otherwise what the walk over the formula returns. -/
theorem runFormula_result [Host] (read : Formula.Normal) :
    (runFormula read).result =
      if read.formula.isMissing then ⟨"", [], read.errors.map messageIssue, []⟩
      else if nestingLimit < read.formula.nesting then ⟨"", [], [messageIssue tooDeep], []⟩
      else ⟨read.formula.convertedText, read.formula.changes, read.formula.issues,
        addNames [] read.formula.propertyNames⟩ := by
  rw [runFormula]
  by_cases hmissing : read.formula.isMissing
  · rw [if_pos hmissing, if_pos hmissing]
    exact addMessages_result read.errors .empty ""
  · rw [if_neg hmissing, if_neg hmissing]
    by_cases hdeep : nestingLimit < read.formula.nesting
    · rw [if_pos hdeep, if_pos hdeep]
      exact addMessages_result [tooDeep] .empty ""
    · rw [if_neg hdeep, if_neg hdeep]
      have hwalk := emit_walked read.formula .empty
      dsimp only [Context.result]
      rw [hwalk.fst_eq, hwalk.changes_eq, hwalk.issues_eq, hwalk.references_eq]
      rfl

/-- A conversion returns what comes of the formula of the text. -/
theorem convert_eq [Host] (declared : Property.Declared) (s : String) :
    convert declared s = (runFormula (Formula.parse declared s)).result := by
  rw [convert, run]
  by_cases hempty : s.isEmpty
  · obtain rfl := String.isEmpty_iff.mp hempty
    rfl
  · rw [if_neg hempty]
    rfl

end Conversion

end FormulaUpgrade
