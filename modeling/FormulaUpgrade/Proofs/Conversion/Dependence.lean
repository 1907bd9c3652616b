import FormulaUpgrade.Proofs.Conversion.Accumulators
import FormulaUpgrade.Proofs.Conversion.Outcome
import FormulaUpgrade.Proofs.StringLiteral.Value
import FormulaUpgrade.Proofs.SyntaxTree.Subtrees
import Mathlib.Data.List.Basic

/-! # What a conversion depends on

Declared types reach a formula only as the kinds of the properties in it. So two conversions of one
text list the same references, and they are the same exactly if the references are of the same kinds
in both.
-/

namespace FormulaUpgrade

open Property Conversion

/-! ## Declarations -/

theorem Property.Kind.tag_injective {k l : Kind} (h : k.tag = l.tag) : k = l := by
  apply Option.some.inj
  rw [← ofTag?_tag k, h, ofTag?_tag]

theorem Property.reference_injective {s t : String} (h : reference s = reference t) : s = t := by
  rw [reference, reference, String.append_left_inj, String.append_right_inj] at h
  exact StringLiteral.quote_injective h

namespace Property.Declared

/-- Every declared type is the tag of a kind. -/
def Valid (d : Declared) : Prop :=
  ∀ entry ∈ d.entries, ∃ kind : Kind, entry.2 = .string kind.tag

/-- The kind of a property, for declarations that are valid. -/
def kind (d : Declared) (name : String) : Kind :=
  (d.resolve name).toOption.getD .other

theorem Valid.resolve_eq {d : Declared} (h : d.Valid) (name : String) :
    d.resolve name = .ok (d.kind name) := by
  have hok : ∃ kind, d.resolve name = .ok kind := by
    rw [resolve]
    cases hget : d.get? name with
    | none => exact ⟨_, rfl⟩
    | some value =>
        obtain ⟨entry, hfind, rfl⟩ := Option.map_eq_some_iff.mp hget
        obtain ⟨kind, hkind⟩ := h entry (List.mem_of_find?_eq_some hfind)
        exact ⟨kind, by simp [hkind, Kind.ofValue, Kind.ofTag?_tag]⟩
  obtain ⟨kind, hkind⟩ := hok
  rw [Declared.kind, hkind]
  rfl

/-- Types that were checked are valid. -/
theorem valid_declared (types : Types) : types.declared.Valid := by
  intro entry hentry
  obtain ⟨⟨name, kind⟩, _, rfl⟩ := List.mem_map.mp hentry
  exact ⟨kind, rfl⟩

end Property.Declared

namespace Formula

variable {kinds : String → Kind}

/-! ## Formulas with other kinds -/

mutual

/-- A formula with every property of the kind that goes with its name. -/
def withKinds (kinds : String → Kind) : Formula → Formula
  | .property name _ => .property name (kinds name)
  | .function name args => .function name (withKindsAll kinds args)
  | .operator op args => .operator op (withKindsAll kinds args)
  | .parentheses inner => .parentheses (inner.withKinds kinds)
  | .conditional condition ifTrue ifFalse =>
    .conditional (condition.withKinds kinds) (ifTrue.withKinds kinds) (ifFalse.withKinds kinds)
  | leaf => leaf

def withKindsAll (kinds : String → Kind) : List Formula → List Formula
  | [] => []
  | formula :: formulas => formula.withKinds kinds :: withKindsAll kinds formulas

end

theorem withKindsAll_eq_map (fs : List Formula) :
    withKindsAll kinds fs = fs.map (withKinds kinds) := by
  induction fs with
  | nil => rfl
  | cons f fs ih => rw [withKindsAll, ih, List.map_cons]

theorem withKinds_function (name : String) (args : List Formula) :
    (function name args).withKinds kinds = function name (args.map (withKinds kinds)) := by
  rw [withKinds, withKindsAll_eq_map]

theorem withKinds_operator (op : String) (args : List Formula) :
    (operator op args).withKinds kinds = operator op (args.map (withKinds kinds)) := by
  rw [withKinds, withKindsAll_eq_map]

theorem isMissing_withKinds (f : Formula) : (f.withKinds kinds).isMissing = f.isMissing := by
  cases f <;> rfl

theorem parts_withKinds (f : Formula) :
    (f.withKinds kinds).parts = f.parts.map (withKinds kinds) := by
  cases f with
  | function | operator => simp [withKinds, parts, withKindsAll_eq_map]
  | missing | literal | property | parentheses | conditional | symbol | error => rfl

/-- The nodes stay where they are. -/
theorem preorder_withKinds (f : Formula) :
    (f.withKinds kinds).preorder = f.preorder.map (withKinds kinds) := by
  induction f using inductionOnParts with
  | node f ih =>
      rw [preorder_eq, preorder_eq f, parts_withKinds, List.flatMap_map, List.map_cons,
        List.map_flatMap, List.flatMap_congr ih]

theorem propertyNames_withKinds (f : Formula) :
    (f.withKinds kinds).propertyNames = f.propertyNames := by
  have hown : ∀ g : Formula, (g.withKinds kinds).propertyName? = g.propertyName? := by
    intro g
    cases g <;> rfl
  rw [propertyNames_eq_preorder, propertyNames_eq_preorder, preorder_withKinds, List.filterMap_map]
  exact List.filterMap_congr fun g _ => hown g

theorem nestings_map {φ : Formula → Formula} {fs : List Formula}
    (h : ∀ f ∈ fs, (φ f).nesting = f.nesting) : nestings (fs.map φ) = nestings fs := by
  induction fs with
  | nil => rfl
  | cons f fs ih =>
      rw [List.forall_mem_cons] at h
      rw [List.map_cons, nestings, nestings, h.1, ih h.2]

theorem nesting_withKinds (f : Formula) : (f.withKinds kinds).nesting = f.nesting := by
  induction f using inductionOn with
  | missing | literal | property | symbol | error => simp [withKinds, nesting]
  | function name args ih => rw [withKinds_function, nesting, nesting, nestings_map ih]
  | parentheses inner ih => rw [withKinds, nesting, nesting, ih]
  | operator op args ih =>
      rw [withKinds_operator]
      cases args with
      | nil => rfl
      | cons arg rest =>
          cases rest with
          | nil => simp [nesting, ih arg (by simp)]
          | cons second rest =>
              have hargs := nestings_map ih
              simp only [List.map_cons] at hargs ⊢
              simp [nesting, hargs]
  | conditional _ _ _ ihc iht ihf => simp [withKinds, nesting, ihc, iht, ihf]

/-- Only the kinds that go with names in the formula matter. -/
theorem withKinds_congr {kinds' : String → Kind} {f : Formula}
    (h : ∀ name ∈ f.propertyNames, kinds name = kinds' name) :
    f.withKinds kinds = f.withKinds kinds' := by
  induction f using inductionOn with
  | missing | literal | symbol | error => rfl
  | property name kind => simp [withKinds, h name (by simp [propertyNames])]
  | parentheses inner ih => rw [withKinds, withKinds, ih h]
  | function _ args ih | operator _ args ih =>
      simp only [propertyNames, mem_propertyNamesOfAll] at h
      have hargs : args.map (withKinds kinds) = args.map (withKinds kinds') := by
        apply List.map_congr_left
        exact fun arg harg => ih arg harg fun name hname => h name ⟨arg, harg, hname⟩
      rw [withKinds, withKinds, withKindsAll_eq_map, withKindsAll_eq_map, hargs]
  | conditional condition ifTrue ifFalse ihc iht ihf =>
      simp only [propertyNames, List.forall_mem_append] at h
      rw [withKinds, withKinds, ihc h.1.1, iht h.1.2, ihf h.2]

/-! ## Changes -/

/-- Only a property is changed with its reference, and the change tells its kind. -/
theorem ownChange?_withKinds {g : Formula} {name tag : String} :
    (g.withKinds kinds).ownChange? = some ⟨tag, some (reference name)⟩ ↔
      g.propertyName? = some name ∧ kinds name ≠ .other ∧ tag = (kinds name).tag := by
  cases g with
  | property other kind =>
      rw [withKinds, ownChange?, propertyName?]
      by_cases hname : other = name
      · subst hname
        by_cases hkind : kinds other = .other
        · simp [hkind]
        · simp [hkind, eq_comm]
      · have hreference : reference other ≠ reference name := by
          intro heq
          exact hname (reference_injective heq)
        split <;> simp [hname, hreference]
  | operator op args =>
      rw [withKinds_operator]
      cases args with
      | nil => simp [ownChange?, propertyName?]
      | cons arg rest =>
          cases rest with
          | nil =>
              simp only [List.map_cons, List.map_nil, ownChange?, propertyName?]
              split
              · simp
              · split <;> simp
          | cons second rest => simp [ownChange?, propertyName?]
  | function | symbol =>
      simp only [withKinds, ownChange?, propertyName?]
      split <;> simp
  | missing | literal | parentheses | conditional | error =>
      simp [withKinds, ownChange?, propertyName?]

theorem mem_changes_withKinds {f : Formula} {name tag : String} :
    ⟨tag, some (reference name)⟩ ∈ (f.withKinds kinds).changes ↔
      name ∈ f.propertyNames ∧ kinds name ≠ .other ∧ tag = (kinds name).tag := by
  rw [changes, preorder_withKinds, List.filterMap_map, List.mem_filterMap,
    propertyNames_eq_preorder, List.mem_filterMap]
  simp only [Function.comp_apply, ownChange?_withKinds]
  constructor
  · rintro ⟨g, hg, hname, hkind⟩
    exact ⟨⟨g, hg, hname⟩, hkind⟩
  · rintro ⟨⟨g, hg, hname⟩, hkind⟩
    exact ⟨g, hg, hname, hkind⟩

/-- The changes of a formula tell the kinds of all its properties. -/
theorem kinds_eq_of_changes_eq {kinds' : String → Kind} {f : Formula}
    (h : (f.withKinds kinds).changes = (f.withKinds kinds').changes) {name : String}
    (hname : name ∈ f.propertyNames) : kinds name = kinds' name := by
  have htags : ∀ tag, kinds name ≠ .other ∧ tag = (kinds name).tag ↔
      kinds' name ≠ .other ∧ tag = (kinds' name).tag := by
    intro tag
    have hmem := @mem_changes_withKinds kinds f name tag
    rw [h, mem_changes_withKinds] at hmem
    simpa [hname] using hmem.symm
  by_cases hkind : kinds name = .other
  · by_cases hkind' : kinds' name = .other
    · rw [hkind, hkind']
    · exact absurd hkind ((htags _).mpr ⟨hkind', rfl⟩).1
  · apply Kind.tag_injective
    exact ((htags _).mp ⟨hkind, rfl⟩).2

/-! ## Trees -/

/-- What a tree becomes, with every property of the kind that goes with its name. -/
def Normal.withKinds (kinds : String → Kind) (n : Normal) : Normal :=
  ⟨n.formula.withKinds kinds, n.errors⟩

theorem withKinds_eq_missing {f : Formula} : f.withKinds kinds = .missing ↔ f = .missing := by
  cases f <;> simp [withKinds]

theorem withKinds_eq_error {f : Formula} {message : String} :
    f.withKinds kinds = .error message ↔ f = .error message := by
  cases f <;> simp [withKinds]

theorem withKinds_eq_operator {f : Formula} {op : String} {args : List Formula}
    (h : f.withKinds kinds = .operator op args) :
    ∃ args', f = .operator op args' ∧ args = args'.map (withKinds kinds) := by
  cases f with
  | operator op' args' =>
      rw [withKinds_operator] at h
      obtain ⟨rfl, rfl⟩ := Formula.operator.inj h
      exact ⟨args', rfl, rfl⟩
  | missing | literal | function | property | parentheses | conditional | symbol | error => cases h

theorem chain_map_withKinds (op : String) (trees : List SyntaxTree) (fs : List Formula) :
    chain op trees (fs.map (withKinds kinds)) = (chain op trees fs).map (withKinds kinds) := by
  unfold chain
  split
  next first _ _ heq =>
    obtain ⟨f, rest, rfl, hf, rfl⟩ := List.map_eq_cons_iff.mp heq
    obtain ⟨inner, rfl, rfl⟩ := withKinds_eq_operator hf
    rw [List.length_map]
    dsimp only
    by_cases hchain : op ≠ "^" ∧ first = op ∧ 2 ≤ inner.length
    · rw [if_pos hchain, if_pos hchain, List.map_append]
    · rw [if_neg hchain, if_neg hchain, List.map_cons, withKinds_operator]
  next hne =>
    split
    next => exact absurd (by rw [List.map_cons, withKinds_operator]) (hne _ _ _ _ _ _ rfl)
    next => rfl

theorem normalConditional_withKinds (tree : SyntaxTree) (condition ifTrue ifFalse : Normal) :
    normalConditional tree (condition.withKinds kinds) (ifTrue.withKinds kinds)
        (ifFalse.withKinds kinds) =
      (normalConditional tree condition ifTrue ifFalse).withKinds kinds := by
  simp only [Normal.withKinds, normalConditional]
  split <;> simp_all [withKinds_eq_missing, withKinds_eq_error, Normal.fail, withKinds]

theorem normalAll_withKinds [Host] {d d' : Declared} {trees : List SyntaxTree}
    (h : ∀ tree ∈ trees, normal d tree = (normal d' tree).withKinds kinds) :
    normalAll d trees =
      ((normalAll d' trees).1.map (withKinds kinds), (normalAll d' trees).2) := by
  induction trees with
  | nil => rfl
  | cons tree trees ih =>
      rw [List.forall_mem_cons] at h
      simp only [normalAll, h.1, ih h.2, Normal.withKinds, isMissing_withKinds]
      split <;> rfl

theorem normalProperty_eq_withKinds [Host] {d : Declared} (hd : d.Valid) (args : List SyntaxTree) :
    normalProperty d args = (normalProperty .empty args).withKinds d.kind := by
  unfold normalProperty
  split
  next kind text =>
    dsimp only
    rw [hd.resolve_eq]
    rfl
  next => rfl
  next => rfl

/-- Declarations that are valid give the properties of a formula their kinds, and matter for nothing
else. -/
theorem normal_eq_withKinds [Host] {d : Declared} (hd : d.Valid) (t : SyntaxTree) :
    normal d t = (normal .empty t).withKinds d.kind := by
  induction t using SyntaxTree.inductionOnChildren with
  | node t ih =>
      cases t with
      | missing | array | object | assignment | index | member | method | block =>
          simp [normal, Normal.fail, Normal.withKinds, withKinds]
      | constant kind text => cases kind <;> rfl
      | symbol name =>
          rw [normal, normal]
          split <;> rfl
      | call name args =>
          rw [SyntaxTree.children] at ih
          rw [normal, normal]
          split
          · exact normalProperty_eq_withKinds hd args
          · rw [normalAll_withKinds ih]
            dsimp only [Normal.withKinds]
            rw [withKinds_function]
      | operator op args =>
          rw [SyntaxTree.children] at ih
          rw [normal, normal, normalAll_withKinds ih]
          dsimp only [Normal.withKinds]
          rw [chain_map_withKinds, withKinds_operator]
      | paren content =>
          rw [normal, normal]
          exact ih content (by simp [SyntaxTree.children])
      | conditional condition ifTrue ifFalse =>
          simp only [SyntaxTree.children, List.forall_mem_cons] at ih
          rw [normal, normal, ih.1, ih.2.1, ih.2.2.1, normalConditional_withKinds]

theorem parse_eq_withKinds [Host] {d : Declared} (hd : d.Valid) (s : String) :
    parse d s = (parse .empty s).withKinds d.kind := by
  rw [parse, parse, Reading.of, Reading.of]
  split
  · rfl
  · cases SyntaxTree.parse s with
    | error e => rfl
    | ok tree =>
        dsimp only
        split
        · rfl
        · rw [Reading.result, Reading.result, normal_eq_withKinds hd]
          simp only [Normal.withKinds, isMissing_withKinds]
          split <;> rfl

end Formula

namespace Conversion

open Formula

/-! ## Conversions -/

/-- A conversion depends on the kinds of its references and on no other declared type: two
conversions of one text list the same references, and they agree in all that they return exactly if
these are of the same kinds in both. -/
theorem convert_eq_iff_references_agree [Host] (d₁ d₂ : Declared) (h₁ : d₁.Valid) (h₂ : d₂.Valid)
    (s : String) :
    (convert d₁ s).references = (convert d₂ s).references ∧
    ((∀ name ∈ (convert d₁ s).references, d₁.resolve name = d₂.resolve name) ↔
      convert d₁ s = convert d₂ s) := by
  rw [convert_eq, convert_eq, parse_eq_withKinds h₁, parse_eq_withKinds h₂, runFormula_result,
    runFormula_result]
  generalize parse .empty s = read
  dsimp only [Normal.withKinds]
  simp only [isMissing_withKinds, nesting_withKinds, propertyNames_withKinds]
  by_cases hmissing : read.formula.isMissing
  · simp [hmissing]
  · rw [if_neg hmissing, if_neg hmissing]
    by_cases hdeep : nestingLimit < read.formula.nesting
    · simp [hdeep]
    · rw [if_neg hdeep, if_neg hdeep]
      refine ⟨rfl, ?_, ?_⟩
      · intro hagree
        have hkinds : read.formula.withKinds d₁.kind = read.formula.withKinds d₂.kind := by
          apply withKinds_congr
          intro name hname
          have hresolve := hagree name (mem_addNames.mpr (.inr hname))
          rw [h₁.resolve_eq, h₂.resolve_eq] at hresolve
          exact Except.ok.inj hresolve
        rw [hkinds]
      · intro hresult name hname
        have hnames : name ∈ read.formula.propertyNames := by
          simpa [mem_addNames] using hname
        rw [h₁.resolve_eq, h₂.resolve_eq,
          kinds_eq_of_changes_eq (congrArg Result.changes hresult) hnames]

attribute [local instance] Host.usual

/-- The type of a property matters no more, once an error has taken the place of the conditional
with the reference to it. -/
theorem convert_eq_of_dropped_reference :
    let d₁ := Types.declared (.ofList [("A", .person), ("B", .id)])
    let d₂ := Types.declared (.ofList [("B", .file), ("A", .person), ("C", .rollup)])
    let s := "prop(\"A\") + (prop(\"B\") ? x : 1)"
    d₁.Valid ∧ d₂.Valid ∧ (convert d₁ s).references = ["A"] ∧ convert d₁ s = convert d₂ s := by
  intro d₁ d₂ s
  have h₁ : d₁.Valid := Declared.valid_declared _
  have h₂ : d₂.Valid := Declared.valid_declared _
  have hreferences : (convert d₁ s).references = ["A"] := by decide +kernel
  refine ⟨h₁, h₂, hreferences, (convert_eq_iff_references_agree d₁ d₂ h₁ h₂ s).2.mp ?_⟩
  rw [hreferences, List.forall_mem_singleton]
  rfl

end Conversion

end FormulaUpgrade
