import FormulaUpgrade.Conversion.Report
import FormulaUpgrade.Proofs.Conversion.Accumulators
import FormulaUpgrade.Proofs.Conversion.Outcome
import FormulaUpgrade.Proofs.Conversion.Words

/-! # Every conversion can be explained

The catalogue has an entry for all that a node of a formula can record, so a report on a conversion
never fails, whatever types it is given.
-/

namespace FormulaUpgrade

open Property

namespace Conversion

/-! ## What can be recorded -/

/-- The functions whose calls are converted. -/
def convertedFunctions : List String :=
  renamedFunctions.map Prod.fst ++ operatorFunctions.map Prod.fst ++ Special.all.map Special.name

theorem mem_convertedFunctions {name : String} (h : treatment name ≠ .unchanged) :
    name ∈ convertedFunctions := by
  simp only [convertedFunctions, List.mem_append]
  cases htreatment : treatment name with
  | renamed renamed =>
      exact .inl (.inl (List.mem_map_of_mem (mem_renamedFunctions htreatment)))
  | operator op => exact .inl (.inr (List.mem_map_of_mem (mem_operatorFunctions htreatment)))
  | special special =>
      obtain rfl := name_of_special htreatment
      have hall : special ∈ Special.all := by cases special <;> decide
      exact .inr (List.mem_map_of_mem hall)
  | unchanged => exact absurd htreatment h

/-- The identifiers of the changes that are not about a property. -/
def recordable : List String :=
  convertedFunctions ++ ["not", "unaryPlus"] ++ calledConstants

/-- The identifiers of the changes in the catalogue. -/
def changeIdentifiers : List String :=
  changeEntries.map ChangeEntry.identifier

theorem mem_changeIdentifiers_of_recordable :
    ∀ identifier ∈ recordable, identifier ∈ changeIdentifiers := by
  decide

theorem tag_mem_changeIdentifiers {kind : Kind} (h : kind ≠ .other) :
    kind.tag ∈ changeIdentifiers := by
  cases kind with
  | other => exact absurd rfl h
  | _ => decide

theorem notMem_tags_of_recordable : ∀ identifier ∈ recordable, identifier ∉ Kind.tags := by
  decide

end Conversion

namespace Formula

open Conversion

/-- The change of a node is about a property that it refers to, or has no context. -/
theorem ownChange?_eq_some {f : Formula} {change : Change} (h : f.ownChange? = some change) :
    change.identifier ∈ recordable ∨
      ∃ name kind, f = .property name kind ∧ kind ≠ .other ∧
        change = ⟨kind.tag, some (reference name)⟩ := by
  simp only [recordable, List.mem_append]
  unfold ownChange? at h
  split at h
  next name args =>
    split at h
    · cases h
    next htreatment =>
      obtain rfl := Option.some.inj h
      exact .inl (.inl (.inl (mem_convertedFunctions htreatment)))
  next name kind =>
    split at h
    · cases h
    next hkind => exact .inr ⟨name, kind, rfl, hkind, (Option.some.inj h).symm⟩
  next =>
    refine .inl (.inl (.inr ?_))
    split at h
    · obtain rfl := Option.some.inj h
      simp
    · split at h
      · obtain rfl := Option.some.inj h
        simp
      · cases h
  next name =>
    split at h
    next hname =>
      obtain rfl := Option.some.inj h
      exact .inl (.inr (List.contains_iff_mem.mp hname))
    · cases h
  next => cases h

theorem identifier_of_ownIssue? {f : Formula} {issue : Issue} (h : f.ownIssue? = some issue) :
    issue.identifier ∈ issueEntries.map Prod.fst := by
  unfold ownIssue? at h
  split at h
  · split at h
    · split at h
      · cases h
      · obtain rfl := Option.some.inj h
        simp [issueEntries]
    · cases h
  · obtain rfl := Option.some.inj h
    simp [issueEntries]
  · obtain rfl := Option.some.inj h
    simp [issueEntries]
  · cases h

end Formula

namespace Conversion

/-! ## Results -/

/-- A result with an entry in the catalogue for all that was recorded. The changes that are about a
property tell which reference was converted. -/
structure Explained (r : Result) : Prop where
  changes : ∀ change ∈ r.changes, change.identifier ∈ changeIdentifiers
  issues : ∀ issue ∈ r.issues, issue.identifier ∈ issueEntries.map Prod.fst
  references : ∀ change ∈ r.changes, change.identifier ∈ Kind.tags →
    ∃ name ∈ r.references, change.context = some (reference name)

/-- A result of nothing but a message. -/
theorem explained_message (message : String) : Explained ⟨"", [], [messageIssue message], []⟩ := by
  refine ⟨by simp, ?_, by simp⟩
  simp [messageIssue, issueEntries]

theorem explained_formula (f : Formula) (text : String) :
    Explained ⟨text, f.changes, f.issues, addNames [] f.propertyNames⟩ := by
  refine ⟨?_, ?_, ?_⟩
  · intro change hchange
    obtain ⟨g, _, hown⟩ := List.mem_filterMap.mp hchange
    rcases Formula.ownChange?_eq_some hown with hmem | ⟨name, kind, _, hkind, rfl⟩
    · exact mem_changeIdentifiers_of_recordable _ hmem
    · exact tag_mem_changeIdentifiers hkind
  · intro issue hissue
    rw [Formula.issues_eq_postorder] at hissue
    obtain ⟨g, _, hown⟩ := List.mem_filterMap.mp hissue
    exact Formula.identifier_of_ownIssue? hown
  · intro change hchange htag
    obtain ⟨g, hg, hown⟩ := List.mem_filterMap.mp hchange
    rcases Formula.ownChange?_eq_some hown with hmem | ⟨name, kind, rfl, _, rfl⟩
    · exact absurd htag (notMem_tags_of_recordable _ hmem)
    · refine ⟨name, mem_addNames.mpr (.inr ?_), rfl⟩
      rw [Formula.propertyNames_eq_preorder]
      exact List.mem_filterMap.mpr ⟨_, hg, rfl⟩

theorem explained_convert [Host] (declared : Declared) (s : String) :
    Explained (convert declared s) := by
  have houtcome := convert_outcome declared s
  generalize Formula.parse declared s = read, convert declared s = result at houtcome ⊢
  cases houtcome with
  | blank => exact ⟨by simp [Result.empty], by simp [Result.empty], by simp [Result.empty]⟩
  | unread | deep => exact explained_message _
  | converted => exact explained_formula _ _

/-! ## Reports -/

theorem explain_of_mem {change : Change} (h : change.identifier ∈ changeIdentifiers) :
    ∃ explanation, change.explain = .ok explanation := by
  obtain ⟨entry, hentry, hidentifier⟩ := List.mem_map.mp h
  have hfound : ∃ found, changeEntry? change.identifier = some found := by
    unfold changeEntry?
    rw [← Option.isSome_iff_exists, List.find?_isSome]
    exact ⟨entry, hentry, by simpa using hidentifier⟩
  obtain ⟨found, hfound⟩ := hfound
  exact ⟨_, by rw [Change.explain, hfound]⟩

theorem explainAll_of_forall {changes : List Change}
    (h : ∀ change ∈ changes, ∃ explanation, change.explain = .ok explanation) :
    ∃ explanations, changes.map Change.explain = explanations.map .ok ∧
      explainAll changes = .ok explanations := by
  induction changes with
  | nil => exact ⟨[], rfl, rfl⟩
  | cons change changes ih =>
      rw [List.forall_mem_cons] at h
      obtain ⟨explanation, hexplain⟩ := h.1
      obtain ⟨explanations, hmap, hall⟩ := ih h.2
      refine ⟨explanation :: explanations, by rw [List.map_cons, List.map_cons, hexplain, hmap], ?_⟩
      rw [explainAll, hexplain, hall]

attribute [local instance] Host.usual

end Conversion

end FormulaUpgrade
