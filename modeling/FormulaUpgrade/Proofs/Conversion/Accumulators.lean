import FormulaUpgrade.Proofs.Conversion.Traversal
import Mathlib.Data.List.Basic

/-! # What the walk over a formula records

The walk keeps three logs. A node puts its own change in front of the changes of its parts and its
own issue behind their issues, and names are recorded where they come first. None of this depends on
what the logs held before.
-/

namespace FormulaUpgrade

open Conversion

namespace Formula

/-! ## Issues -/

/-- The issue that a node itself is, whatever is below it. -/
def ownIssue? : Formula → Option Issue
  | .function name args =>
    match treatment name with
    | .operator _ => if args.length = 2 then none else some ⟨"operatorIncorrectArgs", some name⟩
    | _ => none
  | .operator op [] => some ⟨"operatorNoArgs", some op⟩
  | .error message => some ⟨"parserError", some message⟩
  | _ => none

theorem issuesOfAll_eq_flatMap (fs : List Formula) : issuesOfAll fs = fs.flatMap issues := by
  induction fs with
  | nil => rfl
  | cons f fs ih => rw [issuesOfAll, ih, List.flatMap_cons]

theorem issues_eq (f : Formula) : f.issues = f.parts.flatMap issues ++ f.ownIssue?.toList := by
  cases f with
  | missing | literal | property | symbol | error => rfl
  | parentheses | conditional => simp [issues, parts, ownIssue?]
  | function name args =>
      rw [issues, issuesOfAll_eq_flatMap, parts, ownIssue?]
      cases treatment name with
      | renamed | special | unchanged => rfl
      | operator op =>
          dsimp only
          split <;> rfl
  | operator op args =>
      cases args with
      | nil => rfl
      | cons arg rest => cases rest <;> simp [issues, issuesOfAll_eq_flatMap, parts, ownIssue?]

/-- Issues are listed with an inner one first. -/
theorem issues_eq_postorder (f : Formula) : f.issues = f.postorder.filterMap ownIssue? := by
  induction f using inductionOnParts with
  | node f ih =>
      have hparts : f.parts.flatMap issues =
          f.parts.flatMap fun part => part.postorder.filterMap ownIssue? :=
        List.flatMap_congr ih
      rw [issues_eq, postorder_eq, List.filterMap_append, List.filterMap_flatMap, hparts]
      cases hown : f.ownIssue? <;> simp [hown]

/-! ## References -/

/-- The name of the property that a node itself refers to. -/
def propertyName? : Formula → Option String
  | .property name _ => some name
  | _ => none

theorem propertyNamesOfAll_eq_flatMap (fs : List Formula) :
    propertyNamesOfAll fs = fs.flatMap propertyNames := by
  induction fs with
  | nil => rfl
  | cons f fs ih => rw [propertyNamesOfAll, ih, List.flatMap_cons]

/-- Names are listed from left to right. -/
theorem propertyNames_eq_preorder (f : Formula) :
    f.propertyNames = f.preorder.filterMap propertyName? := by
  induction f using inductionOnParts with
  | node f ih =>
      have hparts : f.parts.flatMap propertyNames =
          f.parts.flatMap fun part => part.preorder.filterMap propertyName? :=
        List.flatMap_congr ih
      rw [preorder_eq, List.filterMap_cons, List.filterMap_flatMap, ← hparts]
      cases f <;> simp [propertyNames, propertyName?, parts, propertyNamesOfAll_eq_flatMap]

end Formula

namespace Conversion

/-- Names are added where they come first, and only those that are new. -/
theorem addNames_eq (known new : List String) :
    addNames known new = known ++ (new.filter (· ∉ known)).eraseDups := by
  induction new generalizing known with
  | nil => simp [addNames]
  | cons name new ih =>
      have hstep : addNames known (name :: new) =
          addNames (if known.contains name then known else known ++ [name]) new := rfl
      rw [hstep]
      by_cases hname : name ∈ known
      · rw [if_pos (List.contains_iff_mem.mpr hname), ih, List.filter_cons_of_neg (by simpa)]
      · have hfilter : new.filter (· ∉ known ++ [name]) =
            (new.filter (· ∉ known)).filter (!· == name) := by
          rw [List.filter_filter]
          apply List.filter_congr
          intro x _
          by_cases hx : x = name <;> simp [hx]
        rw [if_neg (by simpa using hname), ih, hfilter, List.filter_cons_of_pos (by simpa),
          List.eraseDups_cons, List.append_assoc, List.singleton_append]

/-! ## The walk -/

/-- The walk over any formula adds to each log what the formula alone determines: its changes, the
change of a node in front of those of its parts; its issues, the issue of a node behind those of its
parts; and the names that it refers to from left to right, each where it comes first, unless it was
recorded before. The text that it returns depends on no log. -/
theorem emit_accumulates (f : Formula) (c : Context) :
    ((emit f c).2.changes = c.changes ++ f.changes ∧
      f.changes = f.ownChange?.toList ++ f.parts.flatMap Formula.changes) ∧
    ((emit f c).2.issues = c.issues ++ f.issues ∧
      f.issues = f.parts.flatMap Formula.issues ++ f.ownIssue?.toList) ∧
    (emit f c).2.references = c.references ++
      ((f.preorder.filterMap Formula.propertyName?).filter (· ∉ c.references)).eraseDups ∧
    ∀ c', (emit f c').1 = (emit f c).1 := by
  have hwalk := emit_walked f c
  refine ⟨⟨hwalk.changes_eq, f.changes_eq⟩, ⟨hwalk.issues_eq, f.issues_eq⟩, ?_, ?_⟩
  · rw [hwalk.references_eq, addNames_eq, f.propertyNames_eq_preorder]
  · intro c'
    rw [hwalk.fst_eq, (emit_walked f c').fst_eq]

end Conversion

end FormulaUpgrade
