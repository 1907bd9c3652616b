import FormulaUpgrade.Proofs.Conversion.References

/-! # What a conversion without issues yields

The converted text of a kept part is part of the converted text. So a conversion without issues
yields a text that parses and has every reference, unless a call of `unaryMinus` has no argument or
more than one.
-/

namespace FormulaUpgrade

open Property

/-! ## Parts of a text -/

namespace Text

/-- A text is part of another. -/
def Occurs (part text : String) : Prop :=
  part.toList <:+: text.toList

theorem occurs_refl (s : String) : Occurs s s :=
  List.infix_refl _

variable {part text : String}

theorem Occurs.trans {whole : String} (h : Occurs part text) (h' : Occurs text whole) :
    Occurs part whole :=
  List.IsInfix.trans h h'

theorem Occurs.append_left (h : Occurs part text) (after : String) :
    Occurs part (text ++ after) := by
  refine h.trans ?_
  rw [Occurs, String.toList_append]
  exact (List.prefix_append _ _).isInfix

theorem Occurs.append_right (h : Occurs part text) (before : String) :
    Occurs part (before ++ text) := by
  refine h.trans ?_
  rw [Occurs, String.toList_append]
  exact (List.suffix_append _ _).isInfix

theorem occurs_intercalate (separator : String) {texts : List String} (h : part ∈ texts) :
    Occurs part (separator.intercalate texts) := by
  induction texts with
  | nil => cases h
  | cons first rest ih =>
      cases rest with
      | nil => simpa [List.mem_singleton.mp h] using occurs_refl first
      | cons second rest =>
          rw [String.intercalate_cons_cons]
          rcases List.mem_cons.mp h with rfl | h
          · exact ((occurs_refl part).append_left _).append_left _
          · exact (ih h).append_right _

end Text

namespace Formula

open Conversion SyntaxTree

/-! ## Parts of a converted text -/

theorem occurs_operand (f : Formula) : Text.Occurs f.convertedText f.operandText := by
  unfold operandText wrap
  split
  · exact ((Text.occurs_refl _).append_right "(").append_left ")"
  · exact Text.occurs_refl _

theorem occurs_call {fs : List Formula} {f : Formula} (hf : f ∈ fs) (name : String) :
    Text.Occurs f.convertedText (callText name (convertedTexts fs)) := by
  rw [convertedTexts_eq_map]
  exact ((Text.occurs_intercalate ", " (List.mem_map_of_mem hf)).append_right _).append_left ")"

theorem occurs_operator {fs : List Formula} {f : Formula} (hf : f ∈ fs) (op : String) :
    Text.Occurs f.convertedText ((" " ++ op ++ " ").intercalate (fs.map operandText)) :=
  (occurs_operand f).trans (Text.occurs_intercalate _ (List.mem_map_of_mem hf))

theorem occurs_join {fs : List Formula} {f : Formula} (hf : f ∈ fs) :
    Text.Occurs f.convertedText (Special.text .join fs (convertedTexts fs)) := by
  cases fs with
  | nil => cases hf
  | cons separator values =>
      rw [convertedTexts, Special.text]
      rcases List.mem_cons.mp hf with rfl | hf
      · exact ((Text.occurs_refl _).append_right _).append_left ")"
      · rw [convertedTexts_eq_map]
        have hvalues := Text.occurs_intercalate ", " (List.mem_map_of_mem (f := convertedText) hf)
        exact (((hvalues.append_right _).append_left _).append_left _).append_left ")"

theorem occurs_function {name : String} (hname : name ≠ "unaryMinus") {fs : List Formula}
    {f : Formula} (hf : f ∈ fs) : Text.Occurs f.convertedText (function name fs).convertedText := by
  rw [convertedText, functionText]
  cases htreatment : treatment name with
  | renamed | unchanged => exact occurs_call hf _
  | operator op =>
      have hoperator := occurs_operator hf op
      rw [← zipWith_wrap] at hoperator
      exact hoperator
  | special special =>
      obtain rfl := name_of_special htreatment
      cases special with
      | unaryMinus => exact absurd rfl hname
      | unaryPlus => exact occurs_call hf _
      | day | month => exact (occurs_call hf _).append_left _
      | join => exact occurs_join hf

theorem occurs_prefixed (op : String) (f : Formula) :
    Text.Occurs f.convertedText (operator op [f]).convertedText := by
  rw [convertedText, Conversion.prefixText]
  split
  · exact (occurs_operand f).append_right _
  · split
    · exact @occurs_call [f] f (by simp) _
    · exact (occurs_operand f).append_right _

theorem occurs_conditional {condition ifTrue ifFalse f : Formula}
    (hf : f ∈ [condition, ifTrue, ifFalse]) :
    Text.Occurs f.convertedText (conditional condition ifTrue ifFalse).convertedText := by
  have hcall := Text.occurs_intercalate ", " (List.mem_map_of_mem (f := operandText) hf)
  exact (occurs_operand f).trans ((hcall.append_right _).append_left ")")

theorem Normalizes.eq_property [Host] {declared : Declared} {args : List SyntaxTree} {f : Formula}
    (h : Normalizes declared (.call "prop" args) f) :
    ∃ kind written propertyKind, args = [.constant kind written] ∧
      f = .property (propertyName kind written) propertyKind := by
  generalize ht : SyntaxTree.call "prop" args = t at h
  cases h with
  | property => exact ⟨_, _, _, by simpa using ht, rfl⟩
  | function _ _ hprop => exact absurd (SyntaxTree.call.inj ht).1.symm hprop
  | number | string | symbol | prefixed | infixed | continued | power | paren | conditional =>
      cases ht

/-- One step into a tree: the converted text of a kept child is part of the converted text. -/
theorem Normalizes.occurs_child [Host] {declared : Declared} {t y : SyntaxTree} {f : Formula}
    (h : Normalizes declared t f) (hprop : ∀ args, t ≠ .call "prop" args)
    (hy : y ∈ t.keptChildren) :
    ∃ g, Normalizes declared y g ∧ Text.Occurs g.convertedText f.convertedText := by
  cases h with
  | number | string | symbol => cases hy
  | property => exact absurd rfl (hprop _)
  | @function _ name args _ _ _ _ hargs =>
      by_cases hminus : name = "unaryMinus"
      · subst hminus
        cases args with
        | nil => cases hy
        | cons arg args =>
            obtain rfl : y = arg.1 := by simpa [keptChildren] using hy
            exact ⟨arg.2, hargs arg (by simp), (occurs_operand arg.2).append_right "-"⟩
      · rw [keptChildren, if_neg hminus] at hy
        obtain ⟨arg, harg, rfl⟩ := List.mem_map.mp hy
        exact ⟨arg.2, hargs arg harg, occurs_function hminus (List.mem_map_of_mem harg)⟩
  | @prefixed _ op x g _ _ hx =>
      obtain rfl : y = x := by simpa [keptChildren, children] using hy
      exact ⟨g, hx, occurs_prefixed op g⟩
  | infixed _ _ hx hx' | power hx hx' =>
      rw [convertedText_operator _ (by simp)]
      simp only [keptChildren, children, List.mem_cons, List.not_mem_nil, or_false] at hy
      rcases hy with rfl | rfl
      · exact ⟨_, hx, occurs_operator (by simp) _⟩
      · exact ⟨_, hx', occurs_operator (by simp) _⟩
  | continued _ _ hx hlength hx' =>
      rw [convertedText_concat _ hlength]
      simp only [keptChildren, children, List.mem_cons, List.not_mem_nil, or_false] at hy
      rcases hy with rfl | rfl
      · exact ⟨_, hx, ((Text.occurs_refl _).append_left _).append_left _⟩
      · exact ⟨_, hx', (occurs_operand _).append_right _⟩
  | @paren x _ hx =>
      obtain rfl : y = x := by simpa [keptChildren, children] using hy
      exact ⟨f, hx, Text.occurs_refl _⟩
  | conditional hc hx hx' =>
      simp only [keptChildren, children, List.mem_cons, List.not_mem_nil, or_false] at hy
      rcases hy with rfl | rfl | rfl
      · exact ⟨_, hc, occurs_conditional (by simp)⟩
      · exact ⟨_, hx, occurs_conditional (by simp)⟩
      · exact ⟨_, hx', occurs_conditional (by simp)⟩

/-- The converted text of a call that is kept is part of the converted text. -/
theorem Normalizes.occurs [Host] {declared : Declared} {name : String} {args : List SyntaxTree}
    {t : SyntaxTree} {f : Formula} (h : Normalizes declared t f)
    (hkept : Kept (.call name args) t) :
    ∃ g, Normalizes declared (.call name args) g ∧
      Text.Occurs g.convertedText f.convertedText := by
  induction hkept generalizing f with
  | self => exact ⟨f, h, Text.occurs_refl _⟩
  | @child y t hy hkept ih =>
      by_cases hprop : ∃ args, t = .call "prop" args
      · -- what a reference names is no call
        obtain ⟨_, rfl⟩ := hprop
        obtain ⟨kind, written, _, rfl, _⟩ := h.eq_property
        obtain rfl : y = .constant kind written := by simpa [keptChildren] using hy
        exact absurd hkept kept_call_constant
      · obtain ⟨g, hg, hoccurs⟩ := h.occurs_child (fun args ht => hprop ⟨args, ht⟩) hy
        obtain ⟨g', hg', hoccurs'⟩ := ih hg
        exact ⟨g', hg', hoccurs'.trans hoccurs⟩

theorem Normalizes.reference_occurs [Host] {declared : Declared} {name : String} {t : SyntaxTree}
    {f : Formula} (h : Normalizes declared t f) (hrefers : Refers keptChildren t name) :
    Text.Occurs (reference name) f.convertedText := by
  obtain ⟨kind, written, rfl, hkept⟩ := hrefers
  obtain ⟨g, hg, hoccurs⟩ := h.occurs hkept
  obtain ⟨_, _, propertyKind, hargs, rfl⟩ := hg.eq_property
  obtain ⟨rfl, rfl⟩ : kind = _ ∧ written = _ := by simpa using hargs
  exact (((Text.occurs_refl _).append_right _).append_left _).trans hoccurs

end Formula

/-! ## Conversions -/

namespace SyntaxTree

/-- Where every call of `unaryMinus` has one argument, everything is kept. -/
theorem kept_of_within {x t : SyntaxTree}
    (hminus : ∀ args, Within (.call "unaryMinus" args) t → args.length = 1) (h : Within x t) :
    Kept x t := by
  induction h with
  | self => exact .self _
  | @child y t hy _ ih =>
      refine .child ?_ (ih (single_of_child hminus hy))
      unfold keptChildren
      split
      next name args =>
        split
        next hname =>
          subst hname
          rwa [List.take_of_length_le (Nat.le_of_eq (hminus args (.self _)))]
        next => exact hy
      next => exact hy

end SyntaxTree

namespace Conversion

open SyntaxTree

/-- What a conversion without issues yields. Its text parses exactly if no call of `unaryMinus` that
is kept lacks an argument. It records all references, and those of the kept parts are part of its
text and are the references of its tree. So if every call of `unaryMinus` has one argument, then the
text parses and has every reference that is recorded. -/
theorem convert_yields_kept_parts [Host] (declared : Declared) (s : String)
    (hs : Text.isAllBlank s = false) (h : (convert declared s).issues = []) :
    ∃ tree, parse s = .ok tree ∧
      ((∃ out, parse (convert declared s).formula = .ok out) ↔
        ¬Kept (.call "unaryMinus" []) tree) ∧
      (∀ name, name ∈ (convert declared s).references ↔ Refers children tree name) ∧
      (∀ name, Refers keptChildren tree name →
        Text.Occurs (reference name) (convert declared s).formula) ∧
      (∀ out, parse (convert declared s).formula = .ok out →
        ∀ name, Within (referenceTree name) out ↔ Refers keptChildren tree name) ∧
      ((∀ args, Within (.call "unaryMinus" args) tree → args.length = 1) →
        (∃ out, parse (convert declared s).formula = .ok out) ∧
        ∀ name ∈ (convert declared s).references,
          Text.Occurs (reference name) (convert declared s).formula) := by
  obtain ⟨tree, f, hparse, hnormal, hformula, hreferences⟩ := convert_normalizes hs h
  rw [hformula, hreferences]
  have hrecorded : ∀ name, name ∈ addNames [] f.propertyNames ↔ Refers children tree name := by
    intro name
    rw [mem_addNames, hnormal.mem_propertyNames]
    simp
  refine ⟨tree, hparse, hnormal.parses_iff, hrecorded, fun name => hnormal.reference_occurs, ?_, ?_⟩
  · intro out hout name
    have hcomplete := hnormal.parses_iff.mp ⟨out, hout⟩
    obtain rfl := Except.ok.inj ((hnormal.parse_convertedText hcomplete).symm.trans hout)
    exact hnormal.mentions_iff
  · intro hminus
    refine ⟨hnormal.parses_iff.mpr (complete_of_single hminus), fun name hname => ?_⟩
    obtain ⟨kind, written, hwritten, hwithin⟩ := (hrecorded name).mp hname
    exact hnormal.reference_occurs ⟨kind, written, hwritten, kept_of_within hminus hwithin⟩

attribute [local instance] Host.usual

/-- A sign without an operand is reported as no issue, and does not parse. -/
theorem convert_unaryMinus_without_arguments :
    Text.isAllBlank "unaryMinus()" = false ∧ (convert .empty "unaryMinus()").issues = [] ∧
    ¬∃ out, parse (convert .empty "unaryMinus()").formula = .ok out := by
  have hblank : Text.isAllBlank "unaryMinus()" = false := by decide +kernel
  have hissues : (convert .empty "unaryMinus()").issues = [] := by decide +kernel
  have hparse : parse "unaryMinus()" = .ok (.call "unaryMinus" []) :=
    parse_eq_ok_iff_feed.mpr ⟨[(.name, "unaryMinus"), (.lparen, "("), (.rparen, ")")], _,
      by decide +kernel, rfl, rfl⟩
  obtain ⟨tree, htree, hparses, _⟩ := convert_yields_kept_parts .empty _ hblank hissues
  obtain rfl := Except.ok.inj (hparse.symm.trans htree)
  exact ⟨hblank, hissues, fun hout => hparses.mp hout (.self _)⟩

/-- A reference that is recorded and dropped without an issue. -/
theorem convert_unaryMinus_drops_reference :
    (convert .empty "unaryMinus(1, prop(\"A\"))").issues = [] ∧
    (convert .empty "unaryMinus(1, prop(\"A\"))").references = ["A"] ∧
    ¬Text.Occurs (reference "A") (convert .empty "unaryMinus(1, prop(\"A\"))").formula := by
  refine ⟨by decide +kernel, by decide +kernel, fun h => ?_⟩
  -- the text is shorter than the reference
  exact absurd h.length_le (by decide +kernel)

end Conversion

end FormulaUpgrade
