import FormulaUpgrade.Proofs.Conversion.Derivation
import FormulaUpgrade.Proofs.Conversion.Upgrade

/-! # Grouping

A conversion puts parentheses around operands whatever the precedence, and never around an operator
that stands in front of its operand. That keeps the grouping of a formula, unless such an operator
is the base of a power.
-/

namespace FormulaUpgrade

open Token Grammar

namespace SyntaxTree

/-- The operators in front of an operand that are operators after the conversion too. -/
def signs : List String :=
  ["-", "!", "not"]

/-- Whether a tree, its parentheses ignored, is a sign in front of an operand. -/
def isSigned : SyntaxTree → Bool
  | .paren content => content.isSigned
  | .operator op [_] => signs.contains op
  | _ => false

/-- Whether a tree is a power, or a call of `pow`, whose base is a sign in front of an operand. -/
def raisesSigned : SyntaxTree → Bool
  | .operator op (x :: _) => op == "^" && x.isSigned
  | .call name (x :: _) => name == "pow" && x.isSigned
  | _ => false

/-- A tree in which no sign in front of an operand is the base of a power. -/
def HasPlainBases (t : SyntaxTree) : Prop :=
  Everywhere (fun x => x.raisesSigned = false) t

theorem hasPlainBases_iff {t : SyntaxTree} :
    t.HasPlainBases ↔ t.raisesSigned = false ∧ ∀ x ∈ t.children, x.HasPlainBases :=
  everywhere_iff

theorem hasPlainBases_paren {x : SyntaxTree} : (paren x).HasPlainBases ↔ x.HasPlainBases := by
  rw [hasPlainBases_iff]
  simp [raisesSigned, children]

theorem hasPlainBases_conditional {c x y : SyntaxTree} :
    (conditional c x y).HasPlainBases ↔ c.HasPlainBases ∧ x.HasPlainBases ∧ y.HasPlainBases := by
  rw [hasPlainBases_iff]
  simp [raisesSigned, children]

theorem hasPlainBases_operator {op : String} {x : SyntaxTree} {xs : List SyntaxTree} :
    (operator op (x :: xs)).HasPlainBases ↔
      (op = "^" → x.isSigned = false) ∧ ∀ y ∈ x :: xs, y.HasPlainBases := by
  rw [hasPlainBases_iff]
  simp [raisesSigned, children]

theorem hasPlainBases_call {name : String} {args : List SyntaxTree} (hname : name ≠ "pow") :
    (call name args).HasPlainBases ↔ ∀ x ∈ args, x.HasPlainBases := by
  have hself : (call name args).raisesSigned = false := by
    cases args <;> simp [raisesSigned, hname]
  rw [hasPlainBases_iff]
  simp [hself, children]

theorem hasPlainBases_call_cons {name : String} {x : SyntaxTree} {xs : List SyntaxTree} :
    (call name (x :: xs)).HasPlainBases ↔
      (name = "pow" → x.isSigned = false) ∧ ∀ y ∈ x :: xs, y.HasPlainBases := by
  rw [hasPlainBases_iff]
  simp [raisesSigned, children]

theorem hasPlainBases_of_children_eq_nil {t : SyntaxTree} (h : t.children = [])
    (hself : t.raisesSigned = false) : t.HasPlainBases :=
  hasPlainBases_iff.mpr ⟨hself, by simp [h]⟩

/-- Whether a tree is an operator with a single operand. -/
def isUnary : SyntaxTree → Bool
  | .operator _ [_] => true
  | _ => false

theorem erase_raise_eq_iff {x y u v : SyntaxTree} :
    (raise x y).erase = .operator "^" [u, v] ↔ x.isUnary = false ∧ x.erase = u ∧ y.erase = v := by
  unfold raise
  split
  · simp [erase, eraseAll, isUnary]
  next hx =>
    have hunary : x.isUnary = false := by
      unfold isUnary
      split
      next op z => exact absurd rfl (hx op z)
      next => rfl
    simp [erase, eraseAll, hunary]

theorem erase_binary_eq_iff {op : String} {x y u v : SyntaxTree} (hop : op ≠ "^") :
    (binary op x y).erase = .operator op [u, v] ↔ x.erase = u ∧ y.erase = v := by
  rw [binary, if_neg hop]
  simp [erase, eraseAll]

theorem erase_templateTree (kind : Property.Kind) (name : String) :
    (kind.templateTree (Property.referenceTree name)).erase =
      kind.templateTree (Property.referenceTree name) := by
  cases kind <;> rfl

end SyntaxTree

namespace Formula

open Conversion SyntaxTree

theorem erase_operandTree (f : Formula) : f.operandTree.erase = f.convertedTree.erase := by
  unfold operandTree grouped
  split <;> simp [erase]

theorem eraseAll_convertedTrees (fs : List Formula) :
    eraseAll (convertedTrees fs) = fs.map fun f => f.convertedTree.erase := by
  rw [convertedTrees_eq_map, eraseAll_eq_map, List.map_map]
  rfl

/-! ## Signs -/

theorem isUnary_operandTree_of_needsParentheses {f : Formula} (h : f.needsParentheses) :
    f.operandTree.isUnary = false := by
  rw [operandTree_of_needsParentheses h]
  rfl

theorem isUnary_operandTree_function (name : String) (args : List Formula) :
    (function name args).operandTree.isUnary = false := by
  cases hneeds : (function name args).needsParentheses with
  | true => exact isUnary_operandTree_of_needsParentheses hneeds
  | false =>
      rw [operandTree_of_not_needsParentheses hneeds, convertedTree, functionTree]
      cases htreatment : treatment name with
      | renamed | unchanged => rfl
      | operator op => simp [needsParentheses, htreatment] at hneeds
      | special special =>
          simp only [needsParentheses, htreatment] at hneeds
          cases special with
          | unaryMinus | unaryPlus | day | month => cases hneeds
          | join => cases args <;> rfl

/-- A formula is a sign in front of an operand after the conversion if its tree was one before. -/
theorem Normalizes.isUnary_operandTree [Host] {declared : Property.Declared} {t : SyntaxTree}
    {f : Formula} (h : Normalizes declared t f) : f.operandTree.isUnary = t.isSigned := by
  induction h with
  | number | string => rfl
  | symbol =>
      rw [operandTree_of_not_needsParentheses rfl, convertedTree]
      split <;> rfl
  | @property _ _ kind =>
      rw [operandTree_of_not_needsParentheses rfl, convertedTree]
      cases kind <;> rfl
  | function => exact isUnary_operandTree_function _ _
  | prefixed hkind hop =>
      rcases prefixed_spelling hkind hop with
        ⟨rfl, rfl⟩ | ⟨rfl, rfl⟩ | ⟨rfl, rfl⟩ | ⟨rfl, rfl⟩ <;> rfl
  | infixed | power | conditional => rfl
  | continued _ _ _ hlength =>
      refine isUnary_operandTree_of_needsParentheses ?_
      simp [needsParentheses]
      omega
  | paren _ ih => exact ih

/-! ## Rules and texts -/

/-- The converted text of a formula groups as the rules do. -/
def Agrees [Host] (declared : Property.Declared) (t : SyntaxTree) (f : Formula) : Prop :=
  f.convertedTree.erase = upgrade declared t.erase

variable {declared : Property.Declared}

theorem agrees_args [Host] {args : List Pair}
    (ih : ∀ arg ∈ args, (Agrees declared arg.1 arg.2 ↔ arg.1.HasPlainBases)) :
    eraseAll (convertedTrees (args.map Prod.snd)) =
        upgradeAll declared (eraseAll (args.map Prod.fst)) ↔
      ∀ x ∈ args.map Prod.fst, x.HasPlainBases := by
  rw [eraseAll_convertedTrees, upgradeAll_eq_map, eraseAll_eq_map, List.map_map, List.map_map,
    List.map_map, List.map_inj_left, List.forall_mem_map]
  exact forall_congr' fun arg => imp_congr_right (ih arg)

theorem agrees_binary [Host] (op : String) {x y : SyntaxTree} {f g : Formula}
    (hsigned : f.operandTree.isUnary = x.isSigned) (hx : Agrees declared x f ↔ x.HasPlainBases)
    (hy : Agrees declared y g ↔ y.HasPlainBases) :
    (SyntaxTree.binary op f.operandTree g.operandTree).erase =
        .operator op [upgrade declared x.erase, upgrade declared y.erase] ↔
      (op = "^" → x.isSigned = false) ∧ ∀ z ∈ [x, y], z.HasPlainBases := by
  have hboth : f.operandTree.erase = upgrade declared x.erase ∧
      g.operandTree.erase = upgrade declared y.erase ↔ ∀ z ∈ [x, y], z.HasPlainBases := by
    rw [erase_operandTree, erase_operandTree, List.forall_mem_cons, List.forall_mem_singleton]
    exact and_congr hx hy
  by_cases hop : op = "^"
  · subst hop
    rw [SyntaxTree.binary, if_pos rfl, erase_raise_eq_iff, hsigned, hboth]
    simp
  · rw [erase_binary_eq_iff hop, hboth]
    simp [hop]

theorem agrees_special [Host] {special : Special} {args : List Pair}
    (hminus : special = .unaryMinus → args.length = 1)
    (ih : ∀ arg ∈ args, (Agrees declared arg.1 arg.2 ↔ arg.1.HasPlainBases)) :
    (specialTree special (args.map Prod.snd) (convertedTrees (args.map Prod.snd))).erase =
        upgradedCall special.name (upgradeAll declared (eraseAll (args.map Prod.fst))) ↔
      ∀ x ∈ args.map Prod.fst, x.HasPlainBases := by
  rw [← agrees_args ih]
  cases special with
  | unaryMinus =>
      match args, hminus rfl with
      | [arg], _ =>
        change SyntaxTree.operator "-" [arg.2.operandTree.erase] =
          .operator "-" [upgrade declared arg.1.erase] ↔ _
        simp [erase_operandTree, convertedTrees, eraseAll, upgradeAll]
  | unaryPlus =>
      change SyntaxTree.call "toNumber" (eraseAll _) = .call "toNumber" (upgradeAll declared _) ↔ _
      simp
  | day =>
      change SyntaxTree.operator "%" [.call "day" (eraseAll _), _] =
        .operator "%" [.call "day" (upgradeAll declared _), _] ↔ _
      simp [erase]
  | month =>
      change SyntaxTree.operator "-" [.call "month" (eraseAll _), _] =
        .operator "-" [.call "month" (upgradeAll declared _), _] ↔ _
      simp [erase]
  | join =>
      cases args with
      | nil => exact ⟨fun _ => rfl, fun _ => rfl⟩
      | cons arg args =>
          change SyntaxTree.call "join" [.array (eraseAll _), arg.2.convertedTree.erase] =
            .call "join" [.array (upgradeAll declared (eraseAll _)),
              upgrade declared arg.1.erase] ↔ _
          simp [convertedTrees, eraseAll, upgradeAll, and_comm]

theorem agrees_function [Host] {name : String} {args : List Pair} (hprop : name ≠ "prop")
    (hcount : ∀ op, treatment name = .operator op → args.length = 2)
    (hminus : name = "unaryMinus" → args.length = 1)
    (hsigned : ∀ arg ∈ args, arg.2.operandTree.isUnary = arg.1.isSigned)
    (ih : ∀ arg ∈ args, (Agrees declared arg.1 arg.2 ↔ arg.1.HasPlainBases)) :
    Agrees declared (.call name (args.map Prod.fst)) (.function name (args.map Prod.snd)) ↔
      (SyntaxTree.call name (args.map Prod.fst)).HasPlainBases := by
  rw [Agrees, erase, upgrade, if_neg hprop, convertedTree, functionTree]
  cases htreatment : treatment name with
  | renamed renamed =>
      have hpow : name ≠ "pow" := by
        rintro rfl
        cases htreatment
      rw [hasPlainBases_call hpow, ← agrees_args ih, upgradedCall_renamed htreatment]
      simp [erase]
  | operator op =>
      obtain ⟨arg, other, rfl⟩ := eq_pair_of_length (hcount op htreatment)
      have hpow : ∀ entry ∈ operatorFunctions, (entry.1 = "pow" ↔ entry.2 = "^") := by
        decide
      have hname : name = "pow" ↔ op = "^" := hpow _ (mem_operatorFunctions htreatment)
      simp only [List.map_cons, List.map_nil, zipWith_grouped, chained_pair, eraseAll, upgradeAll,
        upgradedCall_operator htreatment]
      rw [hasPlainBases_call_cons, hname]
      exact agrees_binary op (hsigned arg (by simp)) (ih arg (by simp)) (ih other (by simp))
  | special special =>
      obtain rfl := name_of_special htreatment
      have hpow : special.name ≠ "pow" := by
        cases special <;> decide
      rw [hasPlainBases_call hpow]
      refine agrees_special ?_ ih
      rintro rfl
      exact hminus rfl
  | unchanged =>
      have hpow : name ≠ "pow" := by
        rintro rfl
        cases htreatment
      rw [hasPlainBases_call hpow, ← agrees_args ih, upgradedCall_unchanged htreatment]
      simp [erase]

theorem agrees_operator [Host] (op : String) {x y : SyntaxTree} {f g : Formula}
    (hsigned : f.operandTree.isUnary = x.isSigned) (hx : Agrees declared x f ↔ x.HasPlainBases)
    (hy : Agrees declared y g ↔ y.HasPlainBases) :
    Agrees declared (.operator op [x, y]) (.operator op [f, g]) ↔
      (SyntaxTree.operator op [x, y]).HasPlainBases := by
  have hrule : upgrade declared (SyntaxTree.operator op [x, y]).erase =
      .operator op [upgrade declared x.erase, upgrade declared y.erase] :=
    upgradedOperator_binary op _ _
  rw [Agrees, hrule, hasPlainBases_operator]
  exact agrees_binary op hsigned hx hy

/-- One more operand of a chain, which is none of powers. -/
theorem agrees_concat [Host] {op : String} (hop : op ≠ "^") {x y : SyntaxTree}
    {inner : List Formula} {g : Formula} (hlength : 2 ≤ inner.length)
    (hx : Agrees declared x (.operator op inner) ↔ x.HasPlainBases)
    (hy : Agrees declared y g ↔ y.HasPlainBases) :
    Agrees declared (.operator op [x, y]) (.operator op (inner ++ [g])) ↔
      (SyntaxTree.operator op [x, y]).HasPlainBases := by
  have hrule : upgrade declared (SyntaxTree.operator op [x, y]).erase =
      .operator op [upgrade declared x.erase, upgrade declared y.erase] :=
    upgradedOperator_binary op _ _
  rw [Agrees, hrule, convertedTree_concat op hlength, erase_binary_eq_iff hop, erase_operandTree,
    hasPlainBases_operator, List.forall_mem_cons, List.forall_mem_singleton, ← hx, ← hy]
  simp [hop, Agrees]

theorem agrees_prefixed [Host] {kind : Token.Kind} {op : String} {x : SyntaxTree} {f : Formula}
    (hkind : kind ∈ prefixKinds) (hop : Word.Lexical (kind, op))
    (ih : Agrees declared x f ↔ x.HasPlainBases) :
    Agrees declared (.operator op [x]) (.operator op [f]) ↔
      (SyntaxTree.operator op [x]).HasPlainBases := by
  have hsign : ∀ sign, SyntaxTree.operator sign [f.operandTree.erase] =
      .operator sign [upgrade declared x.erase] ↔ x.HasPlainBases := by
    intro sign
    rw [erase_operandTree, ← ih]
    simp [Agrees]
  rw [hasPlainBases_operator, List.forall_mem_singleton]
  rcases prefixed_spelling hkind hop with
    ⟨rfl, rfl⟩ | ⟨rfl, rfl⟩ | ⟨rfl, rfl⟩ | ⟨rfl, rfl⟩
  · exact (hsign "-").trans (by simp)
  · rw [← ih]
    change SyntaxTree.call "toNumber" [f.convertedTree.erase] =
      .call "toNumber" [upgrade declared x.erase] ↔ _
    simp [Agrees]
  · exact (hsign "!").trans (by simp)
  · exact (hsign "!").trans (by simp)

/-- The converted text of a formula groups as the rules do exactly if no sign in front of an operand
is the base of a power. -/
theorem Normalizes.agrees_iff [Host] {t : SyntaxTree} {f : Formula} (h : Normalizes declared t f)
    (hminus : ∀ args, Within (.call "unaryMinus" args) t → args.length = 1) :
    Agrees declared t f ↔ t.HasPlainBases := by
  induction h with
  | @number written h =>
      have hagrees : Agrees declared (.constant .number written) (.literal written) := by
        simp [Agrees, convertedTree, h.ofText_eq, erase, upgrade]
      exact iff_of_true hagrees (hasPlainBases_of_children_eq_nil rfl rfl)
  | @string written h =>
      have hagrees : Agrees declared (.constant .string written)
          (.literal (StringLiteral.requote written)) := by
        simp [Agrees, convertedTree, (StringLiteral.lexical_requote h).ofText_eq, erase, upgrade]
      exact iff_of_true hagrees (hasPlainBases_of_children_eq_nil rfl rfl)
  | @symbol name hname =>
      have hagrees : ∀ name ∈ constants, Agrees declared (.symbol name) (.symbol name) := by
        simp [constants, Agrees, convertedTree, calledConstants, erase, eraseAll, upgrade]
      exact iff_of_true (hagrees name hname) (hasPlainBases_of_children_eq_nil rfl rfl)
  | @property kind written propertyKind hresolve =>
      have hagrees : Agrees declared (.call "prop" [.constant kind written])
          (.property (propertyName kind written) propertyKind) := by
        simp [Agrees, convertedTree, erase_templateTree, erase, eraseAll, upgrade,
          upgradedReference, hresolve]
      refine iff_of_true hagrees ((hasPlainBases_call (by decide)).mpr ?_)
      simpa using hasPlainBases_of_children_eq_nil rfl rfl
  | function _ _ hprop hcount hargs ih =>
      refine agrees_function hprop hcount ?_ (fun arg h => (hargs arg h).isUnary_operandTree) ?_
      · rintro rfl
        simpa using hminus _ (.self _)
      · intro arg harg
        exact ih arg harg (single_of_child hminus (List.mem_map_of_mem harg))
  | prefixed hkind hop _ ih =>
      exact agrees_prefixed hkind hop (ih (single_of_child hminus (by simp [children])))
  | infixed _ _ hx _ ihx ihy | power hx _ ihx ihy =>
      exact agrees_operator _ hx.isUnary_operandTree
        (ihx (single_of_child hminus (by simp [children])))
        (ihy (single_of_child hminus (by simp [children])))
  | continued hkind hop _ hlength _ ihx ihy =>
      exact agrees_concat (ne_power hkind hop) hlength
        (ihx (single_of_child hminus (by simp [children])))
        (ihy (single_of_child hminus (by simp [children])))
  | paren _ ih =>
      rw [hasPlainBases_paren]
      exact ih (single_of_child hminus (by simp [children]))
  | conditional _ _ _ ihc ihx ihy =>
      have ihc := ihc (single_of_child hminus (by simp [children]))
      have ihx := ihx (single_of_child hminus (by simp [children]))
      have ihy := ihy (single_of_child hminus (by simp [children]))
      rw [hasPlainBases_conditional, ← ihc, ← ihx, ← ihy]
      change SyntaxTree.call "if" [operandTree _ |>.erase, operandTree _ |>.erase,
        operandTree _ |>.erase] = .call "if" [_, _, _] ↔ _
      simp [erase_operandTree, Agrees]

end Formula

/-! ## Conversions -/

namespace Conversion

open SyntaxTree

/-- A conversion without issues keeps the grouping of a formula, in which every call of `unaryMinus`
has one argument, exactly if no sign in front of an operand is the base of a power. -/
theorem convert_keeps_grouping_iff [Host] (declared : Property.Declared) (s : String)
    (hs : Text.isAllBlank s = false) (h : (convert declared s).issues = []) :
    ∃ tree, parse s = .ok tree ∧
      ((∀ args, Within (.call "unaryMinus" args) tree → args.length = 1) →
        ∃ out, parse (convert declared s).formula = .ok out ∧
          (out.erase = upgrade declared tree.erase ↔
            ∀ x, Within x tree → x.raisesSigned = false)) := by
  obtain ⟨tree, f, hparse, hnormal, hformula, _⟩ := convert_normalizes hs h
  refine ⟨tree, hparse, fun hminus => ⟨f.convertedTree, ?_, hnormal.agrees_iff hminus⟩⟩
  rw [hformula]
  exact hnormal.parse_convertedText (complete_of_single hminus)

attribute [local instance] Host.usual

/-- A new name, an operator, a list, a conditional and a template keep the grouping. The sign in
front of a base is applied to the power. -/
theorem convert_keeps_grouping_mixed :
    let declared := Property.Types.declared (.ofList [("A", .person)])
    let s := "join(\",\", slice(prop(\"A\"), add(1, 2)), true ? 1 : 2)"
    let signed := "pow(-2, unaryMinus(1))"
    (Text.isAllBlank s = false ∧ (convert declared s).issues = [] ∧
      (convert declared s).formula =
        "join([substring(join(prop(\"A\"), map(format(current)), \", \"), 1 + 2), if(true, 1, 2)], \",\")" ∧
      ∃ tree out, parse s = .ok tree ∧ parse (convert declared s).formula = .ok out ∧
        out.erase = upgrade declared tree.erase) ∧
    Text.isAllBlank signed = false ∧ (convert declared signed).issues = [] ∧
      (convert declared signed).formula = "-2 ^ (-1)" ∧
      ∃ tree out, parse signed = .ok tree ∧ parse (convert declared signed).formula = .ok out ∧
        out.erase ≠ upgrade declared tree.erase := by
  intro declared s signed
  have hblank : Text.isAllBlank s = false ∧ Text.isAllBlank signed = false := by decide +kernel
  have hissues : (convert declared s).issues = [] ∧ (convert declared signed).issues = [] := by
    decide +kernel
  let tree : SyntaxTree := .call "join" [.constant .string "\",\"",
    .call "slice" [.call "prop" [.constant .string "\"A\""],
      .call "add" [.constant .number "1", .constant .number "2"]],
    .conditional (.symbol "true") (.constant .number "1") (.constant .number "2")]
  let signedTree : SyntaxTree := .call "pow"
    [.operator "-" [.constant .number "2"], .call "unaryMinus" [.constant .number "1"]]
  have hparse : parse s = .ok tree :=
    parse_eq_ok_iff_feed.mpr ⟨[(.name, "join"), (.lparen, "("), (.string, "\",\""), (.comma, ","),
      (.name, "slice"), (.lparen, "("), (.name, "prop"), (.lparen, "("), (.string, "\"A\""),
      (.rparen, ")"), (.comma, ","), (.name, "add"), (.lparen, "("), (.number, "1"), (.comma, ","),
      (.number, "2"), (.rparen, ")"), (.rparen, ")"), (.comma, ","), (.name, "true"),
      (.question, "?"), (.number, "1"), (.colon, ":"), (.number, "2"), (.rparen, ")")], _,
      by decide +kernel, rfl, rfl⟩
  have hsigned : parse signed = .ok signedTree :=
    parse_eq_ok_iff_feed.mpr ⟨[(.name, "pow"), (.lparen, "("), (.minus, "-"), (.number, "2"),
      (.comma, ","), (.name, "unaryMinus"), (.lparen, "("), (.number, "1"), (.rparen, ")"),
      (.rparen, ")")], _, by decide +kernel, rfl, rfl⟩
  have hminus : ∀ args, Within (.call "unaryMinus" args) tree → args.length = 1 := by
    simp [tree, @within_iff _ (.call ..), @within_iff _ (.conditional ..),
      @within_iff _ (.constant ..), @within_iff _ (.symbol _), children]
  have hminus' : ∀ args, Within (.call "unaryMinus" args) signedTree → args.length = 1 := by
    simp [signedTree, @within_iff _ (.call ..), @within_iff _ (.operator ..),
      @within_iff _ (.constant ..), children]
  have hbases : tree.HasPlainBases := by
    simp [tree, @hasPlainBases_iff (.call ..), @hasPlainBases_iff (.conditional ..),
      @hasPlainBases_iff (.constant ..), @hasPlainBases_iff (.symbol _), children, raisesSigned]
  obtain ⟨_, htree, hgroups⟩ := convert_keeps_grouping_iff declared s hblank.1 hissues.1
  obtain ⟨_, htree', hgroups'⟩ := convert_keeps_grouping_iff declared signed hblank.2 hissues.2
  obtain rfl := Except.ok.inj (hparse.symm.trans htree)
  obtain rfl := Except.ok.inj (hsigned.symm.trans htree')
  obtain ⟨out, hout, hkept⟩ := hgroups hminus
  obtain ⟨out', hout', hregrouped⟩ := hgroups' hminus'
  refine ⟨⟨hblank.1, hissues.1, by decide +kernel, tree, out, hparse, hout, hkept.mpr hbases⟩,
    hblank.2, hissues.2, by decide +kernel, signedTree, out', hsigned, hout', fun heq => ?_⟩
  cases hregrouped.mp heq _ (.self _)

end Conversion

end FormulaUpgrade
