import FormulaUpgrade.Proofs.Conversion.Outcome
import FormulaUpgrade.Proofs.Conversion.Words
import FormulaUpgrade.Proofs.Parser.Correctness
import FormulaUpgrade.Proofs.SyntaxTree.Subtrees

/-! # Converted texts that parse

The grammar derives the tree of a converted text if no minus sign in it lacks an operand.
-/

namespace FormulaUpgrade

open Token Grammar

/-- A text that reads as the words of a tree which the grammar derives is parsed to it. -/
theorem Prints.parse {text : String} {t : SyntaxTree} (h : Prints text t)
    (ht : Derivable .assignment t) : SyntaxTree.parse text = .ok t :=
  SyntaxTree.parse_eq_ok_iff.mpr ⟨_, h.words?, .of_derives ht.derives_words⟩

/-! ## What a conversion keeps -/

namespace SyntaxTree

/-- The children that are converted. Only the first argument of `unaryMinus` is. -/
def keptChildren : SyntaxTree → List SyntaxTree
  | .call name args => if name = "unaryMinus" then args.take 1 else args
  | t => t.children

/-- A part of a tree that is converted. -/
abbrev Kept : SyntaxTree → SyntaxTree → Prop :=
  Reached keptChildren

theorem kept_iff {x t : SyntaxTree} : Kept x t ↔ x = t ∨ ∃ y ∈ t.keptChildren, Kept x y :=
  reached_iff

section Calls

variable {name op written : String} {args xs : List SyntaxTree} {kind : ConstantKind}
  {c x y : SyntaxTree}

@[simp] theorem kept_call_constant : ¬Kept (.call name args) (.constant kind written) := by
  rw [kept_iff]
  simp [keptChildren, children]

@[simp] theorem kept_call_symbol : ¬Kept (.call name args) (.symbol written) := by
  rw [kept_iff]
  simp [keptChildren, children]

@[simp] theorem kept_call_operator :
    Kept (.call name args) (.operator op xs) ↔ ∃ x ∈ xs, Kept (.call name args) x := by
  rw [kept_iff]
  simp [keptChildren, children]

@[simp] theorem kept_call_paren :
    Kept (.call name args) (.paren x) ↔ Kept (.call name args) x := by
  rw [kept_iff]
  simp [keptChildren, children]

@[simp] theorem kept_call_conditional :
    Kept (.call name args) (.conditional c x y) ↔
      Kept (.call name args) c ∨ Kept (.call name args) x ∨ Kept (.call name args) y := by
  rw [kept_iff]
  simp [keptChildren, children]

end Calls

/-- A tree in which no minus sign that is kept lacks an operand. -/
def Complete (t : SyntaxTree) : Prop :=
  ¬Kept (.call "unaryMinus" []) t

theorem complete_iff {t : SyntaxTree} :
    t.Complete ↔ t ≠ .call "unaryMinus" [] ∧ ∀ x ∈ t.keptChildren, x.Complete := by
  unfold Complete
  rw [kept_iff]
  simp [eq_comm]

@[simp] theorem complete_operator {op : String} {args : List SyntaxTree} :
    (operator op args).Complete ↔ ∀ x ∈ args, x.Complete := by
  simp [Complete]

@[simp] theorem complete_paren {x : SyntaxTree} : (paren x).Complete ↔ x.Complete := by
  simp [Complete]

@[simp] theorem complete_conditional {c x y : SyntaxTree} :
    (conditional c x y).Complete ↔ c.Complete ∧ x.Complete ∧ y.Complete := by
  simp [Complete]

theorem mem_children_of_mem_keptChildren {t x : SyntaxTree} (h : x ∈ t.keptChildren) :
    x ∈ t.children := by
  unfold keptChildren at h
  split at h
  · split at h
    · exact List.mem_of_mem_take h
    · exact h
  · exact h

theorem Kept.within {x t : SyntaxTree} (h : Kept x t) : Within x t :=
  Reached.mono mem_children_of_mem_keptChildren h

section SingleArguments

variable {t x : SyntaxTree} (h : ∀ args, Within (.call "unaryMinus" args) t → args.length = 1)

include h

theorem single_of_child (hx : x ∈ t.children) (args : List SyntaxTree)
    (hargs : Within (.call "unaryMinus" args) x) : args.length = 1 :=
  h args (.child hx hargs)

theorem complete_of_single : t.Complete := by
  intro hkept
  have hlength := h [] hkept.within
  cases hlength

end SingleArguments

end SyntaxTree

/-! ## Powers -/

theorem Grammar.Level.rank_next_le_of_mem_operators {ℓ : Level} {kind : Kind}
    (h : kind ∈ ℓ.operators) : ℓ.next.rank ≤ Level.prefixed.rank := by
  revert h
  cases ℓ <;> simp [operators, next, rank]

theorem Grammar.ne_power {ℓ : Level} {kind : Kind} {op : String} (h : kind ∈ ℓ.operators)
    (hop : Word.Lexical (kind, op)) : op ≠ "^" := by
  rintro rfl
  have hkind : kind = .pow := hop.kind_eq (by decide)
  have hpow : Kind.pow ∉ ℓ.operators := by
    cases ℓ <;> decide
  exact hpow (hkind ▸ h)

theorem Grammar.Derives.ne_operator {ℓ : Level} {ws : List Word} {t : SyntaxTree}
    (h : Derives ℓ ws t) (hℓ : Level.postfixed.rank ≤ ℓ.rank) (op : String)
    (args : List SyntaxTree) : t ≠ .operator op args := by
  induction h with
  | tighter _ ih => exact ih (Nat.le_trans hℓ (Level.rank_le_rank_next _))
  | @infixed ℓ kind _ _ _ _ _ hkind =>
      revert hℓ hkind
      cases ℓ <;> simp [Level.rank, Level.operators]
  | prefixed | power => exact absurd hℓ (by decide)
  | assignment | conditional | index | member | method | number | string | symbol | paren | call
  | array | object => simp

theorem Grammar.Derivable.raise {x y : SyntaxTree} (hx : Derivable .postfixed x)
    (hy : Derivable .prefixed y) : Derivable .prefixed (x.raise y) := by
  obtain ⟨ws, hderives, _⟩ := id hx
  unfold SyntaxTree.raise
  split
  next => exact absurd rfl (hderives.ne_operator (by decide) _ _)
  next => exact (hx.power hy).loosen (by decide)

/-! ## Operands -/

namespace Formula

open Conversion

/-- What the grammar derives of a converted formula: its tree, at the level of its operator if it
is a chain, and at the level of operands its tree as an operand and every power of that. -/
structure Convertible (f : Formula) : Prop where
  whole : Derivable .assignment f.convertedTree
  chain : ∀ {op args}, f = .operator op args → 2 ≤ args.length →
    ∀ {ℓ : Level} {kind}, kind ∈ ℓ.operators → Word.Lexical (kind, op) →
      Derivable ℓ f.convertedTree
  operand : Derivable .prefixed f.operandTree
  base : ∀ {y}, Derivable .prefixed y → Derivable .prefixed (f.operandTree.raise y)

namespace Convertible

/-- A formula that is no chain and stands for itself as an operand. -/
theorem of_postfixed {f : Formula} (hf : f.needsParentheses = false)
    (h : Derivable .postfixed f.convertedTree) : Convertible f := by
  have hoperand := operandTree_of_not_needsParentheses hf
  refine ⟨h.loosen (by decide), ?_, ?_, ?_⟩
  · rintro op args rfl hlength
    simp [needsParentheses] at hf
    omega
  · rw [hoperand]
    exact h.loosen (by decide)
  · rw [hoperand]
    exact h.raise

/-- A formula that is put in parentheses as an operand. -/
theorem of_grouped {f : Formula} (hf : f.needsParentheses)
    (h : Derivable .assignment f.convertedTree)
    (hchain : ∀ {op args}, f = .operator op args → 2 ≤ args.length →
      ∀ {ℓ : Level} {kind}, kind ∈ ℓ.operators → Word.Lexical (kind, op) →
        Derivable ℓ f.convertedTree) : Convertible f := by
  have hoperand := operandTree_of_needsParentheses hf
  refine ⟨h, hchain, ?_, ?_⟩
  · rw [hoperand]
    exact h.paren.loosen (by decide)
  · rw [hoperand]
    exact (h.paren.loosen (by decide)).raise

/-- A sign in front of an operand. -/
theorem sign {op sign : String} {kind : Token.Kind} {f : Formula} (hf : Convertible f)
    (hkind : kind ∈ prefixKinds) (hsign : Word.Lexical (kind, sign))
    (htree : (operator op [f]).convertedTree = .operator sign [f.operandTree]) :
    Convertible (.operator op [f]) := by
  have hoperand : (operator op [f]).operandTree = .operator sign [f.operandTree] := by
    rw [operandTree_of_not_needsParentheses rfl, htree]
  refine ⟨?_, ?_, ?_, ?_⟩
  · rw [htree]
    exact (Derivable.prefixed hkind hsign hf.operand).loosen (by decide)
  · rintro op args heq hlength
    obtain ⟨rfl, rfl⟩ : _ = op ∧ _ = args := by simpa using heq
    simp at hlength
  · rw [hoperand]
    exact .prefixed hkind hsign hf.operand
  · intro y hy
    rw [hoperand, SyntaxTree.raise]
    exact .prefixed hkind hsign (hf.base hy)

/-- A function that is no chain, put in parentheses as an operand. -/
theorem of_function {name : String} {args : List Formula}
    (hf : (function name args).needsParentheses)
    (h : Derivable .assignment (function name args).convertedTree) :
    Convertible (.function name args) :=
  of_grouped hf h (fun heq => by cases heq)

end Convertible

/-- An operator of a level stands between operands. -/
theorem derivable_binary {ℓ : Level} {kind : Token.Kind} {op : String} {x y : SyntaxTree}
    (hkind : kind ∈ ℓ.operators) (hop : Word.Lexical (kind, op)) (hx : Derivable ℓ x)
    (hy : Derivable .prefixed y) : Derivable ℓ (SyntaxTree.binary op x y) := by
  rw [SyntaxTree.binary, if_neg (ne_power hkind hop)]
  exact .infixed hkind hop hx (hy.loosen (Level.rank_next_le_of_mem_operators hkind))

theorem convertible_operator {ℓ : Level} {kind : Token.Kind} {op : String} {args : List Formula}
    (hkind : kind ∈ ℓ.operators) (hop : Word.Lexical (kind, op)) (hlength : 2 ≤ args.length)
    (h : ∀ {ℓ : Level} {kind}, kind ∈ ℓ.operators → Word.Lexical (kind, op) →
      Derivable ℓ (operator op args).convertedTree) : Convertible (.operator op args) := by
  refine .of_grouped (by simpa [needsParentheses] using hlength) ?_ ?_
  · exact (h hkind hop).loosen (Nat.zero_le _)
  · intro op' args' heq _
    obtain ⟨rfl, rfl⟩ : op = op' ∧ args = args' := by simpa using heq
    exact h

/-! ## Functions -/

theorem derivable_call {kind : Token.Kind} {name : String} {args : List Formula}
    (hkind : kind ∈ callableKinds) (hname : Word.Lexical (kind, name))
    (h : ∀ f ∈ args, Convertible f) : Derivable .primary (.call name (convertedTrees args)) := by
  rw [convertedTrees_eq_map]
  refine .call hkind hname ?_
  rw [List.forall_mem_map]
  exact fun f hf => (h f hf).whole

/-- A call with a number on the right of it. -/
theorem derivable_adjusted {ℓ : Level} {kind : Token.Kind} {name op number : String}
    {args : List Formula} (hname : Word.Lexical (.name, name)) (hkind : kind ∈ ℓ.operators)
    (hop : Word.Lexical (kind, op)) (hnumber : Word.Lexical (.number, number))
    (h : ∀ f ∈ args, Convertible f) :
    Derivable .assignment
      (.operator op [.call name (convertedTrees args), .constant .number number]) := by
  have hrank := Level.rank_next_le_of_mem_operators hkind
  have hcall := derivable_call (by decide) hname h
  have hright : Derivable ℓ.next (.constant .number number) :=
    (Derivable.number hnumber).loosen (Nat.le_trans hrank (by decide))
  have hleft := hcall.loosen (Nat.le_trans ℓ.rank_le_rank_next (Nat.le_trans hrank (by decide)))
  exact (Derivable.infixed hkind hop hleft hright).loosen (Nat.zero_le _)

theorem convertible_unaryMinus {f : Formula} (hf : Convertible f) (fs : List Formula) :
    Convertible (.function "unaryMinus" (f :: fs)) := by
  refine .of_function rfl ?_
  have hminus := Derivable.prefixed (by decide) (by decide : Word.Lexical (.minus, "-")) hf.operand
  exact hminus.loosen (by decide)

theorem convertible_join {args : List Formula} (h : ∀ f ∈ args, Convertible f) :
    Convertible (.function "join" args) := by
  have hlist : ∀ {fs : List Formula}, (∀ f ∈ fs, Convertible f) →
      Derivable .assignment (.array (convertedTrees fs)) := by
    intro fs hfs
    rw [convertedTrees_eq_map]
    refine (Derivable.array ?_).loosen (by decide)
    rw [List.forall_mem_map]
    exact fun f hf => (hfs f hf).whole
  have hjoin : ∀ {xs : List SyntaxTree}, (∀ x ∈ xs, Derivable .assignment x) →
      Derivable .postfixed (.call "join" xs) := by
    intro xs hxs
    exact (Derivable.call (by decide : Token.Kind.name ∈ callableKinds) (by decide) hxs).loosen
      (by decide)
  refine .of_postfixed rfl ?_
  cases args with
  | nil => exact hjoin (by simpa [convertedTrees] using @hlist [])
  | cons f fs =>
      rw [List.forall_mem_cons] at h
      exact @hjoin [_, _] (by simpa using ⟨hlist h.2, h.1.whole⟩)

theorem convertible_special {special : Special} {args : List Formula}
    (hspecial : special ≠ .unaryMinus) (h : ∀ f ∈ args, Convertible f) :
    Convertible (.function special.name args) := by
  cases special with
  | unaryMinus => exact absurd rfl hspecial
  | unaryPlus =>
      refine .of_function rfl ?_
      exact (derivable_call (by decide) (by decide : Word.Lexical (.name, "toNumber")) h).loosen
        (by decide)
  | day =>
      exact .of_function rfl (@derivable_adjusted .product .mod "day" "%" "7" args (by decide)
        (by decide) (by decide) (by decide) h)
  | month =>
      exact .of_function rfl (@derivable_adjusted .sum .minus "month" "-" "1" args (by decide)
        (by decide) (by decide) (by decide) h)
  | join => exact convertible_join h

theorem convertible_binaryFunction {name op : String} {f g : Formula}
    (htreatment : treatment name = .operator op) (hf : Convertible f) (hg : Convertible g) :
    Convertible (.function name [f, g]) := by
  have hneeds : (function name [f, g]).needsParentheses := by
    simp [needsParentheses, htreatment]
  have htree : (function name [f, g]).convertedTree =
      SyntaxTree.binary op f.operandTree g.operandTree := by
    simp only [convertedTree, functionTree, htreatment, zipWith_grouped]
    rfl
  refine .of_function hneeds ?_
  rw [htree]
  rcases lexical_operator htreatment with rfl | ⟨ℓ, kind, hkind, hop⟩
  · exact (hf.base hg.operand).loosen (by decide)
  · have hrank := Level.rank_next_le_of_mem_operators hkind
    have hleft := hf.operand.loosen (Nat.le_trans ℓ.rank_le_rank_next hrank)
    exact (derivable_binary hkind hop hleft hg.operand).loosen (Nat.zero_le _)

/-- The arguments that are kept, and one of them for `unaryMinus`, make a call convertible. -/
theorem convertible_function {kind : Token.Kind} {name : String} {args : List Formula}
    (hkind : kind ∈ callableKinds) (hname : Word.Lexical (kind, name))
    (hcount : ∀ op, treatment name = .operator op → args.length = 2)
    (hminus : name = "unaryMinus" → ∃ f fs, args = f :: fs ∧ Convertible f)
    (h : name ≠ "unaryMinus" → ∀ f ∈ args, Convertible f) : Convertible (.function name args) := by
  by_cases hne : name = "unaryMinus"
  · obtain ⟨f, fs, rfl, hf⟩ := hminus hne
    rw [hne]
    exact convertible_unaryMinus hf fs
  have hargs := h hne
  cases htreatment : treatment name with
  | renamed renamed =>
      refine .of_postfixed (by simp [needsParentheses, htreatment]) ?_
      have hcall := derivable_call (by decide) (lexical_renamed htreatment) hargs
      simpa [convertedTree, functionTree, htreatment] using hcall.loosen (by decide)
  | operator op =>
      obtain ⟨f, g, rfl⟩ := eq_pair_of_length (hcount op htreatment)
      exact convertible_binaryFunction htreatment (hargs f (by simp)) (hargs g (by simp))
  | special special =>
      obtain rfl := name_of_special htreatment
      refine convertible_special ?_ hargs
      rintro rfl
      exact hne rfl
  | unchanged =>
      refine .of_postfixed (by simp [needsParentheses, htreatment]) ?_
      have hcall := derivable_call hkind hname hargs
      simpa [convertedTree, functionTree, htreatment] using hcall.loosen (by decide)

/-! ## Formulas -/

theorem convertible_prefixed {kind : Token.Kind} {op : String} {f : Formula}
    (hkind : kind ∈ prefixKinds) (hop : Word.Lexical (kind, op)) (hf : Convertible f) :
    Convertible (.operator op [f]) := by
  rcases prefixed_spelling hkind hop with
    ⟨rfl, rfl⟩ | ⟨rfl, rfl⟩ | ⟨rfl, rfl⟩ | ⟨rfl, rfl⟩
  · exact hf.sign hkind hop rfl
  · refine .of_postfixed rfl ?_
    have hcall := @derivable_call _ _ [f] (by decide) (by decide : Word.Lexical (.name, "toNumber"))
      (by simpa using hf)
    exact hcall.loosen (by decide)
  · exact hf.sign (by decide) (by decide : Word.Lexical (.bang, "!")) rfl
  · exact hf.sign hkind hop rfl

theorem convertible_literal {kind : Token.Kind} {text : String} (h : Word.Lexical (kind, text))
    (hkind : kind ∈ [.number, .string]) : Convertible (.literal text) := by
  refine .of_postfixed rfl ?_
  simp only [List.mem_cons, List.not_mem_nil, or_false] at hkind
  rcases hkind with rfl | rfl
  · simpa [convertedTree, h.ofText_eq] using (Derivable.number h).loosen (by decide)
  · simpa [convertedTree, h.ofText_eq] using (Derivable.string h).loosen (by decide)

theorem convertible_symbol {name : String} (h : name ∈ constants) : Convertible (.symbol name) := by
  have hlexical : ∀ name ∈ constants, Word.Lexical (.name, name) := by
    decide
  refine .of_postfixed rfl ?_
  rw [convertedTree]
  split
  · exact (@derivable_call _ _ [] (by decide) (hlexical name h) (by simp)).loosen (by decide)
  · exact (Derivable.symbol (hlexical name h)).loosen (by decide)

/-- The converted text of a complete tree without issues is derived from the grammar. -/
theorem Normalizes.convertible [Host] {declared : Property.Declared} {t : SyntaxTree} {f : Formula}
    (h : Normalizes declared t f) (hcomplete : t.Complete) : Convertible f := by
  induction h with
  | number h => exact convertible_literal h (by simp)
  | string h => exact convertible_literal (StringLiteral.lexical_requote h) (by simp)
  | symbol hname => exact convertible_symbol hname
  | property hresolve =>
      refine .of_postfixed rfl ?_
      exact Property.derivable_templateTree _ (Property.derivable_referenceTree _)
  | @function kind name args hkind hname _ hcount _ ih =>
      obtain ⟨hself, hkept⟩ := SyntaxTree.complete_iff.mp hcomplete
      refine convertible_function hkind hname (by simpa using hcount) ?_ ?_
      · rintro rfl
        cases args with
        | nil => exact absurd rfl hself
        | cons arg args =>
            exact ⟨_, _, rfl, ih arg (by simp) (hkept arg.1 (by simp [SyntaxTree.keptChildren]))⟩
      · intro hname
        rw [List.forall_mem_map]
        intro arg harg
        refine ih arg harg (hkept arg.1 ?_)
        simpa [SyntaxTree.keptChildren, hname] using ⟨arg.2, harg⟩
  | prefixed hkind hop _ ih => exact convertible_prefixed hkind hop (ih (by simpa using hcomplete))
  | infixed hkind hop _ _ ihx ihy =>
      simp only [SyntaxTree.complete_operator, List.forall_mem_cons] at hcomplete
      refine convertible_operator hkind hop (by simp) fun {ℓ kind} hkind hop => ?_
      have hleft := (ihx hcomplete.1).operand.loosen
        (Nat.le_trans ℓ.rank_le_rank_next (Level.rank_next_le_of_mem_operators hkind))
      exact derivable_binary hkind hop hleft (ihy hcomplete.2.1).operand
  | continued hkind hop _ hlength _ ihx ihy =>
      simp only [SyntaxTree.complete_operator, List.forall_mem_cons] at hcomplete
      refine convertible_operator hkind hop (by simp; omega) fun hkind hop => ?_
      rw [convertedTree_concat _ hlength]
      exact derivable_binary hkind hop ((ihx hcomplete.1).chain rfl hlength hkind hop)
        (ihy hcomplete.2.1).operand
  | power _ _ ihx ihy =>
      simp only [SyntaxTree.complete_operator, List.forall_mem_cons] at hcomplete
      have hpower := (ihx hcomplete.1).base (ihy hcomplete.2.1).operand
      refine .of_grouped rfl (hpower.loosen (by decide)) fun heq _ _ _ hkind hop => ?_
      -- no level has powers among its operators
      obtain ⟨rfl, _⟩ := Formula.operator.inj heq
      exact absurd rfl (ne_power hkind hop)
  | paren _ ih => exact ih (by simpa using hcomplete)
  | conditional _ _ _ ihc ihx ihy =>
      simp only [SyntaxTree.complete_conditional] at hcomplete
      refine .of_grouped rfl ?_ fun heq => by cases heq
      have hcall := Derivable.call (by decide) (by decide : Word.Lexical (.name, "if"))
        (List.forall_mem_cons.mpr ⟨(ihc hcomplete.1).operand.loosen (by decide),
          List.forall_mem_cons.mpr ⟨(ihx hcomplete.2.1).operand.loosen (by decide),
            List.forall_mem_singleton.mpr ((ihy hcomplete.2.2).operand.loosen (by decide))⟩⟩)
      exact hcall.loosen (by decide)

/-- The converted text of a complete tree without issues parses, to the tree that it is meant to
have. -/
theorem Normalizes.parse_convertedText [Host] {declared : Property.Declared} {t : SyntaxTree}
    {f : Formula} (h : Normalizes declared t f) (hcomplete : t.Complete) :
    SyntaxTree.parse f.convertedText = .ok f.convertedTree :=
  h.prints.parse (h.convertible hcomplete).whole

end Formula

/-- A conversion of a text that is not blank has no issues only if the text parses to a tree that
becomes a formula without issues, and then it returns the converted text of that formula. -/
theorem Conversion.convert_normalizes [Host] {declared : Property.Declared} {s : String}
    (hs : Text.isAllBlank s = false) (h : (convert declared s).issues = []) :
    ∃ tree f, SyntaxTree.parse s = .ok tree ∧ Formula.Normalizes declared tree f ∧
      (convert declared s).formula = f.convertedText ∧
      (convert declared s).references = addNames [] f.propertyNames := by
  have houtcome := convert_outcome declared s
  generalize Formula.parse declared s = read, convert declared s = result at houtcome h ⊢
  cases houtcome with
  | blank hblank =>
      rw [hs] at hblank
      cases hblank
  | unread | deep => cases h
  | converted _ htree => exact ⟨_, _, htree, Formula.normalizes_of_parse htree h, rfl, rfl⟩

end FormulaUpgrade
