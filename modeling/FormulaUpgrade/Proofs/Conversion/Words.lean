import FormulaUpgrade.Proofs.Conversion.Tree
import FormulaUpgrade.Proofs.Formula.Normalizes
import FormulaUpgrade.Proofs.StringLiteral
import FormulaUpgrade.Proofs.SyntaxTree.Derivable
import FormulaUpgrade.Proofs.SyntaxTree.Text

/-! # The words of a converted text

The converted text of a formula has the words of its tree, also where the tree is not one that the
grammar derives.
-/

namespace FormulaUpgrade

open Token Lexer Grammar

/-- A text that reads as the words of a tree, in front of whatever closes it. -/
structure Prints (text : String) (t : SyntaxTree) : Prop where
  reads : ReadsIf Closes True text.toList t.words
  starts : Word.StartsOperand text.toList

namespace Prints

variable {text a b : String} {t x y : SyntaxTree}

theorem paren (h : Prints text t) : Prints ("(" ++ text ++ ")") (.paren t) := by
  refine ⟨?_, by simp⟩
  have hreads := (h.reads.close (by decide : Word.Lexical (.rparen, ")"))
    fun tail => closes_cons (by decide) tail).cons (by decide : Word.Lexical (.lparen, "("))
      fun _ _ => trivial
  simpa [SyntaxTree.words] using hreads.mono fun _ _ => trivial

/-- Two operands with an operator and blanks between them. -/
theorem binary {kind : Kind} {op : String} (hop : Word.Lexical (kind, op)) (hx : Prints a x)
    (hy : Prints b y) : Prints (a ++ (" " ++ op ++ " ") ++ b) (SyntaxTree.binary op x y) := by
  have htext : (a ++ (" " ++ op ++ " ") ++ b).toList =
      a.toList ++ ' ' :: (op.toList ++ ' ' :: b.toList) := by
    simp
  refine ⟨?_, ?_⟩
  · have hright := (hy.reads.space.cons hop fun _ _ => (closes_cons (by decide) _).endsAt _).space
    have hreads := hx.reads.append hright fun _ _ => closes_cons (by decide) _
    rw [htext, SyntaxTree.words_binaryTree, hop.ofText_eq]
    exact hreads.congr (by simp)
  · rw [htext]
    exact hx.starts.append _

/-- A sign in front of an operand. -/
theorem sign {op : String} (hop : op ∈ ["-", "!"]) (hx : Prints a x) :
    Prints (op ++ a) (.operator op [x]) := by
  have hsign : ∀ {kind : Kind} {op : String}, Word.Lexical (kind, op) →
      (∀ tail, Word.EndsAt (kind, op) (a.toList ++ tail)) →
      ReadsIf Closes True (op ++ a).toList (SyntaxTree.operator op [x]).words := by
    intro kind op hword hends
    rw [String.toList_append, SyntaxTree.words, hword.ofText_eq]
    exact hx.reads.cons hword fun tail _ => hends tail
  simp only [List.mem_cons, List.not_mem_nil, or_false] at hop
  rcases hop with rfl | rfl
  · exact ⟨hsign (by decide : Word.Lexical (.minus, "-")) fun _ => trivial, by simp⟩
  · refine ⟨hsign (by decide : Word.Lexical (.bang, "!")) fun tail => ?_, by simp⟩
    exact (hx.starts.append tail).stops

/-- A single word. -/
theorem word {kind : Kind} (h : Word.Lexical (kind, text)) (hwords : t.words = [(kind, text)])
    (hassign : kind ≠ .assign) (heq : kind ≠ .eq) : Prints text t := by
  refine ⟨?_, h.startsOperand hassign heq⟩
  rw [hwords]
  exact (readsIf_word h).mono fun tail htail => htail.endsAt _

/-- A call of any word that may be called. -/
theorem call {α : Type} {kind : Kind} {name : String} (hkind : kind ∈ callableKinds)
    (hname : Word.Lexical (kind, name)) (text : α → String) (tree : α → SyntaxTree)
    {parts : List α} (h : ∀ part ∈ parts, Prints (text part) (tree part)) :
    Prints (Conversion.callText name (parts.map text)) (.call name (parts.map tree)) := by
  have htext : (Conversion.callText name (parts.map text)).toList =
      name.toList ++
        ("(".toList ++ ((", ".intercalate (parts.map text)).toList ++ ")".toList)) := by
    simp [Conversion.callText, SyntaxTree.commaJoined]
  refine ⟨?_, ?_⟩
  · have hargs := readsIf_bracketed .lparen .rparen "(" ")" (by decide) (fun _ => trivial)
      (by decide) (fun tail => closes_cons (by decide) tail) text (fun part => (tree part).words)
      (fun _ => True) fun part hpart => (h part hpart).reads
    have hcall := hargs.cons hname fun tail _ => endsAt_lparen hkind name _
    rw [htext, SyntaxTree.words, hname.ofText_eq, SyntaxTree.wordsOfAll_eq_map, List.map_map]
    exact (hcall.mono fun _ _ => trivial).congr (by simp)
  · rw [htext]
    refine (Word.Lexical.startsOperand hname ?_ ?_).append _
    · rintro rfl
      exact absurd hkind (by decide)
    · rintro rfl
      exact absurd hkind (by decide)

theorem array {α : Type} (text : α → String) (tree : α → SyntaxTree) {parts : List α}
    (h : ∀ part ∈ parts, Prints (text part) (tree part)) :
    Prints ("[" ++ ", ".intercalate (parts.map text) ++ "]") (.array (parts.map tree)) := by
  have hreads := readsIf_bracketed .lbracket .rbracket "[" "]" (by decide) (fun _ => trivial)
    (by decide) (fun tail => closes_cons (by decide) tail) text (fun part => (tree part).words)
    (fun _ => True) fun part hpart => (h part hpart).reads
  refine ⟨?_, by simp⟩
  rw [SyntaxTree.words, SyntaxTree.wordsOfAll_eq_map, List.map_map, String.toList_append,
    String.toList_append, List.append_assoc]
  exact (hreads.mono fun _ _ => trivial).congr (by simp)

/-- The canonical text of a derivable tree. -/
theorem of_derivable {ℓ : Level} (h : Derivable ℓ t) (hsep : t.Separable) : Prints t.text t := by
  obtain ⟨ws, hderives, hws⟩ := h
  refine ⟨?_, hderives.text_startsOperand hws⟩
  rw [hderives.words_eq hws]
  exact (hderives.readsBack hws).closed.congr (by simpa using hsep)

theorem words? (h : Prints text t) : Lexer.words? text.toList = some t.words := by
  have hread := (h.reads [] [] closes_nil).mpr ⟨trivial, words?_nil⟩
  simpa using hread

end Prints

/-! ## References -/

namespace Property

theorem derivable_referenceTree (name : String) : Derivable .primary (referenceTree name) := by
  refine .call (by decide : Kind.name ∈ callableKinds) (by decide) ?_
  simpa using (Derivable.string (Json.lexical_quote name)).loosen (by decide)

theorem derivable_templateTree (kind : Kind) {x : SyntaxTree} (hx : Derivable .primary x) :
    Derivable .postfixed (kind.templateTree x) := by
  have hx' : Derivable .assignment x := hx.loosen (by decide)
  have hcall : ∀ {name : String} {xs : List SyntaxTree}, Word.Lexical (.name, name) →
      (∀ x ∈ xs, Derivable .assignment x) → Derivable .postfixed (.call name xs) :=
    fun hname h =>
      (Derivable.call (by decide : Kind.name ∈ callableKinds) hname h).loosen (by decide)
  have hstring : ∀ {text : String}, Word.Lexical (.string, text) →
      Derivable .assignment (.constant .string text) :=
    fun h => (Derivable.string h).loosen (by decide)
  have hmap : Derivable .assignment (.call "map" [.call "format" [.symbol "current"]]) := by
    refine (hcall (by decide) ?_).loosen (by decide)
    have hformat : Derivable .postfixed (.call "format" [.symbol "current"]) :=
      hcall (by decide) (by simpa using (Derivable.symbol (by decide)).loosen (by decide))
    simpa using hformat.loosen (by decide)
  cases kind with
  | person | relation =>
      refine hcall (by decide) ?_
      simpa using ⟨hx', hmap, hstring (by decide)⟩
  | rollup =>
      refine hcall (by decide) ?_
      simpa using ⟨hx', hmap, hstring (by decide)⟩
  | file | multiSelect =>
      refine hcall (by decide) ?_
      simpa using ⟨hx', hstring (by decide)⟩
  | id =>
      have hsplit := (hx.loosen (by decide)).method (by decide : Word.Lexical (.name, "split"))
        [.constant .string "'-'"] (by simpa using hstring (by decide))
      have hlast := hsplit.method (by decide : Word.Lexical (.name, "last")) [] (by simp)
      exact hlast.method (by decide : Word.Lexical (.name, "toNumber")) [] (by simp)
  | other => exact hx.loosen (by decide)

theorem prints_convertedReference (name : String) (kind : Kind) :
    Prints (convertedReference name kind) (kind.templateTree (referenceTree name)) := by
  have hsep : (kind.templateTree (referenceTree name)).Separable := by
    cases kind <;> simp [Kind.templateTree, referenceTree, SyntaxTree.isWholeNumber]
  have h := Prints.of_derivable (derivable_templateTree kind (derivable_referenceTree name)) hsep
  rwa [text_templateTree, text_referenceTree] at h

end Property

/-! ## Treatments -/

namespace Conversion

theorem mem_of_lookup {α β : Type} [BEq α] [LawfulBEq α] {a : α} {b : β} {table : List (α × β)}
    (h : table.lookup a = some b) : (a, b) ∈ table := by
  obtain ⟨before, after, rfl, _⟩ := List.lookup_eq_some_iff.mp h
  simp

theorem eq_pair_of_length {α : Type} {xs : List α} (h : xs.length = 2) : ∃ x y, xs = [x, y] := by
  cases xs with
  | nil => cases h
  | cons x xs =>
      obtain ⟨y, rfl⟩ := List.length_eq_one_iff.mp (Nat.succ.inj h)
      exact ⟨x, y, rfl⟩

theorem mem_renamedFunctions {name renamed : String} (h : treatment name = .renamed renamed) :
    (name, renamed) ∈ renamedFunctions := by
  unfold treatment at h
  split at h
  next hlookup =>
    obtain rfl : _ = renamed := by simpa using h
    exact mem_of_lookup hlookup
  next =>
    split at h
    · cases h
    · split at h <;> cases h

theorem mem_operatorFunctions {name op : String} (h : treatment name = .operator op) :
    (name, op) ∈ operatorFunctions := by
  unfold treatment at h
  split at h
  · cases h
  next =>
    split at h
    next hlookup =>
      obtain rfl : _ = op := by simpa using h
      exact mem_of_lookup hlookup
    next => split at h <;> cases h

theorem name_of_special {name : String} {special : Special}
    (h : treatment name = .special special) : special.name = name := by
  unfold treatment at h
  split at h
  · cases h
  · split at h
    · cases h
    · split at h
      next hfind =>
        obtain rfl : _ = special := by simpa using h
        simpa using List.find?_some hfind
      next => cases h

theorem lexical_renamed {name renamed : String} (h : treatment name = .renamed renamed) :
    Word.Lexical (.name, renamed) := by
  have hall : ∀ entry ∈ renamedFunctions, Word.Lexical (.name, entry.2) := by
    decide
  exact hall (name, renamed) (mem_renamedFunctions h)

/-- The functions of two arguments become powers, or operators of a level. -/
theorem lexical_operator {name op : String} (h : treatment name = .operator op) :
    op = "^" ∨ ∃ ℓ : Level, ∃ kind ∈ ℓ.operators, Word.Lexical (kind, op) := by
  have hall : ∀ entry ∈ operatorFunctions, entry.2 = "^" ∨
      ∃ ℓ ∈ [Level.comparison, .sum, .product], ∃ kind ∈ ℓ.operators,
        Word.Lexical (kind, entry.2) := by
    decide
  rcases hall _ (mem_operatorFunctions h) with hpow | ⟨ℓ, _, hkind⟩
  · exact .inl hpow
  · exact .inr ⟨ℓ, hkind⟩

end Conversion

/-! ## Formulas -/

namespace Formula

open Conversion

theorem prints_operand {f : Formula} (h : Prints f.convertedText f.convertedTree) :
    Prints f.operandText f.operandTree := by
  unfold operandText operandTree wrap grouped
  split
  · exact h.paren
  · exact h

/-- Two operands become a text and a tree of an operator. -/
theorem prints_binary {op : String} {f g : Formula} {kind : Token.Kind}
    (hop : Word.Lexical (kind, op)) (hf : Prints f.convertedText f.convertedTree)
    (hg : Prints g.convertedText g.convertedTree) :
    Prints ((" " ++ op ++ " ").intercalate [f.operandText, g.operandText])
      (SyntaxTree.chained op [f.operandTree, g.operandTree]) := by
  have h := (prints_operand hf).binary hop (prints_operand hg)
  simpa [String.intercalate_cons_cons] using h

/-- A call of the arguments as they are. -/
theorem prints_call {kind : Token.Kind} {name : String} {args : List Formula}
    (hkind : kind ∈ callableKinds) (hname : Word.Lexical (kind, name))
    (h : ∀ f ∈ args, Prints f.convertedText f.convertedTree) :
    Prints (callText name (convertedTexts args)) (.call name (convertedTrees args)) := by
  rw [convertedTexts_eq_map, convertedTrees_eq_map]
  exact .call hkind hname _ _ h

/-- A call with a number on the right of it. -/
theorem prints_adjusted {name number op : String} {kind : Token.Kind} {args : List Formula}
    (hname : Word.Lexical (.name, name)) (hop : Word.Lexical (kind, op)) (hpow : op ≠ "^")
    (hnumber : Word.Lexical (.number, number))
    (h : ∀ f ∈ args, Prints f.convertedText f.convertedTree) :
    Prints (callText name (convertedTexts args) ++ (" " ++ op ++ " ") ++ number)
      (.operator op [.call name (convertedTrees args), .constant .number number]) := by
  have hcall := prints_call (by decide) hname h
  have hright : Prints number (.constant .number number) :=
    .word hnumber rfl (by simp) (by simp)
  simpa [SyntaxTree.binary, hpow] using hcall.binary hop hright

theorem prints_special {special : Special} {args : List Formula}
    (h : ∀ f ∈ args, Prints f.convertedText f.convertedTree) :
    Prints (special.text args (convertedTexts args))
      (specialTree special args (convertedTrees args)) := by
  cases special with
  | unaryMinus =>
      cases args with
      | nil => exact .word (by decide : Word.Lexical (.minus, "-")) rfl (by simp) (by simp)
      | cons f fs => exact .sign (by simp) (prints_operand (h f (by simp)))
  | unaryPlus => exact prints_call (by decide) (by decide : Word.Lexical (.name, "toNumber")) h
  | day =>
      have hday := @prints_adjusted "day" "7" "%" .mod args (by decide) (by decide) (by decide)
        (by decide) h
      simpa [Special.text, specialTree, String.append_assoc] using hday
  | month =>
      have hmonth := @prints_adjusted "month" "1" "-" .minus args (by decide) (by decide)
        (by decide) (by decide) h
      simpa [Special.text, specialTree, String.append_assoc] using hmonth
  | join =>
      -- the list of the values, and the separator if there is one
      have hlist : ∀ {fs : List Formula}, (∀ f ∈ fs, Prints f.convertedText f.convertedTree) →
          Prints ("[" ++ ", ".intercalate (convertedTexts fs) ++ "]")
            (.array (convertedTrees fs)) := by
        intro fs hfs
        rw [convertedTexts_eq_map, convertedTrees_eq_map]
        exact .array _ _ hfs
      have hjoin : ∀ {parts : List (String × SyntaxTree)}, (∀ part ∈ parts, Prints part.1 part.2) →
          Prints (callText "join" (parts.map Prod.fst)) (.call "join" (parts.map Prod.snd)) :=
        .call (by decide) (by decide : Word.Lexical (.name, "join")) _ _
      cases args with
      | nil =>
          have hempty : Prints "[]" (.array []) := by
            simpa [convertedTexts, convertedTrees] using @hlist []
          exact @hjoin [("[]", .array [])] (by simpa using hempty)
      | cons f fs =>
          rw [List.forall_mem_cons] at h
          have hparts := @hjoin [("[" ++ ", ".intercalate (convertedTexts fs) ++ "]",
            .array (convertedTrees fs)), (f.convertedText, f.convertedTree)]
            (by simpa using ⟨@hlist fs h.2, h.1⟩)
          have htext : ("join([" ++ SyntaxTree.commaJoined (convertedTexts fs) ++ "], " ++
              f.convertedText ++ ")") = callText "join" ["[" ++ ", ".intercalate (convertedTexts fs) ++ "]",
                f.convertedText] := by
            rw [← String.toList_inj]
            simp [callText, SyntaxTree.commaJoined, String.intercalate_cons_cons]
          rw [convertedTexts, convertedTrees, Special.text, htext]
          exact hparts

theorem prints_function {kind : Token.Kind} {name : String} {args : List Formula}
    (hkind : kind ∈ callableKinds) (hname : Word.Lexical (kind, name))
    (hcount : ∀ op, treatment name = .operator op → args.length = 2)
    (h : ∀ f ∈ args, Prints f.convertedText f.convertedTree) :
    Prints (function name args).convertedText (function name args).convertedTree := by
  rw [convertedText, convertedTree, functionText, functionTree]
  cases htreatment : treatment name with
  | renamed renamed => exact prints_call (by decide) (lexical_renamed htreatment) h
  | operator op =>
      obtain ⟨f, g, rfl⟩ := eq_pair_of_length (hcount op htreatment)
      obtain ⟨opKind, hop⟩ : ∃ opKind, Word.Lexical (opKind, op) := by
        rcases lexical_operator htreatment with rfl | ⟨_, opKind, _, hop⟩
        · exact ⟨.pow, by decide⟩
        · exact ⟨opKind, hop⟩
      exact prints_binary hop (h f (by simp)) (h g (by simp))
  | special special => exact prints_special h
  | unchanged => exact prints_call hkind hname h

theorem prints_prefixed {kind : Token.Kind} {op : String} {f : Formula}
    (hkind : kind ∈ prefixKinds) (hop : Word.Lexical (kind, op))
    (h : Prints f.convertedText f.convertedTree) :
    Prints (operator op [f]).convertedText (operator op [f]).convertedTree := by
  have hoperand := prints_operand h
  rcases prefixed_spelling hkind hop with
    ⟨rfl, rfl⟩ | ⟨rfl, rfl⟩ | ⟨rfl, rfl⟩ | ⟨rfl, rfl⟩
  · exact .sign (by simp) hoperand
  · exact @prints_call _ _ [f] (by decide) (by decide : Word.Lexical (.name, "toNumber"))
      (by simpa using h)
  · exact .sign (by simp) hoperand
  · exact .sign (by simp) hoperand

theorem prints_symbol {name : String} (h : name ∈ constants) :
    Prints (symbol name).convertedText (symbol name).convertedTree := by
  have hlexical : ∀ name ∈ constants, Word.Lexical (.name, name) := by
    decide
  rw [convertedText, convertedTree]
  split
  · exact @prints_call _ _ [] (by decide) (hlexical name h) (by simp)
  · exact .word (hlexical name h) rfl (by simp) (by simp)

theorem prints_literal {kind : Token.Kind} {text : String} (h : Word.Lexical (kind, text))
    (hkind : kind ∈ [.number, .string]) :
    Prints (literal text).convertedText (literal text).convertedTree := by
  have hwords : (literal text).convertedTree.words = [(kind, text)] := by
    simp only [List.mem_cons, List.not_mem_nil, or_false] at hkind
    rcases hkind with rfl | rfl <;> simp [convertedTree, h.ofText_eq, SyntaxTree.words]
  refine .word h hwords ?_ ?_
  · rintro rfl
    exact absurd hkind (by decide)
  · rintro rfl
    exact absurd hkind (by decide)

/-- The converted text of a formula without issues has the words of its tree. -/
theorem Normalizes.prints [Host] {declared : Property.Declared} {t : SyntaxTree} {f : Formula}
    (h : Normalizes declared t f) : Prints f.convertedText f.convertedTree := by
  induction h with
  | number h => exact prints_literal h (by simp)
  | string h => exact prints_literal (StringLiteral.lexical_requote h) (by simp)
  | symbol hname => exact prints_symbol hname
  | property hresolve => exact Property.prints_convertedReference _ _
  | function hkind hname _ hcount _ ih =>
      exact prints_function hkind hname (by simpa using hcount) (List.forall_mem_map.mpr ih)
  | prefixed hkind hop _ ih => exact prints_prefixed hkind hop ih
  | infixed _ hop _ _ ihx ihy => exact prints_binary hop ihx ihy
  | continued _ hop _ hlength _ ihx ihy =>
      rw [convertedText_concat _ hlength, convertedTree_concat _ hlength]
      exact ihx.binary hop (prints_operand ihy)
  | power _ _ ihx ihy => exact prints_binary (by decide : Word.Lexical (.pow, "^")) ihx ihy
  | paren _ ih => exact ih
  | conditional _ _ _ ihc ihx ihy =>
      refine @Prints.call _ .name "if" (by decide) (by decide) operandText operandTree
        [_, _, _] ?_
      simpa using ⟨prints_operand ihc, prints_operand ihx, prints_operand ihy⟩

end Formula

end FormulaUpgrade
