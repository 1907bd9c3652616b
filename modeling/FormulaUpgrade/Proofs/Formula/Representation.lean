import FormulaUpgrade.Proofs.Conversion.Upgrade
import FormulaUpgrade.Proofs.Formula.Reading

/-! # What every formula of a text looks like

Normalizing leaves formulas of a restricted shape: no parentheses, symbols and numbers of arguments
that belong together, and no conditional with an error for a term. If no error was made, then only the
grouping of chains has changed: an operator of many arguments stands for operators of two arguments
that are nested to the left.
-/

namespace FormulaUpgrade

open Token Grammar Property

namespace Formula

/-! ## Nodes -/

/-- The symbols of operators with one argument. -/
def signs : List String :=
  ["-", "+", "not", "!"]

/-- The symbols of operators that form chains. -/
def chainable : List String :=
  ["or", "xor", "and", "==", "!=", "<", "<=", ">", ">=", "+", "-", "*", "/", "%", "mod"]

/-- A node as normalizing leaves it, whatever is below its terms. -/
def ValidNode : Formula → Prop
  | .missing | .parentheses _ => False
  | .literal text =>
    Lexer.scan text = ⟨[⟨.number, text, 0⟩], none⟩ ∨
      Lexer.scan text = ⟨[⟨.string, text, 0⟩], none⟩ ∧ text.toList.head? = some '"'
  | .function name _ => name ≠ "prop"
  | .property .. | .error _ => True
  | .operator op args =>
    args.length = 1 ∧ op ∈ signs ∨ 2 ≤ args.length ∧ op ∈ chainable ∨ args.length = 2 ∧ op = "^"
  | .conditional condition ifTrue ifFalse =>
    condition.isError = false ∧ ifTrue.isError = false ∧ ifFalse.isError = false
  | .symbol name => name ∈ ["e", "pi", "true", "false"]

/-- A formula whose nodes are all as normalizing leaves them. -/
def Valid (f : Formula) : Prop :=
  ∀ g ∈ f.preorder, g.ValidNode

theorem valid_iff {f : Formula} : f.Valid ↔ f.ValidNode ∧ ∀ x ∈ f.parts, x.Valid := by
  rw [Valid, preorder_eq]
  simp only [List.forall_mem_cons, List.forall_mem_flatMap]
  rfl

theorem valid_error (message : String) : (error message).Valid :=
  valid_iff.mpr ⟨trivial, by simp [parts]⟩

theorem Valid.isMissing_eq {f : Formula} (h : f.Valid) : f.isMissing = false := by
  cases f with
  | missing => exact (valid_iff.mp h).1.elim
  | _ => rfl

/-! ## Constructs -/

/-- A word between two operands is a symbol that forms chains. -/
theorem mem_chainable {ℓ : Level} {kind : Token.Kind} {op : String} (hkind : kind ∈ ℓ.operators)
    (hop : Word.Lexical (kind, op)) : op ∈ chainable := by
  have hall : ∀ kind ∈ ℓ.operators,
      kind ∉ [.number, .string, .name] ∧ ∃ spelling ∈ chainable, Word.Lexical (kind, spelling) := by
    cases ℓ <;> decide +kernel
  obtain ⟨hspelled, spelling, hmem, hspelling⟩ := hall kind hkind
  rwa [hop.text_eq spelling hspelling hspelled]

theorem mem_signs {kind : Token.Kind} {op : String} (hkind : kind ∈ prefixKinds)
    (hop : Word.Lexical (kind, op)) : op ∈ signs := by
  rcases prefixed_spelling hkind hop with ⟨_, rfl⟩ | ⟨_, rfl⟩ | ⟨_, rfl⟩ | ⟨_, rfl⟩ <;> decide

theorem valid_number {text : String} (h : Word.Lexical (.number, text)) : (literal text).Valid :=
  valid_iff.mpr ⟨.inl (Lexer.scan_eq_single_iff.mpr h), by simp [parts]⟩

theorem valid_string {text : String} (h : Word.Lexical (.string, text)) :
    (literal (StringLiteral.requote text)).Valid := by
  have hhead : (StringLiteral.requote text).toList.head? = some '"' := by
    rw [StringLiteral.requote, String.toList_ofList]
    exact StringLiteral.head?_requoteChars text.toList
  have hscan := Lexer.scan_eq_single_iff.mpr (StringLiteral.lexical_requote h)
  exact valid_iff.mpr ⟨.inr ⟨hscan, hhead⟩, by simp [parts]⟩

theorem valid_property [Host] (declared : Declared) (args : List SyntaxTree) :
    (normalProperty declared args).formula.Valid := by
  unfold normalProperty
  split
  · dsimp only
    split
    · exact valid_iff.mpr ⟨trivial, by simp [parts]⟩
    · exact valid_error _
  · exact valid_error _
  · exact valid_error _

/-- An operator goes on with the chain of its first operand only if that is one of its own. -/
theorem valid_infixed {op : String} (hop : op ∈ chainable) {x y : SyntaxTree} {f g : Formula}
    (hf : f.Valid) (hg : g.Valid) : (operator op (chain op [x, y] [f, g])).Valid := by
  rcases chain_binary op x y f g with hchain | ⟨inner, rfl, _, hlength, hchain⟩
  · rw [hchain]
    exact valid_iff.mpr ⟨.inr (.inl ⟨by simp, hop⟩), by simpa [parts] using ⟨hf, hg⟩⟩
  · have hinner := (valid_iff.mp hf).2
    rw [hchain]
    refine valid_iff.mpr ⟨.inr (.inl ⟨by simp; omega, hop⟩), ?_⟩
    exact List.forall_mem_append.mpr ⟨hinner, List.forall_mem_singleton.mpr hg⟩

theorem valid_power {x y : SyntaxTree} {f g : Formula} (hf : f.Valid) (hg : g.Valid) :
    (operator "^" (chain "^" [x, y] [f, g])).Valid := by
  rcases chain_binary "^" x y f g with hchain | ⟨_, _, hop, _⟩
  · rw [hchain]
    exact valid_iff.mpr ⟨.inr (.inr ⟨rfl, rfl⟩), by simpa [parts] using ⟨hf, hg⟩⟩
  · exact absurd rfl hop

/-- An error among the terms of a conditional takes its place. -/
theorem valid_conditional {tree : SyntaxTree} {condition ifTrue ifFalse : Normal}
    (hc : condition.formula.Valid) (ht : ifTrue.formula.Valid) (hf : ifFalse.formula.Valid) :
    (normalConditional tree condition ifTrue ifFalse).formula.Valid := by
  obtain ⟨c, cs⟩ := condition
  obtain ⟨t, ts⟩ := ifTrue
  obtain ⟨f, fs⟩ := ifFalse
  unfold normalConditional
  dsimp only at *
  have herror : ∀ {g : Formula}, (∀ message, g = error message → False) → g.isError = false := by
    intro g hg
    cases g with
    | error message => exact (hg message rfl).elim
    | _ => rfl
  split
  next => cases hc.isMissing_eq
  next => exact valid_error _
  next => exact valid_error _
  next => exact valid_error _
  next => cases ht.isMissing_eq
  next => cases hf.isMissing_eq
  next =>
    refine valid_iff.mpr ⟨⟨herror ?_, herror ?_, herror ?_⟩, by simpa [parts] using ⟨hc, ht, hf⟩⟩ <;>
      assumption

/-! ## Trees -/

theorem valid_of_derives [Host] {declared : Declared} {ℓ : Level} {ws : List Word} {t : SyntaxTree}
    (h : Derives ℓ ws t) (hws : ∀ w ∈ ws, w.Lexical) : (normal declared t).formula.Valid := by
  induction h with
  | tighter _ ih => exact ih hws
  | assignment | index | member | method | array | object => exact valid_error _
  | conditional _ _ _ ihc ihx ihy =>
      simp only [List.forall_mem_append, List.forall_mem_cons] at hws
      rw [normal]
      exact valid_conditional (ihc hws.1) (ihx hws.2.2.1) (ihy hws.2.2.2.2)
  | @infixed _ _ op _ _ x y hkind hx hy ihx ihy =>
      rw [List.forall_mem_append, List.forall_mem_cons] at hws
      rw [normal_operator (by simp [normal_ne_missing hx, normal_ne_missing hy])]
      exact valid_infixed (mem_chainable hkind hws.2.1) (ihx hws.1) (ihy hws.2.2)
  | @prefixed _ op _ x hkind hx ih =>
      rw [List.forall_mem_cons] at hws
      rw [normal_operator (by simp [normal_ne_missing hx])]
      refine valid_iff.mpr ⟨.inl ⟨by simp [chain], mem_signs hkind hws.1⟩, ?_⟩
      simpa [parts, chain] using ih hws.2
  | power hx hy ihx ihy =>
      rw [List.forall_mem_append, List.forall_mem_cons] at hws
      rw [normal_operator (by simp [normal_ne_missing hx, normal_ne_missing hy])]
      exact valid_power (ihx hws.1) (ihy hws.2.2)
  | number => exact valid_number (List.forall_mem_cons.mp hws).1
  | string => exact valid_string (List.forall_mem_cons.mp hws).1
  | @symbol name =>
      rw [normal]
      split
      next hname => exact valid_iff.mpr ⟨List.contains_iff_mem.mp hname, by simp [parts]⟩
      next => exact valid_error _
  | paren _ ih =>
      simp only [List.forall_mem_append, List.forall_mem_cons] at hws
      rw [normal]
      exact ih hws.2.1
  | @call _ name items _ hitems ihitems =>
      simp only [List.forall_mem_append, List.forall_mem_cons] at hws
      have hwords := forall_mem_items hws.2.2.1
      rw [normal]
      split
      next => exact valid_property declared _
      next hname =>
        refine valid_iff.mpr ⟨hname, ?_⟩
        rw [parts, normalAll_fst (normal_items_ne_missing hitems), List.map_map, List.forall_mem_map]
        exact fun item h => ihitems item h (hwords item h)

theorem valid_of_sentence [Host] {declared : Declared} {ws : List Word} {t : SyntaxTree}
    (h : Sentence ws t) (hws : ∀ w ∈ ws, w.Lexical) : (normal declared t).formula.Valid := by
  rcases h.single_or_block with ⟨v, hv, hwords⟩ | ⟨statements, rfl⟩
  · exact valid_of_derives hv fun w hw => hws w (hwords w hw)
  · exact valid_error _

/-! ## Chains -/

/-- An operator applied to its arguments two by two, nested to the left. -/
def nestedLeft (op : String) : List Formula → Formula
  | first :: second :: rest =>
    rest.foldl (fun left right => .operator op [left, right]) (.operator op [first, second])
  | args => .operator op args

theorem nestedLeft_concat (op : String) {args : List Formula} (h : 2 ≤ args.length) (g : Formula) :
    nestedLeft op (args ++ [g]) = .operator op [nestedLeft op args, g] := by
  match args, h with
  | first :: second :: rest, _ => simp [nestedLeft]

mutual

/-- The formula with each of its chains as operators of two arguments. -/
def binarized : Formula → Formula
  | .function name args => .function name (binarizedAll args)
  | .parentheses inner => .parentheses inner.binarized
  | .operator op args => nestedLeft op (binarizedAll args)
  | .conditional condition ifTrue ifFalse =>
    .conditional condition.binarized ifTrue.binarized ifFalse.binarized
  | leaf => leaf

def binarizedAll : List Formula → List Formula
  | [] => []
  | formula :: formulas => formula.binarized :: binarizedAll formulas

end

theorem binarizedAll_eq_map (fs : List Formula) : binarizedAll fs = fs.map binarized := by
  induction fs with
  | nil => rfl
  | cons f fs ih => rw [binarizedAll, ih, List.map_cons]

/-- A chain that goes on is grouped as if it did not. -/
theorem binarized_chain (op : String) (x y : SyntaxTree) (f g : Formula) :
    (operator op (chain op [x, y] [f, g])).binarized = .operator op [f.binarized, g.binarized] := by
  rcases chain_binary op x y f g with hchain | ⟨inner, rfl, _, hlength, hchain⟩
  · rw [hchain]
    rfl
  · rw [hchain, binarized, binarized, binarizedAll_eq_map, binarizedAll_eq_map, List.map_append]
    exact nestedLeft_concat op (by simpa using hlength) _

end Formula

/-! ## Trees without errors -/

namespace SyntaxTree

open Formula

/-- A reference to a property of a declared kind. -/
def asProperty [Host] (declared : Declared) : List SyntaxTree → Formula
  | [.constant kind text] =>
    match declared.resolve (propertyName kind text) with
    | .ok propertyKind => .property (propertyName kind text) propertyKind
    | .error _ => .missing
  | _ => .missing

mutual

/-- A tree without parentheses as a formula, node by node: calls of `prop` as properties, and strings
in double quotes. Nothing stands for what formulas do not allow. -/
def asFormula [Host] (declared : Declared) : SyntaxTree → Formula
  | .constant .number text => .literal text
  | .constant .string text => .literal (StringLiteral.requote text)
  | .symbol name => .symbol name
  | .call name args =>
    if name = "prop" then asProperty declared args else .function name (asFormulas declared args)
  | .operator op args => .operator op (asFormulas declared args)
  | .conditional condition ifTrue ifFalse =>
    .conditional (condition.asFormula declared) (ifTrue.asFormula declared)
      (ifFalse.asFormula declared)
  | _ => .missing

def asFormulas [Host] (declared : Declared) : List SyntaxTree → List Formula
  | [] => []
  | tree :: trees => tree.asFormula declared :: asFormulas declared trees

end

theorem asFormulas_eq_map [Host] (declared : Declared) (trees : List SyntaxTree) :
    asFormulas declared trees = trees.map (asFormula declared) := by
  induction trees with
  | nil => rfl
  | cons tree trees ih => rw [asFormulas, ih, List.map_cons]

end SyntaxTree

namespace Formula

theorem Normal.Reports.isError_eq {n : Normal} (h : n.Reports) (herrors : n.errors = []) :
    n.formula.isError = false := by
  obtain ⟨f, errors⟩ := n
  cases f with
  | error message =>
      have hsublist := h.keeps.sublist
      rw [messages_error, herrors] at hsublist
      cases hsublist
  | _ => rfl

theorem errors_operator [Host] (declared : Declared) (op : String) (trees : List SyntaxTree) :
    (normal declared (.operator op trees)).errors =
      trees.flatMap fun tree => (normal declared tree).errors := by
  rw [normal]
  exact normalAll_snd declared trees

theorem normalConditional_of_errors_eq_nil {tree : SyntaxTree} {condition ifTrue ifFalse : Normal}
    (hc : condition.formula.isMissing = false) (ht : ifTrue.formula.isMissing = false)
    (hf : ifFalse.formula.isMissing = false) (hcondition : condition.Reports)
    (hifTrue : ifTrue.Reports) (hifFalse : ifFalse.Reports)
    (h : (normalConditional tree condition ifTrue ifFalse).errors = []) :
    (condition.errors = [] ∧ ifTrue.errors = [] ∧ ifFalse.errors = []) ∧
      (normalConditional tree condition ifTrue ifFalse).formula =
        .conditional condition.formula ifTrue.formula ifFalse.formula := by
  have hc' := hcondition.isError_eq
  have ht' := hifTrue.isError_eq
  have hf' := hifFalse.isError_eq
  unfold normalConditional at h ⊢
  dsimp only at h ⊢
  split <;> simp_all [isMissing, isError]

theorem normalProperty_of_errors_eq_nil [Host] {declared : Declared} {args : List SyntaxTree}
    (h : (normalProperty declared args).errors = []) :
    (normalProperty declared args).formula.binarized =
      SyntaxTree.asProperty declared (SyntaxTree.eraseAll args) := by
  unfold normalProperty at h ⊢
  split
  next kind text =>
    rw [SyntaxTree.eraseAll, SyntaxTree.erase, SyntaxTree.eraseAll, SyntaxTree.asProperty]
    cases hresolve : declared.resolve (propertyName kind text) with
    | ok propertyKind => simp [hresolve, binarized]
    | error e => simp [hresolve, Normal.fail] at h
  next => simp [Normal.fail] at h
  next => simp [Normal.fail] at h

/-- Without errors, nothing but the grouping of chains tells a formula from its tree. -/
theorem binarized_of_derives [Host] {declared : Declared} {ℓ : Level} {ws : List Word}
    {t : SyntaxTree} (h : Derives ℓ ws t) (herrors : (normal declared t).errors = []) :
    (normal declared t).formula.binarized = t.erase.asFormula declared := by
  induction h with
  | tighter _ ih => exact ih herrors
  | assignment | index | member | method | array | object => simp [normal, Normal.fail] at herrors
  | conditional hc hx hy ihc ihx ihy =>
      rw [normal] at herrors ⊢
      obtain ⟨⟨hc', hx', hy'⟩, hformula⟩ := normalConditional_of_errors_eq_nil
        (normal_ne_missing hc) (normal_ne_missing hx) (normal_ne_missing hy)
        (reports_of_derives hc) (reports_of_derives hx) (reports_of_derives hy) herrors
      rw [hformula, binarized, ihc hc', ihx hx', ihy hy']
      rfl
  | infixed _ hx hy ihx ihy | power hx hy ihx ihy =>
      rw [errors_operator] at herrors
      simp only [List.flatMap_cons, List.flatMap_nil, List.append_nil,
        List.append_eq_nil_iff] at herrors
      rw [normal_operator (by simp [normal_ne_missing hx, normal_ne_missing hy]), List.map_cons,
        List.map_singleton, binarized_chain, ihx herrors.1, ihy herrors.2]
      rfl
  | prefixed _ hx ih =>
      rw [errors_operator] at herrors
      simp only [List.flatMap_cons, List.flatMap_nil, List.append_nil] at herrors
      rw [normal_operator (by simp [normal_ne_missing hx])]
      simp [chain, binarized, binarizedAll, nestedLeft, ih herrors, SyntaxTree.erase,
        SyntaxTree.eraseAll, SyntaxTree.asFormula, SyntaxTree.asFormulas]
  | number | string => simp [normal, binarized, SyntaxTree.erase, SyntaxTree.asFormula]
  | symbol =>
      rw [normal] at herrors ⊢
      split at herrors
      next hname =>
        rw [if_pos hname]
        rfl
      next => simp [Normal.fail] at herrors
  | paren _ ih =>
      rw [normal] at herrors ⊢
      exact ih herrors
  | @call _ name items _ hitems ihitems =>
      rw [normal] at herrors ⊢
      rw [SyntaxTree.erase, SyntaxTree.asFormula]
      split at herrors
      next hname =>
        rw [if_pos hname, if_pos hname]
        exact normalProperty_of_errors_eq_nil herrors
      next hname =>
        rw [if_neg hname, if_neg hname]
        dsimp only at herrors ⊢
        rw [normalAll_snd, List.flatMap_eq_nil_iff, List.forall_mem_map] at herrors
        rw [normalAll_fst (normal_items_ne_missing hitems), binarized, binarizedAll_eq_map,
          SyntaxTree.eraseAll_eq_map, SyntaxTree.asFormulas_eq_map, List.map_map, List.map_map,
          List.map_map, List.map_map]
        exact congrArg (function name)
          (List.map_congr_left fun item h => ihitems item h (herrors item h))

theorem binarized_of_sentence [Host] {declared : Declared} {ws : List Word} {t : SyntaxTree}
    (h : Sentence ws t) (herrors : (normal declared t).errors = []) :
    (normal declared t).formula.binarized = t.erase.asFormula declared := by
  rcases h.single_or_block with ⟨v, hv, _⟩ | ⟨statements, rfl⟩
  · exact binarized_of_derives hv herrors
  · simp [normal, Normal.fail] at herrors

attribute [local instance] Host.usual

end Formula

end FormulaUpgrade
