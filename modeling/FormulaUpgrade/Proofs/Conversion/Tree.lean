import FormulaUpgrade.Proofs.Conversion.Traversal
import FormulaUpgrade.Proofs.SyntaxTree.Words
import FormulaUpgrade.SyntaxTree.Text

/-! # The tree of a converted text

The tree that the converted text of a formula is meant to have. A call of `unaryMinus` without
arguments leaves a minus sign without an operand, for which an operator without operands stands.
-/

namespace FormulaUpgrade

open Token

/-! ## Operators -/

namespace SyntaxTree

/-- A power whose base is written without parentheses: an operator in front of the base is applied
to the power. -/
def raise : SyntaxTree → SyntaxTree → SyntaxTree
  | .operator op [x], y => .operator op [raise x y]
  | x, y => .operator "^" [x, y]

/-- Two operands, as they are written. -/
def binary (op : String) (x y : SyntaxTree) : SyntaxTree :=
  if op = "^" then raise x y else .operator op [x, y]

/-- Operands with one operator between them, grouped to the left. -/
def chained (op : String) : List SyntaxTree → SyntaxTree
  | [] => .missing
  | x :: xs => xs.foldl (binary op) x

@[simp] theorem chained_pair (op : String) (x y : SyntaxTree) : chained op [x, y] = binary op x y :=
  rfl

theorem chained_concat (op : String) {xs : List SyntaxTree} (hxs : xs ≠ []) (y : SyntaxTree) :
    chained op (xs ++ [y]) = binary op (chained op xs) y := by
  cases xs with
  | nil => exact absurd rfl hxs
  | cons x xs => simp [chained]

theorem words_raise (x y : SyntaxTree) :
    (raise x y).words = x.words ++ (.pow, "^") :: y.words := by
  fun_induction raise x y with
  | case1 op x y ih => simp [words, ih]
  | case2 x y =>
      rw [words_binary]
      rfl

theorem words_binaryTree (op : String) (x y : SyntaxTree) :
    (binary op x y).words = x.words ++ Word.ofText op :: y.words := by
  unfold binary
  split
  next hop =>
    subst hop
    rw [words_raise]
    rfl
  next => exact words_binary op x y

end SyntaxTree

/-! ## References -/

namespace Property

open SyntaxTree

/-- The tree of a reference. -/
def referenceTree (name : String) : SyntaxTree :=
  .call "prop" [.constant .string (Json.quote name)]

/-- The tree of a reference that still gives what a reference of its kind used to give. -/
def Kind.templateTree (kind : Kind) (reference : SyntaxTree) : SyntaxTree :=
  match kind with
  | .person | .relation =>
    .call "join" [reference, .call "map" [.call "format" [.symbol "current"]],
      .constant .string "\", \""]
  | .rollup =>
    .call "join" [reference, .call "map" [.call "format" [.symbol "current"]],
      .constant .string "\",\""]
  | .file | .multiSelect => .call "join" [reference, .constant .string "\", \""]
  | .id =>
    .method (.method (.method reference "split" [.constant .string "'-'"]) "last" []) "toNumber" []
  | .other => reference

theorem text_templateTree (kind : Kind) (reference : SyntaxTree) :
    (kind.templateTree reference).text = kind.template.fill reference.text := by
  rw [← String.toList_inj]
  cases kind <;>
    simp [Kind.templateTree, Kind.template, Template.fill, SyntaxTree.text, texts, commaJoined,
      String.intercalate_cons_cons]

theorem text_referenceTree (name : String) : (referenceTree name).text = reference name := by
  simp [referenceTree, reference, SyntaxTree.text, texts, commaJoined]

end Property

/-! ## Formulas -/

namespace Formula

open SyntaxTree Conversion

/-- The tree of a formula as an operand. -/
def grouped (f : Formula) (tree : SyntaxTree) : SyntaxTree :=
  if f.needsParentheses then .paren tree else tree

/-- The tree of a function with a conversion of its own. -/
def specialTree (special : Special) (args : List Formula) (trees : List SyntaxTree) : SyntaxTree :=
  match special, args, trees with
  | .unaryMinus, arg :: _, tree :: _ => .operator "-" [arg.grouped tree]
  | .unaryMinus, _, _ => .operator "-" []
  | .unaryPlus, _, _ => .call "toNumber" trees
  | .day, _, _ => .operator "%" [.call "day" trees, .constant .number "7"]
  | .month, _, _ => .operator "-" [.call "month" trees, .constant .number "1"]
  | .join, _, [] => .call "join" [.array []]
  | .join, _, separator :: values => .call "join" [.array values, separator]

def functionTree (name : String) (args : List Formula) (trees : List SyntaxTree) : SyntaxTree :=
  match treatment name with
  | .renamed name => .call name trees
  | .operator op => chained op (args.zipWith grouped trees)
  | .special special => specialTree special args trees
  | .unchanged => .call name trees

def prefixedTree (op : String) (arg : Formula) (tree : SyntaxTree) : SyntaxTree :=
  if op = "not" then .operator "!" [arg.grouped tree]
  else if op = "+" then .call "toNumber" [tree]
  else .operator op [arg.grouped tree]

mutual

/-- The tree of the converted text. -/
def convertedTree : Formula → SyntaxTree
  | .missing | .error _ => .missing
  | .literal written =>
    .constant (if (Word.ofText written).1 = .string then .string else .number) written
  | .parentheses inner => .paren inner.convertedTree
  | .function name args => functionTree name args (convertedTrees args)
  | .property name kind => kind.templateTree (Property.referenceTree name)
  | .operator _ [] => .missing
  | .operator op [arg] => prefixedTree op arg arg.convertedTree
  | .operator op args => chained op (args.zipWith grouped (convertedTrees args))
  | .conditional condition ifTrue ifFalse =>
    .call "if" [condition.grouped condition.convertedTree, ifTrue.grouped ifTrue.convertedTree,
      ifFalse.grouped ifFalse.convertedTree]
  | .symbol name => if calledConstants.contains name then .call name [] else .symbol name

def convertedTrees : List Formula → List SyntaxTree
  | [] => []
  | formula :: formulas => formula.convertedTree :: convertedTrees formulas

end

theorem convertedTrees_eq_map (fs : List Formula) : convertedTrees fs = fs.map convertedTree := by
  induction fs with
  | nil => rfl
  | cons f fs ih => rw [convertedTrees, ih, List.map_cons]

/-- The tree of a formula where it is an operand. -/
def operandTree (f : Formula) : SyntaxTree :=
  f.grouped f.convertedTree

/-- The text of a formula where it is an operand. -/
def operandText (f : Formula) : String :=
  wrap f f.convertedText

theorem operandTree_of_needsParentheses {f : Formula} (h : f.needsParentheses) :
    f.operandTree = .paren f.convertedTree := by
  rw [operandTree, grouped, if_pos h]

theorem operandTree_of_not_needsParentheses {f : Formula} (h : f.needsParentheses = false) :
    f.operandTree = f.convertedTree := by
  rw [operandTree, grouped, h]
  rfl

theorem zipWith_grouped (fs : List Formula) :
    fs.zipWith grouped (convertedTrees fs) = fs.map operandTree := by
  induction fs with
  | nil => rfl
  | cons f fs ih =>
      rw [convertedTrees, List.zipWith_cons_cons, ih, List.map_cons]
      rfl

theorem zipWith_wrap (fs : List Formula) :
    fs.zipWith wrap (convertedTexts fs) = fs.map operandText := by
  induction fs with
  | nil => rfl
  | cons f fs ih =>
      rw [convertedTexts, List.zipWith_cons_cons, ih, List.map_cons]
      rfl

/-! ## One more operand -/

theorem convertedTree_operator (op : String) {args : List Formula} (h : 2 ≤ args.length) :
    (operator op args).convertedTree = chained op (args.map operandTree) := by
  match args, h with
  | first :: second :: rest, _ =>
    rw [convertedTree, zipWith_grouped]
    · simp
    · simp

theorem convertedText_operator (op : String) {args : List Formula} (h : 2 ≤ args.length) :
    (operator op args).convertedText = (" " ++ op ++ " ").intercalate (args.map operandText) := by
  match args, h with
  | first :: second :: rest, _ =>
    rw [convertedText, operatorText, zipWith_wrap]
    · simp
    · simp

theorem convertedTree_concat (op : String) {inner : List Formula} (h : 2 ≤ inner.length)
    (g : Formula) :
    (operator op (inner ++ [g])).convertedTree =
      binary op (operator op inner).convertedTree g.operandTree := by
  have hne : inner.map operandTree ≠ [] := by
    intro hnil
    simp_all
  rw [convertedTree_operator op (by simp; omega), convertedTree_operator op h, List.map_append,
    List.map_singleton, chained_concat op hne]

theorem convertedText_concat (op : String) {inner : List Formula} (h : 2 ≤ inner.length)
    (g : Formula) :
    (operator op (inner ++ [g])).convertedText =
      (operator op inner).convertedText ++ (" " ++ op ++ " ") ++ g.operandText := by
  have hne : inner.map operandText ≠ [] := by
    intro hnil
    simp_all
  rw [convertedText_operator op (by simp; omega), convertedText_operator op h, List.map_append,
    List.map_singleton, String.intercalate_append_of_ne_nil hne (by simp)]
  simp

end Formula

end FormulaUpgrade
