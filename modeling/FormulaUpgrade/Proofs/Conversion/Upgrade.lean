import FormulaUpgrade.Proofs.Conversion.Words

/-! # The upgrade of a syntax tree

What every construct of a formula becomes, node by node. The rules are about trees without
parentheses, and know nothing of texts.
-/

namespace FormulaUpgrade.SyntaxTree

open Conversion Property

/-! ## Trees without parentheses -/

mutual

/-- A tree without its parentheses. -/
def erase : SyntaxTree → SyntaxTree
  | .missing => .missing
  | .constant kind written => .constant kind written
  | .symbol name => .symbol name
  | .call name args => .call name (eraseAll args)
  | .operator op args => .operator op (eraseAll args)
  | .paren content => content.erase
  | .conditional condition ifTrue ifFalse =>
    .conditional condition.erase ifTrue.erase ifFalse.erase
  | .array items => .array (eraseAll items)
  | .object entries => .object (eraseEntries entries)
  | .assignment target value => .assignment target.erase value.erase
  | .index owner indices => .index owner.erase (eraseAll indices)
  | .member owner name => .member owner.erase name
  | .method owner name args => .method owner.erase name (eraseAll args)
  | .block statements => .block (eraseAll statements)

def eraseAll : List SyntaxTree → List SyntaxTree
  | [] => []
  | tree :: trees => tree.erase :: eraseAll trees

def eraseEntries : List (String × SyntaxTree) → List (String × SyntaxTree)
  | [] => []
  | (key, tree) :: entries => (key, tree.erase) :: eraseEntries entries

end

theorem eraseAll_eq_map (trees : List SyntaxTree) : eraseAll trees = trees.map erase := by
  induction trees with
  | nil => rfl
  | cons tree trees ih => rw [eraseAll, ih, List.map_cons]

/-! ## Rules -/

/-- The new name of a function. -/
def newName? : String → Option String
  | "slice" => some "substring"
  | "start" => some "dateStart"
  | "end" => some "dateEnd"
  | _ => none

/-- The symbol that takes the place of a function of two arguments. -/
def symbol? : String → Option String
  | "add" | "concat" => some "+"
  | "subtract" => some "-"
  | "multiply" => some "*"
  | "divide" => some "/"
  | "pow" => some "^"
  | "mod" => some "%"
  | "equal" => some "=="
  | "unequal" => some "!="
  | "larger" => some ">"
  | "largerEq" => some ">="
  | "smaller" => some "<"
  | "smallerEq" => some "<="
  | _ => none

/-- What a call becomes, its arguments being upgraded. The first argument of `join` goes behind the
list of the others, which is empty if there are none. -/
def upgradedCall (name : String) (args : List SyntaxTree) : SyntaxTree :=
  match newName? name, symbol? name, name, args with
  | some renamed, _, _, _ => .call renamed args
  | _, some op, _, [x, y] => .operator op [x, y]
  | _, _, "unaryMinus", [x] => .operator "-" [x]
  | _, _, "unaryPlus", _ => .call "toNumber" args
  | _, _, "day", _ => .operator "%" [.call "day" args, .constant .number "7"]
  | _, _, "month", _ => .operator "-" [.call "month" args, .constant .number "1"]
  | _, _, "join", [] => .call "join" [.array []]
  | _, _, "join", separator :: values => .call "join" [.array values, separator]
  | _, _, _, _ => .call name args

/-- What a reference becomes: the template of the declared kind. -/
def upgradedReference [Host] (declared : Declared) : List SyntaxTree → SyntaxTree
  | [.constant kind written] =>
    match declared.resolve (Formula.propertyName kind written) with
    | .ok propertyKind =>
      propertyKind.templateTree (referenceTree (Formula.propertyName kind written))
    | .error _ => .call "prop" [.constant kind written]
  | args => .call "prop" args

/-- What an operator becomes, its operands being upgraded. -/
def upgradedOperator (op : String) (args : List SyntaxTree) : SyntaxTree :=
  match op, args with
  | "not", [x] => .operator "!" [x]
  | "+", [x] => .call "toNumber" [x]
  | _, _ => .operator op args

mutual

/-- What a tree without parentheses becomes, node by node. -/
def upgrade [Host] (declared : Declared) : SyntaxTree → SyntaxTree
  | .missing => .missing
  | .constant .number written => .constant .number written
  | .constant .string written => .constant .string (StringLiteral.requote written)
  | .symbol name => if name = "pi" ∨ name = "e" then .call name [] else .symbol name
  | .call name args =>
    if name = "prop" then upgradedReference declared args
    else upgradedCall name (upgradeAll declared args)
  | .operator op args => upgradedOperator op (upgradeAll declared args)
  | .paren content => .paren (upgrade declared content)
  | .conditional condition ifTrue ifFalse =>
    .call "if" [upgrade declared condition, upgrade declared ifTrue, upgrade declared ifFalse]
  | .array items => .array (upgradeAll declared items)
  | .object entries => .object (upgradeEntries declared entries)
  | .assignment target value => .assignment (upgrade declared target) (upgrade declared value)
  | .index owner indices => .index (upgrade declared owner) (upgradeAll declared indices)
  | .member owner name => .member (upgrade declared owner) name
  | .method owner name args => .method (upgrade declared owner) name (upgradeAll declared args)
  | .block statements => .block (upgradeAll declared statements)

def upgradeAll [Host] (declared : Declared) : List SyntaxTree → List SyntaxTree
  | [] => []
  | tree :: trees => upgrade declared tree :: upgradeAll declared trees

def upgradeEntries [Host] (declared : Declared) :
    List (String × SyntaxTree) → List (String × SyntaxTree)
  | [] => []
  | (key, tree) :: entries => (key, upgrade declared tree) :: upgradeEntries declared entries

end

theorem upgradeAll_eq_map [Host] (declared : Declared) (trees : List SyntaxTree) :
    upgradeAll declared trees = trees.map (upgrade declared) := by
  induction trees with
  | nil => rfl
  | cons tree trees ih => rw [upgradeAll, ih, List.map_cons]

/-! ## The rules by treatment -/

/-- The table of renamed functions says what the rules say. -/
theorem lookup_renamedFunctions (name : String) : renamedFunctions.lookup name = newName? name := by
  by_cases h : name ∈ renamedFunctions.map Prod.fst
  · have hall : ∀ name ∈ renamedFunctions.map Prod.fst,
        renamedFunctions.lookup name = newName? name := by
      decide
    exact hall name h
  · simp only [renamedFunctions, List.map_cons, List.map_nil, List.mem_cons, List.not_mem_nil,
      not_or] at h
    have hnone : renamedFunctions.lookup name = none :=
      List.lookup_eq_none_iff.mpr (by simp [renamedFunctions, h])
    simp [hnone, newName?, h]

/-- The table of functions that become operators says what the rules say. -/
theorem lookup_operatorFunctions (name : String) : operatorFunctions.lookup name = symbol? name := by
  by_cases h : name ∈ operatorFunctions.map Prod.fst
  · have hall : ∀ name ∈ operatorFunctions.map Prod.fst,
        operatorFunctions.lookup name = symbol? name := by
      decide
    exact hall name h
  · simp only [operatorFunctions, List.map_cons, List.map_nil, List.mem_cons, List.not_mem_nil,
      not_or] at h
    have hnone : operatorFunctions.lookup name = none :=
      List.lookup_eq_none_iff.mpr (by simp [operatorFunctions, h])
    simp [hnone, symbol?, h]

theorem upgradedCall_renamed {name renamed : String} (h : treatment name = .renamed renamed)
    (args : List SyntaxTree) : upgradedCall name args = .call renamed args := by
  have hall : ∀ entry ∈ renamedFunctions, newName? entry.1 = some entry.2 := by
    decide
  have hname : newName? name = some renamed := hall _ (mem_renamedFunctions h)
  unfold upgradedCall
  rw [hname]

theorem upgradedCall_operator {name op : String} (h : treatment name = .operator op)
    (x y : SyntaxTree) : upgradedCall name [x, y] = .operator op [x, y] := by
  have hall : ∀ entry ∈ operatorFunctions, newName? entry.1 = none ∧
      symbol? entry.1 = some entry.2 := by
    decide
  obtain ⟨hrenamed, hoperator⟩ := hall _ (mem_operatorFunctions h)
  unfold upgradedCall
  rw [hrenamed, hoperator]

theorem upgradedCall_unchanged {name : String} (h : treatment name = .unchanged)
    (args : List SyntaxTree) : upgradedCall name args = .call name args := by
  have hrules : newName? name = none ∧ symbol? name = none := by
    rw [← lookup_renamedFunctions, ← lookup_operatorFunctions]
    unfold treatment at h
    split at h
    · cases h
    · split at h
      · cases h
      · exact ⟨by assumption, by assumption⟩
  unfold upgradedCall
  rw [hrules.1, hrules.2]
  split
  · simp_all
  · simp_all
  · exact absurd h (by decide)
  · exact absurd h (by decide)
  · exact absurd h (by decide)
  · exact absurd h (by decide)
  · exact absurd h (by decide)
  · exact absurd h (by decide)
  · rfl

/-- The rule for an operator of a level, whose symbol is neither of the two that are replaced. -/
theorem upgradedOperator_binary (op : String) (x y : SyntaxTree) :
    upgradedOperator op [x, y] = .operator op [x, y] := by
  unfold upgradedOperator
  split <;> simp_all

end FormulaUpgrade.SyntaxTree
