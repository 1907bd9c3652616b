import FormulaUpgrade.SyntaxTree.Basic
import FormulaUpgrade.Token.Lexer

/-! # Parsing formula text

The parser reads tokens from left to right and keeps what is still open: inside each bracket, the
operators that wait for their right operand, innermost first. A token either fits what is open or is
the first that no formula can continue with.

From loose to tight: assignment, conditional, `or`, `xor`, `and`, comparison, sum, product, prefix
operator, power. Assignment, conditional and power group to the right, the others to the left; a
prefix operator may stand to the right of a power.
-/

namespace FormulaUpgrade.Parser

open Token

/-! ## What is open -/

/-- An operator that waits for its right operand. -/
inductive Pending where
  | prefixed (symbol : String)
  | infixed (level : Nat) (symbol : String) (left : SyntaxTree)
  | powered (base : SyntaxTree)
  | otherwise (condition ifTrue : SyntaxTree)
  | assigned (target : SyntaxTree)
deriving Repr

/-- A construct that ends only at its closing token. The colon closes the first branch of a
conditional. -/
inductive Bracket where
  | group
  | call (name : String) (args : List SyntaxTree)
  | array (items : List SyntaxTree)
  | entry (entries : List (String × SyntaxTree)) (key : String)
  | index (owner : SyntaxTree) (indices : List SyntaxTree)
  | method (owner : SyntaxTree) (name : String) (args : List SyntaxTree)
  | branch (condition : SyntaxTree)
deriving Repr

/-- What the last tokens have led to. -/
inductive Focus where
  | operand
  | value (tree : SyntaxTree)
  | name (name : String)
  | keyword (name : String)
  | dot (owner : SyntaxTree)
  | member (owner : SyntaxTree) (name : String)
  | key (entries : List (String × SyntaxTree))
  | colon (entries : List (String × SyntaxTree)) (key : String)
deriving Repr

/-- Finished statements, open brackets with the operators pending around each, the operators pending
in the innermost bracket, and the focus. -/
structure State where
  statements : List SyntaxTree
  outer : List (Bracket × List Pending)
  pending : List Pending
  focus : Focus
deriving Repr

def State.initial : State :=
  ⟨[], [], [], .operand⟩

/-! ## Binding strength -/

/-- The level of an infix operator, `or` being the loosest. -/
def infixLevel? : Kind → Option Nat
  | .or => some 0
  | .xor => some 1
  | .and => some 2
  | .eq | .ne | .lt | .le | .gt | .ge => some 3
  | .plus | .minus => some 4
  | .times | .divide | .mod | .modulo => some 5
  | _ => none

/-- How tightly a pending operator holds its right operand. -/
def Pending.strength : Pending → Nat
  | .assigned _ => 0
  | .otherwise .. => 1
  | .infixed level .. => level + 2
  | .prefixed _ => 8
  | .powered _ => 9

/-- The tree of a pending operator once its right operand is known. -/
def Pending.close : Pending → SyntaxTree → SyntaxTree
  | .prefixed symbol, x => .operator symbol [x]
  | .infixed _ symbol left, x => .operator symbol [left, x]
  | .powered base, x => .operator "^" [base, x]
  | .otherwise condition ifTrue, x => .conditional condition ifTrue x
  | .assigned target, x => .assignment target x

/-- Closes the pending operators that hold at least as tightly as `strength`. -/
def settle (strength : Nat) : List Pending → SyntaxTree → List Pending × SyntaxTree
  | [], x => ([], x)
  | p :: ps, x => if strength ≤ p.strength then settle strength ps (p.close x) else (p :: ps, x)

/-- Closes every pending operator. -/
def settleAll (ps : List Pending) (x : SyntaxTree) : SyntaxTree :=
  ps.foldl (fun x p => p.close x) x

/-! ## One token -/

namespace State

/-- Opens a bracket in place of an operand. -/
def openBracket (s : State) (b : Bracket) : State :=
  { s with outer := (b, s.pending) :: s.outer, pending := [], focus := .operand }

/-- A token where an operand must come. Only an empty argument list or array may close here. -/
def stepOperand (s : State) (t : Token) : Option State :=
  match t.kind with
  | .number => some { s with focus := .value (.constant .number t.text) }
  | .string => some { s with focus := .value (.constant .string t.text) }
  | .name => some { s with focus := .name t.text }
  | .and | .or | .xor | .modulo => some { s with focus := .keyword t.text }
  | .minus | .plus | .not | .bang => some { s with pending := .prefixed t.text :: s.pending }
  | .lparen => some (s.openBracket .group)
  | .lbracket => some (s.openBracket (.array []))
  | .lbrace => some { s with focus := .key [] }
  | .rparen =>
    match s.pending, s.outer with
    | [], (.call name [], ps) :: outer => some ⟨s.statements, outer, ps, .value (.call name [])⟩
    | [], (.method owner name [], ps) :: outer =>
      some ⟨s.statements, outer, ps, .value (.method owner name [])⟩
    | _, _ => none
  | .rbracket =>
    match s.pending, s.outer with
    | [], (.array [], ps) :: outer => some ⟨s.statements, outer, ps, .value (.array [])⟩
    | _, _ => none
  | _ => none

/-- A token after the operand `x`: it goes on, or it closes what is open as far as it must. -/
def stepValue (s : State) (x : SyntaxTree) (t : Token) : Option State :=
  match infixLevel? t.kind with
  | some level =>
    let (ps, x) := settle (level + 2) s.pending x
    some { s with pending := .infixed level t.text x :: ps, focus := .operand }
  | none =>
    match t.kind with
    | .lbracket => some (s.openBracket (.index x []))
    | .dot => some { s with focus := .dot x }
    | .pow => some { s with pending := .powered x :: s.pending, focus := .operand }
    | .question =>
      let (ps, x) := settle 2 s.pending x
      some ({ s with pending := ps }.openBracket (.branch x))
    | .assign =>
      let (ps, x) := settle 1 s.pending x
      some { s with pending := .assigned x :: ps, focus := .operand }
    | .colon =>
      match s.outer with
      | (.branch condition, ps) :: outer =>
        some ⟨s.statements, outer, .otherwise condition (settleAll s.pending x) :: ps, .operand⟩
      | _ => none
    | .comma =>
      let x := settleAll s.pending x
      match s.outer with
      | (.call name args, ps) :: outer =>
        some ⟨s.statements, (.call name (args ++ [x]), ps) :: outer, [], .operand⟩
      | (.array items, ps) :: outer =>
        some ⟨s.statements, (.array (items ++ [x]), ps) :: outer, [], .operand⟩
      | (.index owner indices, ps) :: outer =>
        some ⟨s.statements, (.index owner (indices ++ [x]), ps) :: outer, [], .operand⟩
      | (.method owner name args, ps) :: outer =>
        some ⟨s.statements, (.method owner name (args ++ [x]), ps) :: outer, [], .operand⟩
      | (.entry entries key, ps) :: outer =>
        some ⟨s.statements, outer, ps, .key (entries ++ [(key, x)])⟩
      | _ => none
    | .rparen =>
      let x := settleAll s.pending x
      match s.outer with
      | (.group, ps) :: outer => some ⟨s.statements, outer, ps, .value (.paren x)⟩
      | (.call name args, ps) :: outer =>
        some ⟨s.statements, outer, ps, .value (.call name (args ++ [x]))⟩
      | (.method owner name args, ps) :: outer =>
        some ⟨s.statements, outer, ps, .value (.method owner name (args ++ [x]))⟩
      | _ => none
    | .rbracket =>
      let x := settleAll s.pending x
      match s.outer with
      | (.array items, ps) :: outer =>
        some ⟨s.statements, outer, ps, .value (.array (items ++ [x]))⟩
      | (.index owner indices, ps) :: outer =>
        some ⟨s.statements, outer, ps, .value (.index owner (indices ++ [x]))⟩
      | _ => none
    | .rbrace =>
      match s.outer with
      | (.entry entries key, ps) :: outer =>
        let x := settleAll s.pending x
        some ⟨s.statements, outer, ps, .value (.object (entries ++ [(key, x)]))⟩
      | _ => none
    | .semi =>
      match s.outer with
      | [] => some ⟨s.statements ++ [settleAll s.pending x], [], [], .operand⟩
      | _ => none
    | _ => none

/-- The state after a token, or nothing if no formula goes on with it. -/
def step (s : State) (t : Token) : Option State :=
  match s.focus with
  | .operand => s.stepOperand t
  | .value x => s.stepValue x t
  | .name name =>
    if t.kind = .lparen then some (s.openBracket (.call name [])) else s.stepValue (.symbol name) t
  | .keyword name => if t.kind = .lparen then some (s.openBracket (.call name [])) else none
  | .dot owner => if t.kind = .name then some { s with focus := .member owner t.text } else none
  | .member owner name =>
    if t.kind = .lparen then some (s.openBracket (.method owner name []))
    else s.stepValue (.member owner name) t
  | .key entries =>
    match t.kind with
    | .name | .string => some { s with focus := .colon entries t.text }
    | .rbrace => if entries.isEmpty then some { s with focus := .value (.object []) } else none
    | _ => none
  | .colon entries key =>
    if t.kind = .colon then some (s.openBracket (.entry entries key)) else none

/-- The operand that the last tokens have completed, if they have. -/
def value? (s : State) : Option SyntaxTree :=
  match s.focus with
  | .value x => some x
  | .name name => some (.symbol name)
  | .member owner name => some (.member owner name)
  | _ => none

/-- The statements read, if the text may end here. A last semicolon adds nothing. -/
def statements? (s : State) : Option (List SyntaxTree) :=
  match s.outer, s.value? with
  | [], some x => some (s.statements ++ [settleAll s.pending x])
  | [], none =>
    match s.focus, s.pending, s.statements with
    | .operand, [], x :: xs => some (x :: xs)
    | _, _, _ => none
  | _ :: _, _ => none

/-- The tree of the whole text, if it may end here: a single statement stands for itself. -/
def finish? (s : State) : Option SyntaxTree :=
  match s.statements? with
  | none => none
  | some [x] => some x
  | some xs => some (.block xs)

end State

/-- Reads tokens one by one. The error is the first token that does not fit. -/
def run : State → List Token → Except Token State
  | s, [] => .ok s
  | s, t :: ts =>
    match s.step t with
    | none => .error t
    | some s => run s ts

end FormulaUpgrade.Parser

namespace FormulaUpgrade

/-! ## Texts -/

/-- Why a text is no formula. -/
inductive ParseError where
  | unexpectedToken (token : Token)
  | illegalCharacter (fault : Lexer.Fault)
  | unexpectedEnd
deriving DecidableEq, Repr

def ParseError.message : ParseError → String
  | .unexpectedToken t =>
    "Syntax error near '" ++ t.text ++ "' (type: " ++ t.kind.label ++ ") at position " ++
      toString t.start
  | .illegalCharacter fault => "Parse failed: " ++ fault.message
  | .unexpectedEnd => "Syntax error: Unexpected end of formula"

/-- The tree of a formula text. A token that does not fit is reported before an illegal character
behind it, and an illegal character before an unexpected end. -/
def SyntaxTree.parse (s : String) : Except ParseError SyntaxTree :=
  let scan := Lexer.scan s
  match Parser.run .initial scan.tokens, scan.fault with
  | .error t, _ => .error (.unexpectedToken t)
  | .ok _, some fault => .error (.illegalCharacter fault)
  | .ok state, none =>
    match state.finish? with
    | some tree => .ok tree
    | none => .error .unexpectedEnd

end FormulaUpgrade
