import FormulaUpgrade.SyntaxTree.Parser

/-! # The grammar of formulas

A stratified grammar that says which sequences of tokens are formulas, and of which trees. It knows
nothing of the parser: every rule joins the words of its parts.
-/

namespace FormulaUpgrade

/-- A token without its place in the text. -/
abbrev Token.Word := Token.Kind × String

def Token.word (t : Token) : Token.Word :=
  (t.kind, t.text)

namespace Grammar

open Token

/-! ## Levels -/

/-- The levels of expressions, from loose to tight. -/
inductive Level where
  | assignment | conditional
  | or | xor | and | comparison | sum | product
  | prefixed | power | postfixed | primary
deriving DecidableEq, Repr

namespace Level

/-- Tighter levels have higher ranks. -/
def rank : Level → Nat
  | .assignment => 0 | .conditional => 1
  | .or => 2 | .xor => 3 | .and => 4 | .comparison => 5 | .sum => 6 | .product => 7
  | .prefixed => 8 | .power => 9 | .postfixed => 10 | .primary => 11

/-- The next tighter level. Nothing is tighter than a primary expression. -/
def next : Level → Level
  | .assignment => .conditional | .conditional => .or
  | .or => .xor | .xor => .and | .and => .comparison | .comparison => .sum | .sum => .product
  | .product => .prefixed | .prefixed => .power | .power => .postfixed
  | .postfixed => .primary | .primary => .primary

/-- The operators that stand between two operands of a level. -/
def operators : Level → List Kind
  | .or => [.or]
  | .xor => [.xor]
  | .and => [.and]
  | .comparison => [.eq, .ne, .lt, .le, .gt, .ge]
  | .sum => [.plus, .minus]
  | .product => [.times, .divide, .mod, .modulo]
  | _ => []

theorem rank_le_rank_next (ℓ : Level) : ℓ.rank ≤ ℓ.next.rank := by
  cases ℓ <;> decide

theorem rank_next_of_lt {a b : Level} (h : a.rank < b.rank) : a.next.rank = a.rank + 1 := by
  revert h
  cases a <;> cases b <;> decide

theorem eq_of_rank_eq {a b : Level} (h : a.rank = b.rank) : a = b := by
  revert h
  cases a <;> cases b <;> decide

end Level

/-- The operators that stand in front of their operand. -/
def prefixKinds : List Kind :=
  [.minus, .plus, .not, .bang]

/-- The words that may be called. -/
def callableKinds : List Kind :=
  [.name, .and, .or, .xor, .modulo]

/-- The words that may be the key of an entry. -/
def keyKinds : List Kind :=
  [.name, .string]

/-! ## Derivations -/

/-- An expression among others: its words and its tree. -/
abbrev Item := List Word × SyntaxTree

/-- Lists of words with commas between them. -/
def commaWords (parts : List (List Word)) : List Word :=
  [(.comma, ",")].intercalate parts

@[simp] theorem commaWords_nil : commaWords [] = [] :=
  rfl

@[simp] theorem commaWords_singleton (part : List Word) : commaWords [part] = part := by
  simp [commaWords]

@[simp] theorem commaWords_cons_cons (part next : List Word) (rest : List (List Word)) :
    commaWords (part :: next :: rest) = part ++ (.comma, ",") :: commaWords (next :: rest) := by
  simp [commaWords]

/-- The words of an entry of an object. -/
def entryWords (entry : Word × Item) : List Word :=
  entry.1 :: (.colon, ":") :: entry.2.1

/-- The key and the tree of an entry. -/
def entryTree (entry : Word × Item) : String × SyntaxTree :=
  (entry.1.2, entry.2.2)

/-- The words of an expression of a level, and its tree. -/
inductive Derives : Level → List Word → SyntaxTree → Prop where
  | tighter {ℓ ws t} : Derives (Level.next ℓ) ws t → Derives ℓ ws t
  | assignment {v w x y} : Derives .conditional v x → Derives .assignment w y →
      Derives .assignment (v ++ (.assign, "=") :: w) (.assignment x y)
  | conditional {u v w c x y} : Derives .or u c → Derives .assignment v x →
      Derives .conditional w y →
      Derives .conditional (u ++ (.question, "?") :: (v ++ (.colon, ":") :: w)) (.conditional c x y)
  | infixed {ℓ kind op v w x y} : kind ∈ Level.operators ℓ → Derives ℓ v x → Derives ℓ.next w y →
      Derives ℓ (v ++ (kind, op) :: w) (.operator op [x, y])
  | prefixed {kind op w x} : kind ∈ prefixKinds → Derives .prefixed w x →
      Derives .prefixed ((kind, op) :: w) (.operator op [x])
  | power {v w x y} : Derives .postfixed v x → Derives .prefixed w y →
      Derives .power (v ++ (.pow, "^") :: w) (.operator "^" [x, y])
  | index {v x} {items : List Item} : Derives .postfixed v x → items ≠ [] →
      (∀ item ∈ items, Derives .assignment item.1 item.2) →
      Derives .postfixed
        (v ++ (.lbracket, "[") :: (commaWords (items.map Prod.fst) ++ [(.rbracket, "]")]))
        (.index x (items.map Prod.snd))
  | member {v x name} : Derives .postfixed v x →
      Derives .postfixed (v ++ [(.dot, "."), (.name, name)]) (.member x name)
  | method {v x name} {items : List Item} : Derives .postfixed v x →
      (∀ item ∈ items, Derives .assignment item.1 item.2) →
      Derives .postfixed
        (v ++ (.dot, ".") :: (.name, name) :: (.lparen, "(") ::
          (commaWords (items.map Prod.fst) ++ [(.rparen, ")")]))
        (.method x name (items.map Prod.snd))
  | number {text} : Derives .primary [(.number, text)] (.constant .number text)
  | string {text} : Derives .primary [(.string, text)] (.constant .string text)
  | symbol {name} : Derives .primary [(.name, name)] (.symbol name)
  | paren {w x} : Derives .assignment w x →
      Derives .primary ((.lparen, "(") :: (w ++ [(.rparen, ")")])) (.paren x)
  | call {kind name} {items : List Item} : kind ∈ callableKinds →
      (∀ item ∈ items, Derives .assignment item.1 item.2) →
      Derives .primary
        ((kind, name) :: (.lparen, "(") :: (commaWords (items.map Prod.fst) ++ [(.rparen, ")")]))
        (.call name (items.map Prod.snd))
  | array {items : List Item} : (∀ item ∈ items, Derives .assignment item.1 item.2) →
      Derives .primary ((.lbracket, "[") :: (commaWords (items.map Prod.fst) ++ [(.rbracket, "]")]))
        (.array (items.map Prod.snd))
  | object {entries : List (Word × Item)} : (∀ entry ∈ entries, entry.1.1 ∈ keyKinds) →
      (∀ entry ∈ entries, Derives .assignment entry.2.1 entry.2.2) →
      Derives .primary
        ((.lbrace, "\x7b") :: (commaWords (entries.map entryWords) ++ [(.rbrace, "\x7d")]))
        (.object (entries.map entryTree))

/-- An expression of a tight level is one of every looser level. -/
theorem Derives.loosen {a b : Level} {ws : List Word} {t : SyntaxTree} (h : Derives b ws t)
    (hrank : a.rank ≤ b.rank) : Derives a ws t := by
  obtain ⟨n, hn⟩ : ∃ n, b.rank - a.rank = n := ⟨_, rfl⟩
  induction n generalizing a with
  | zero =>
      have hab : a = b := Level.eq_of_rank_eq (by omega)
      exact hab ▸ h
  | succ n ih =>
      have hnext : a.next.rank = a.rank + 1 := Level.rank_next_of_lt (b := b) (by omega)
      exact .tighter (ih (by omega) (by omega))

/-! ## Formulas -/

/-- The words of statements with semicolons between them. -/
def statementWords (items : List Item) : List Word :=
  [(.semi, ";")].intercalate (items.map Prod.fst)

@[simp] theorem statementWords_singleton (item : Item) : statementWords [item] = item.1 := by
  simp [statementWords]

@[simp] theorem statementWords_cons_cons (item next : Item) (rest : List Item) :
    statementWords (item :: next :: rest) =
      item.1 ++ (.semi, ";") :: statementWords (next :: rest) := by
  simp [statementWords]

/-- The tree of statements. A single statement stands for itself. -/
def statementTree : List SyntaxTree → SyntaxTree
  | [x] => x
  | xs => .block xs

/-- The words of a formula, and its tree. A last semicolon adds nothing. -/
inductive Sentence : List Word → SyntaxTree → Prop where
  | statements {items} : items ≠ [] → (∀ item ∈ items, Derives .assignment item.1 item.2) →
      Sentence (statementWords items) (statementTree (items.map Prod.snd))
  | ended {items} : items ≠ [] → (∀ item ∈ items, Derives .assignment item.1 item.2) →
      Sentence (statementWords items ++ [(.semi, ";")]) (statementTree (items.map Prod.snd))

theorem Sentence.of_derives {ws : List Word} {t : SyntaxTree} (h : Derives .assignment ws t) :
    Sentence ws t := by
  have hs := @Sentence.statements [(ws, t)] (by simp) (by simpa using h)
  simpa [statementTree] using hs

/-- A formula is one expression, with or without a last semicolon, or a block. -/
theorem Sentence.single_or_block {ws : List Word} {t : SyntaxTree} (h : Sentence ws t) :
    (∃ v, Derives .assignment v t ∧ ∀ w ∈ v, w ∈ ws) ∨ ∃ statements, t = .block statements := by
  have hitems : ∀ {items : List Item}, items ≠ [] →
      (∀ item ∈ items, Derives .assignment item.1 item.2) →
      (∃ v, Derives .assignment v (statementTree (items.map Prod.snd)) ∧
        ∀ w ∈ v, w ∈ statementWords items) ∨
      ∃ statements, statementTree (items.map Prod.snd) = .block statements := by
    intro items hne hitems
    match items, hne with
    | [item], _ => exact .inl ⟨item.1, hitems item (by simp), by simp⟩
    | _ :: _ :: _, _ => exact .inr ⟨_, rfl⟩
  cases h with
  | statements hne h => exact hitems hne h
  | ended hne h =>
      rcases hitems hne h with ⟨v, hv, hwords⟩ | hblock
      · exact .inl ⟨v, hv, fun w hw => List.mem_append_left _ (hwords w hw)⟩
      · exact .inr hblock

end Grammar

end FormulaUpgrade
