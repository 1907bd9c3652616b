import FormulaUpgrade.Proofs.Token.Words

/-! # The words of a syntax tree

A tree keeps every word of its text: reading its leaves from left to right, with the punctuation of
each construct between them, gives the words back.
-/

namespace FormulaUpgrade

open Token Grammar

namespace SyntaxTree

mutual

/-- The words of a tree, from left to right. An operator without operands is a word of its own. -/
def words : SyntaxTree → List Word
  | .missing => []
  | .constant .number text => [(.number, text)]
  | .constant .string text => [(.string, text)]
  | .symbol name => [(.name, name)]
  | .call name args =>
    Word.ofText name :: (.lparen, "(") :: (commaWords (wordsOfAll args) ++ [(.rparen, ")")])
  | .operator op [] => [Word.ofText op]
  | .operator op [operand] => Word.ofText op :: operand.words
  | .operator op args => [Word.ofText op].intercalate (wordsOfAll args)
  | .paren content => (.lparen, "(") :: (content.words ++ [(.rparen, ")")])
  | .conditional condition ifTrue ifFalse =>
    condition.words ++ (.question, "?") :: (ifTrue.words ++ (.colon, ":") :: ifFalse.words)
  | .array items => (.lbracket, "[") :: (commaWords (wordsOfAll items) ++ [(.rbracket, "]")])
  | .object entries =>
    (.lbrace, "\x7b") :: (commaWords (wordsOfEntries entries) ++ [(.rbrace, "\x7d")])
  | .assignment target value => target.words ++ (.assign, "=") :: value.words
  | .index owner indices =>
    owner.words ++ (.lbracket, "[") :: (commaWords (wordsOfAll indices) ++ [(.rbracket, "]")])
  | .member owner name => owner.words ++ [(.dot, "."), (.name, name)]
  | .method owner name args =>
    owner.words ++ (.dot, ".") :: (.name, name) :: (.lparen, "(") ::
      (commaWords (wordsOfAll args) ++ [(.rparen, ")")])
  | .block statements => [(.semi, ";")].intercalate (wordsOfAll statements)

def wordsOfAll : List SyntaxTree → List (List Word)
  | [] => []
  | tree :: trees => tree.words :: wordsOfAll trees

def wordsOfEntries : List (String × SyntaxTree) → List (List Word)
  | [] => []
  | (key, value) :: entries =>
    (Word.ofText key :: (.colon, ":") :: value.words) :: wordsOfEntries entries

end

theorem wordsOfAll_eq_map (trees : List SyntaxTree) : wordsOfAll trees = trees.map words := by
  induction trees with
  | nil => rfl
  | cons tree trees ih => rw [wordsOfAll, ih, List.map_cons]

theorem words_binary (op : String) (x y : SyntaxTree) :
    (operator op [x, y]).words = x.words ++ Word.ofText op :: y.words := by
  simp [words, wordsOfAll]

theorem wordsOfAll_items {items : List Item} (h : ∀ item ∈ items, item.2.words = item.1) :
    wordsOfAll (items.map Prod.snd) = items.map Prod.fst := by
  induction items with
  | nil => rfl
  | cons item items ih =>
      rw [List.forall_mem_cons] at h
      rw [List.map_cons, wordsOfAll, h.1, ih h.2, List.map_cons]

theorem wordsOfEntries_entries {entries : List (Word × Item)}
    (hkeys : ∀ entry ∈ entries, entry.1.Lexical)
    (h : ∀ entry ∈ entries, entry.2.2.words = entry.2.1) :
    wordsOfEntries (entries.map entryTree) = entries.map entryWords := by
  induction entries with
  | nil => rfl
  | cons entry entries ih =>
      rw [List.forall_mem_cons] at hkeys h
      rw [List.map_cons, entryTree, wordsOfEntries, hkeys.1.ofText_eq, h.1, ih hkeys.2 h.2]
      rfl

end SyntaxTree

namespace Grammar

open SyntaxTree

theorem forall_mem_of_intercalate {sep : Word} {P : Word → Prop} {parts : List (List Word)}
    (h : ∀ w ∈ [sep].intercalate parts, P w) : ∀ part ∈ parts, ∀ w ∈ part, P w := by
  induction parts with
  | nil => simp
  | cons part parts ih =>
      cases parts with
      | nil => simpa using h
      | cons next parts =>
          simp only [List.intercalate_cons_cons, List.forall_mem_append] at h
          exact List.forall_mem_cons.mpr ⟨h.1.1, ih h.2⟩

theorem forall_mem_items {P : Word → Prop} {items : List Item}
    (h : ∀ w ∈ commaWords (items.map Prod.fst), P w) : ∀ item ∈ items, ∀ w ∈ item.1, P w := by
  intro item hitem
  exact forall_mem_of_intercalate h _ (List.mem_map_of_mem hitem)

theorem forall_mem_entries {P : Word → Prop} {entries : List (Word × Item)}
    (h : ∀ w ∈ commaWords (entries.map entryWords), P w) :
    ∀ entry ∈ entries, P entry.1 ∧ ∀ w ∈ entry.2.1, P w := by
  intro entry hentry
  have hwords := forall_mem_of_intercalate h _ (List.mem_map_of_mem hentry)
  simp only [entryWords, List.forall_mem_cons] at hwords
  exact ⟨hwords.1, hwords.2.2⟩

/-- The tree of words that are read as themselves has just these words. -/
theorem Derives.words_eq {ℓ : Level} {ws : List Word} {t : SyntaxTree} (h : Derives ℓ ws t)
    (hws : ∀ w ∈ ws, w.Lexical) : t.words = ws := by
  induction h with
  | tighter _ ih => exact ih hws
  | assignment _ _ ihx ihy =>
      rw [List.forall_mem_append, List.forall_mem_cons] at hws
      rw [words, ihx hws.1, ihy hws.2.2]
  | conditional _ _ _ ihc ihx ihy =>
      simp only [List.forall_mem_append, List.forall_mem_cons] at hws
      rw [words, ihc hws.1, ihx hws.2.2.1, ihy hws.2.2.2.2]
  | infixed _ _ _ ihx ihy =>
      rw [List.forall_mem_append, List.forall_mem_cons] at hws
      rw [words_binary, ihx hws.1, ihy hws.2.2, hws.2.1.ofText_eq]
  | prefixed _ _ ih =>
      rw [List.forall_mem_cons] at hws
      rw [words, ih hws.2, hws.1.ofText_eq]
  | power _ _ ihx ihy =>
      rw [List.forall_mem_append, List.forall_mem_cons] at hws
      rw [words_binary, ihx hws.1, ihy hws.2.2, hws.2.1.ofText_eq]
  | index _ _ _ ihx ihitems =>
      simp only [List.forall_mem_append, List.forall_mem_cons] at hws
      have hitems := forall_mem_items hws.2.2.1
      rw [words, ihx hws.1, wordsOfAll_items fun item h => ihitems item h (hitems item h)]
  | member _ ih =>
      rw [List.forall_mem_append] at hws
      rw [words, ih hws.1]
  | method _ _ ihx ihitems =>
      simp only [List.forall_mem_append, List.forall_mem_cons] at hws
      have hitems := forall_mem_items hws.2.2.2.2.1
      rw [words, ihx hws.1, wordsOfAll_items fun item h => ihitems item h (hitems item h)]
  | number => rfl
  | string => rfl
  | symbol => rfl
  | paren _ ih =>
      simp only [List.forall_mem_append, List.forall_mem_cons] at hws
      rw [words, ih hws.2.1]
  | call _ _ ihitems =>
      simp only [List.forall_mem_append, List.forall_mem_cons] at hws
      have hitems := forall_mem_items hws.2.2.1
      rw [words, hws.1.ofText_eq, wordsOfAll_items fun item h => ihitems item h (hitems item h)]
  | array _ ihitems =>
      simp only [List.forall_mem_append, List.forall_mem_cons] at hws
      have hitems := forall_mem_items hws.2.1
      rw [words, wordsOfAll_items fun item h => ihitems item h (hitems item h)]
  | object _ _ ihentries =>
      simp only [List.forall_mem_append, List.forall_mem_cons] at hws
      have hentries := forall_mem_entries hws.2.1
      rw [words, wordsOfEntries_entries (fun entry h => (hentries entry h).1)
        fun entry h => ihentries entry h (hentries entry h).2]

theorem words_statementTree {items : List Item} (hne : items ≠ [])
    (hitems : ∀ item ∈ items, Derives .assignment item.1 item.2)
    (hws : ∀ w ∈ statementWords items, w.Lexical) :
    (statementTree (items.map Prod.snd)).words = statementWords items := by
  have hwords : ∀ item ∈ items, item.2.words = item.1 := fun item h =>
    (hitems item h).words_eq (forall_mem_of_intercalate hws _ (List.mem_map_of_mem h))
  match items, hne with
  | [item], _ => simpa [statementTree] using hwords
  | item :: next :: rest, _ =>
    rw [List.map_cons, List.map_cons, statementTree, ← List.map_cons, ← List.map_cons, words,
      wordsOfAll_items hwords]
    · rfl
    · simp

/-- The tree of a formula has the words of the formula, but for a last semicolon. -/
theorem Sentence.words_eq {ws : List Word} {t : SyntaxTree} (h : Sentence ws t)
    (hws : ∀ w ∈ ws, w.Lexical) : ws = t.words ∨ ws = t.words ++ [(.semi, ";")] := by
  cases h with
  | statements hne hitems => exact .inl (words_statementTree hne hitems hws).symm
  | ended hne hitems =>
      rw [List.forall_mem_append] at hws
      exact .inr (by rw [words_statementTree hne hitems hws.1])

end Grammar

end FormulaUpgrade
