import FormulaUpgrade.Proofs.Parser.Completeness
import FormulaUpgrade.Proofs.Parser.Soundness
import FormulaUpgrade.Proofs.SyntaxTree.Words

/-! # The parser and the grammar agree -/

namespace FormulaUpgrade

open Token Grammar

/-- A word that is read as itself is spelled as its kind is. -/
theorem Token.Word.Lexical.spelled {w : Word} (h : w.Lexical) : Parser.Spelled w := by
  intro entry hentry hkind
  have hkinds : ∀ entry ∈ Lexeme.fixedTexts, entry.2 ∉ [Kind.number, .string, .name] := by
    decide
  have hentry' := Word.lexical_fixed entry hentry
  have hfixed := hkinds entry hentry
  rw [hkind] at hentry' hfixed
  exact h.text_eq _ hentry' hfixed

/-- The grammar is unambiguous. -/
theorem Grammar.Sentence.unique {ws : List Word} {t t' : SyntaxTree} (h : Sentence ws t)
    (h' : Sentence ws t') : t = t' := by
  obtain ⟨s, hs, ht⟩ := Parser.feed_of_sentence h
  obtain ⟨s', hs', ht'⟩ := Parser.feed_of_sentence h'
  obtain rfl := Option.some.inj (hs.symm.trans hs')
  exact Option.some.inj (ht.symm.trans ht')

namespace SyntaxTree

theorem parse_eq_ok_iff_feed {s : String} {t : SyntaxTree} :
    parse s = .ok t ↔ ∃ ws state, Lexer.words? s.toList = some ws ∧
      Parser.feed .initial ws = some state ∧ state.finish? = some t := by
  have hwords : Lexer.words? s.toList = (Lexer.scan s).words? := rfl
  unfold parse
  rw [hwords, Lexer.Scan.words?]
  cases hrun : Parser.run .initial (Lexer.scan s).tokens with
  | error token =>
      have hfeed : ∀ state, Parser.feed .initial ((Lexer.scan s).tokens.map Token.word) ≠
          some state := by
        intro state h
        rw [(Parser.run_eq_ok_iff ..).mpr h] at hrun
        cases hrun
      cases hfault : (Lexer.scan s).fault <;> simp [hrun, hfeed]
  | ok state =>
      have hfeed := (Parser.run_eq_ok_iff ..).mp hrun
      cases hfault : (Lexer.scan s).fault with
      | some fault => simp [hrun, hfault]
      | none => cases hfinish : state.finish? <;> simp [hrun, hfault, hfeed, hfinish]

/-- The parser returns the trees of the words of a text, and none for a text with a fault. -/
theorem parse_eq_ok_iff {s : String} {t : SyntaxTree} :
    parse s = .ok t ↔ ∃ ws, Lexer.words? s.toList = some ws ∧ Sentence ws t := by
  rw [parse_eq_ok_iff_feed]
  constructor
  · rintro ⟨ws, state, hwords, hfeed, hfinish⟩
    refine ⟨ws, hwords, Parser.sentence_of_feed ?_ hfeed hfinish⟩
    intro w hw
    exact (Lexer.lexical_of_words? hwords w hw).spelled
  · rintro ⟨ws, hwords, hsentence⟩
    obtain ⟨state, hfeed, hfinish⟩ := Parser.feed_of_sentence hsentence
    exact ⟨ws, state, hwords, hfeed, hfinish⟩

/-- A text of tokens parses to a tree exactly if the grammar derives the tree from the tokens. The
grammar derives no second tree from them, and the tree spells them, but for a last semicolon. -/
theorem parse_iff_derivation (s : String) (hs : (Lexer.scan s).fault = none) (t : SyntaxTree) :
    (parse s = .ok t ↔ Sentence ((Lexer.scan s).tokens.map Token.word) t) ∧
    (∀ t', Sentence ((Lexer.scan s).tokens.map Token.word) t →
      Sentence ((Lexer.scan s).tokens.map Token.word) t' → t = t') ∧
    (parse s = .ok t → (Lexer.scan s).tokens.map Token.word = t.words ∨
      (Lexer.scan s).tokens.map Token.word = t.words ++ [(.semi, ";")]) := by
  have hwords : Lexer.words? s.toList = some ((Lexer.scan s).tokens.map Token.word) :=
    Lexer.Scan.words?_eq_some_iff.mpr ⟨hs, rfl⟩
  have hparse : parse s = .ok t ↔ Sentence ((Lexer.scan s).tokens.map Token.word) t := by
    rw [parse_eq_ok_iff, hwords]
    simp
  refine ⟨hparse, fun t' h h' => h.unique h', fun h => ?_⟩
  exact (hparse.mp h).words_eq (Lexer.lexical_of_words? hwords)

/-- A text that uses every level of the grammar, its tree, and the words that the tree spells. -/
theorem parse_iff_derivation_levels :
    let s := "x = a ? -b ^ 2 : c[1].d(2) or not [e] == \x7bk: 3\x7d;"
    let t : SyntaxTree := .assignment (.symbol "x") (.conditional (.symbol "a")
      (.operator "-" [.operator "^" [.symbol "b", .constant .number "2"]])
      (.operator "or" [
        .method (.index (.symbol "c") [.constant .number "1"]) "d" [.constant .number "2"],
        .operator "==" [.operator "not" [.array [.symbol "e"]],
          .object [("k", .constant .number "3")]]]))
    (Lexer.scan s).fault = none ∧ parse s = .ok t ∧
      Sentence ((Lexer.scan s).tokens.map Token.word) t ∧
      (Lexer.scan s).tokens.map Token.word = t.words ++ [(.semi, ";")] := by
  intro s t
  have hs : (Lexer.scan s).fault = none := by decide +kernel
  have hwords : (Lexer.scan s).tokens.map Token.word = t.words ++ [(.semi, ";")] := by
    decide +kernel
  have hscan : Lexer.words? s.toList = some (t.words ++ [(.semi, ";")]) :=
    Lexer.Scan.words?_eq_some_iff.mpr ⟨hs, hwords⟩
  have hparse : parse s = .ok t := parse_eq_ok_iff_feed.mpr ⟨_, _, hscan, rfl, rfl⟩
  exact ⟨hs, hparse, (parse_iff_derivation s hs t).1.mp hparse, hwords⟩

end SyntaxTree

end FormulaUpgrade
