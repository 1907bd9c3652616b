import FormulaUpgrade.Proofs.Parser.Correctness

/-! # The first token that no formula continues with

Whatever the parser has read can be completed to a formula: a missing operand is a name, and every
open bracket can be closed. So a token that does not fit ends every formula that starts like the text.
-/

namespace FormulaUpgrade

open Token Grammar

/-! ## Words with which a formula starts -/

/-- Words with which some formula starts. -/
def Grammar.Continues (ws : List Word) : Prop :=
  ∃ rest t, Sentence (ws ++ rest) t

namespace Parser

/-! ## Completing what is open -/

/-- Words that make an operand of a focus. -/
def Focus.completion : Focus → List Word
  | .value _ | .name _ | .member .. => []
  | .operand | .dot _ => [(.name, "x")]
  | .keyword _ => [(.lparen, "("), (.rparen, ")")]
  | .key _ => [(.name, "x"), (.colon, ":"), (.name, "x"), (.rbrace, "\x7d")]
  | .colon .. => [(.colon, ":"), (.name, "x"), (.rbrace, "\x7d")]

/-- Words that close a bracket behind an operand, and make an operand of it. -/
def Bracket.completion : Bracket → List Word
  | .group | .call .. | .method .. => [(.rparen, ")")]
  | .array _ | .index .. => [(.rbracket, "]")]
  | .entry .. => [(.rbrace, "\x7d")]
  | .branch _ => [(.colon, ":"), (.name, "x")]

def State.completion (s : State) : List Word :=
  s.focus.completion ++ s.outer.flatMap fun entry => entry.1.completion

theorem feed_focus_completion (done : List SyntaxTree) (outer : List (Bracket × List Pending))
    (ps : List Pending) (focus : Focus) : ∃ next x,
      feed ⟨done, outer, ps, focus⟩ focus.completion = some ⟨done, outer, ps, next⟩ ∧
        next.tree? = some x := by
  cases focus <;> exact ⟨_, _, rfl, rfl⟩

theorem feed_bracket_completion (done : List SyntaxTree) (b : Bracket) (ps : List Pending)
    (outer : List (Bracket × List Pending)) (qs : List Pending) {focus : Focus} {x : SyntaxTree}
    (hx : focus.tree? = some x) : ∃ ps' next y,
      feed ⟨done, (b, ps) :: outer, qs, focus⟩ b.completion = some ⟨done, outer, ps', next⟩ ∧
        next.tree? = some y := by
  cases b <;>
  · rw [Bracket.completion, feed_cons, State.read_of_tree? hx (by decide)]
    exact ⟨_, _, _, rfl, rfl⟩

/-- What is open can be closed, from the innermost bracket outwards. -/
theorem feed_outer_completion (done : List SyntaxTree) (outer : List (Bracket × List Pending))
    (ps : List Pending) {focus : Focus} {x : SyntaxTree} (hx : focus.tree? = some x) :
    ∃ ps' next y,
      feed ⟨done, outer, ps, focus⟩ (outer.flatMap fun entry => entry.1.completion) =
        some ⟨done, [], ps', next⟩ ∧ next.tree? = some y := by
  induction outer generalizing ps focus x with
  | nil => exact ⟨ps, focus, x, rfl, hx⟩
  | cons entry outer ih =>
      obtain ⟨b, qs⟩ := entry
      obtain ⟨ps', next, y, hfeed, hy⟩ := feed_bracket_completion done b qs outer ps hx
      obtain ⟨ps'', last, z, hfeed', hz⟩ := ih ps' hy
      refine ⟨ps'', last, z, ?_, hz⟩
      rw [List.flatMap_cons, feed_append, hfeed, Option.bind_some, hfeed']

/-- Every state can be completed to the end of a formula. -/
theorem feed_completion (s : State) :
    ∃ last t, feed s s.completion = some last ∧ last.finish? = some t := by
  obtain ⟨done, outer, ps, focus⟩ := s
  obtain ⟨next, x, hfocus, hx⟩ := feed_focus_completion done outer ps focus
  obtain ⟨ps', last, y, houter, hy⟩ := feed_outer_completion done outer ps hx
  refine ⟨⟨done, [], ps', last⟩, statementTree (done ++ [settleAll ps' y]), ?_, ?_⟩
  · rw [State.completion, feed_append, hfocus, Option.bind_some, houter]
  · apply State.finish?_of_statements?
    simp [State.statements?, State.value?_eq_tree?, hy]

theorem spelled_completion (s : State) : ∀ w ∈ s.completion, Spelled w := by
  have hfocus (focus : Focus) : ∀ w ∈ focus.completion, Spelled w := by
    unfold Spelled
    cases focus <;> rw [Focus.completion] <;> decide
  have hbracket (b : Bracket) : ∀ w ∈ b.completion, Spelled w := by
    unfold Spelled
    cases b <;> rw [Bracket.completion] <;> decide
  intro w hw
  rw [State.completion, List.mem_append, List.mem_flatMap] at hw
  rcases hw with hw | ⟨entry, _, hw⟩
  · exact hfocus s.focus w hw
  · exact hbracket entry.1 w hw

/-- The parser reads words to their end exactly if some formula starts with them. -/
theorem continues_iff_feed {ws : List Word} (hws : ∀ w ∈ ws, Spelled w) :
    Continues ws ↔ ∃ s, feed .initial ws = some s := by
  constructor
  · rintro ⟨rest, t, hsentence⟩
    obtain ⟨last, hfeed, _⟩ := feed_of_sentence hsentence
    rw [feed_append, Option.bind_eq_some_iff] at hfeed
    obtain ⟨s, hs, _⟩ := hfeed
    exact ⟨s, hs⟩
  · rintro ⟨s, hs⟩
    obtain ⟨last, t, hfeed, ht⟩ := feed_completion s
    refine ⟨s.completion, t, sentence_of_feed ?_ ?_ ht⟩
    · exact List.forall_mem_append.mpr ⟨hws, spelled_completion s⟩
    · rw [feed_append, hs, Option.bind_some, hfeed]

/-- Words that have been read are a formula exactly if they may end where they do. -/
theorem sentence_iff_of_feed {ws : List Word} {s : State} (hws : ∀ w ∈ ws, Spelled w)
    (hfeed : feed .initial ws = some s) (t : SyntaxTree) : Sentence ws t ↔ s.finish? = some t := by
  constructor
  · intro h
    obtain ⟨last, hlast, ht⟩ := feed_of_sentence h
    obtain rfl : s = last := Option.some.inj (hfeed.symm.trans hlast)
    exact ht
  · exact sentence_of_feed hws hfeed

/-! ## The token that does not fit -/

/-- The first of the tokens that no formula continues with. -/
def FirstMisfit (tokens : List Token) (t : Token) : Prop :=
  ∃ front back, tokens = front ++ t :: back ∧ Continues (front.map Token.word) ∧
    ¬Continues ((front ++ [t]).map Token.word)

theorem run_append {s next : State} {front : List Token}
    (h : feed s (front.map Token.word) = some next) (tokens : List Token) :
    run s (front ++ tokens) = run next tokens := by
  induction front generalizing s with
  | nil =>
      obtain rfl : s = next := Option.some.inj h
      rfl
  | cons t front ih =>
      rw [List.map_cons, feed_cons, Option.bind_eq_some_iff] at h
      obtain ⟨mid, hread, hfeed⟩ := h
      rw [List.cons_append, run, State.step_eq_read, hread]
      exact ih hfeed

/-- A run that fails has read everything in front of the token that it names. -/
theorem exists_of_run_eq_error {s : State} {tokens : List Token} {t : Token}
    (h : run s tokens = .error t) : ∃ front back next, tokens = front ++ t :: back ∧
      feed s (front.map Token.word) = some next ∧ next.read t.word = none := by
  induction tokens generalizing s with
  | nil => cases h
  | cons u tokens ih =>
      rw [run] at h
      cases hstep : s.step u with
      | none =>
          rw [hstep] at h
          obtain rfl : u = t := Except.error.inj h
          exact ⟨[], tokens, s, rfl, rfl, hstep⟩
      | some next =>
          rw [hstep] at h
          obtain ⟨front, back, last, rfl, hfeed, hread⟩ := ih h
          refine ⟨u :: front, back, last, rfl, ?_, hread⟩
          rw [List.map_cons, feed_cons, ← State.step_eq_read, hstep, Option.bind_some, hfeed]

/-- Behind words that have been read, no formula continues with a word that is not read. -/
theorem not_continues_concat_iff {ws : List Word} {w : Word} {next : State}
    (hws : ∀ v ∈ ws ++ [w], Spelled v) (hfeed : feed .initial ws = some next) :
    ¬Continues (ws ++ [w]) ↔ next.read w = none := by
  rw [continues_iff_feed hws, feed_append, hfeed, Option.bind_some, feed_cons]
  cases next.read w <;> simp

/-- The parser stops at the first token that no formula continues with. -/
theorem run_eq_error_iff_firstMisfit {tokens : List Token}
    (htokens : ∀ t ∈ tokens, Spelled t.word) {t : Token} :
    run .initial tokens = .error t ↔ FirstMisfit tokens t := by
  have hspelled {front back : List Token} (h : tokens = front ++ t :: back) :
      ∀ w ∈ front.map Token.word ++ [t.word], Spelled w := by
    intro w hw
    have hw' : w ∈ (front ++ [t]).map Token.word := by
      simpa using hw
    obtain ⟨u, hu, rfl⟩ := List.mem_map.mp hw'
    refine htokens u ?_
    rw [h]
    simp only [List.mem_append, List.mem_cons] at hu ⊢
    grind
  constructor
  · intro h
    obtain ⟨front, back, next, heq, hfeed, hread⟩ := exists_of_run_eq_error h
    have hws := hspelled heq
    refine ⟨front, back, heq, ?_, ?_⟩
    · rw [continues_iff_feed fun w hw => hws w (List.mem_append_left _ hw)]
      exact ⟨next, hfeed⟩
    · rw [List.map_append, List.map_singleton]
      exact (not_continues_concat_iff hws hfeed).mpr hread
  · rintro ⟨front, back, heq, hfront, hmisfit⟩
    have hws := hspelled heq
    rw [continues_iff_feed fun w hw => hws w (List.mem_append_left _ hw)] at hfront
    obtain ⟨next, hfeed⟩ := hfront
    rw [List.map_append, List.map_singleton, not_continues_concat_iff hws hfeed] at hmisfit
    rw [heq, run_append hfeed, run, State.step_eq_read, hmisfit]

end Parser

/-! ## The report on a text -/

theorem ParseError.message_illegalCharacter (fault : Lexer.Fault) :
    (illegalCharacter fault).message = "Parse failed: Illegal character '" ++
      toString fault.char ++ "' encountered at position " ++ toString fault.index := by
  have hfront : "Parse failed: Illegal character '" =
      "Parse failed: " ++ "Illegal character '" := by
    decide
  rw [hfront]
  repeat rw [@String.append_assoc "Parse failed: "]
  rfl

end FormulaUpgrade
