import FormulaUpgrade.Proofs.Conversion.Derivation

/-! # Converted texts that do not parse

A minus sign without an operand is left in front of what closes an argument or a group, or alone.
No formula goes on with either.
-/

namespace FormulaUpgrade

open Token Grammar

/-! ## A sign in front of what closes -/

/-- The words that close an argument, a group or a list. -/
def Parser.closing : List Kind :=
  [.comma, .rparen, .rbracket]

/-- Words in which a minus sign stands in front of a word that closes. -/
def Parser.Dangles (ws : List Word) : Prop :=
  ∃ before w after, w.1 ∈ closing ∧ ws = before ++ (.minus, "-") :: w :: after

namespace Parser

theorem Dangles.mono {v ws : List Word} (h : Dangles v) (hv : v <:+: ws) : Dangles ws := by
  obtain ⟨before, w, after, hw, rfl⟩ := h
  obtain ⟨front, back, rfl⟩ := hv
  exact ⟨front ++ before, w, after ++ back, hw, by simp⟩

/-- A minus sign waits for its operand. -/
theorem State.waits_of_read_minus {s s' : State} {op : String}
    (h : s.read (.minus, op) = some s') : s'.focus = .operand ∧ s'.pending ≠ [] := by
  have hvalue : ∀ {x}, s.stepValue x ⟨.minus, op, 0⟩ = some s' →
      s'.focus = .operand ∧ s'.pending ≠ [] := by
    intro x h
    obtain rfl : _ = s' := by simpa [stepValue, infixLevel?] using h
    exact ⟨rfl, by simp⟩
  unfold read step at h
  split at h
  next hfocus =>
    obtain rfl : _ = s' := by simpa [stepOperand] using h
    exact ⟨hfocus, by simp⟩
  next => exact hvalue h
  next => exact hvalue (by simpa using h)
  next => simp at h
  next => simp at h
  next => exact hvalue (by simpa using h)
  next => simp at h
  next => simp at h

theorem State.read_closing_of_waits {s : State} {w : Word} (hfocus : s.focus = .operand)
    (hpending : s.pending ≠ []) (hw : w.1 ∈ closing) : s.read w = none := by
  simp only [closing, List.mem_cons, List.not_mem_nil, or_false] at hw
  unfold read step
  rw [hfocus]
  rcases hw with hw | hw | hw <;> simp only [stepOperand, hw] <;> split <;> simp_all

theorem feed_of_dangles {ws : List Word} (h : Dangles ws) (s : State) : feed s ws = none := by
  obtain ⟨before, w, after, hw, rfl⟩ := h
  rw [feed_append]
  cases hbefore : feed s before with
  | none => rfl
  | some s₁ =>
      cases hminus : s₁.read (.minus, "-") with
      | none => simp [hminus]
      | some s₂ =>
          obtain ⟨hfocus, hpending⟩ := State.waits_of_read_minus hminus
          simp [hminus, State.read_closing_of_waits hfocus hpending hw]

end Parser

/-! ## Where a sign is left -/

namespace Formula

open Conversion FormulaUpgrade.Parser SyntaxTree

/-- A minus sign without an operand, or a formula with one inside. -/
def Broken (f : Formula) : Prop :=
  f = .function "unaryMinus" [] ∨ Dangles f.convertedTree.words

theorem Broken.dangles_operand {f : Formula} (h : Broken f) : Dangles f.operandTree.words := by
  rcases h with rfl | h
  · exact ⟨[(.lparen, "(")], (.rparen, ")"), [], by decide, rfl⟩
  · refine h.mono ?_
    unfold operandTree grouped
    split
    · exact ⟨[(.lparen, "(")], [(.rparen, ")")], by simp [words]⟩
    · exact List.infix_refl _

/-- A broken argument, in front of a comma or of what closes the arguments. -/
theorem dangles_commaWords {fs : List Formula} {f : Formula} (hf : f ∈ fs) (h : Broken f)
    {close : Word} (hclose : close.1 ∈ closing) :
    Dangles (commaWords (wordsOfAll (convertedTrees fs)) ++ [close]) := by
  induction fs with
  | nil => cases hf
  | cons g fs ih =>
      have hwords : commaWords (wordsOfAll (convertedTrees (g :: fs))) ++ [close] =
          g.convertedTree.words ++ match fs with
            | [] => [close]
            | _ :: _ => (.comma, ",") ::
              (commaWords (wordsOfAll (convertedTrees fs)) ++ [close]) := by
        cases fs <;> simp [commaWords, convertedTrees, wordsOfAll]
      rw [hwords]
      rcases List.mem_cons.mp hf with rfl | hf
      · rcases h with rfl | h
        · cases fs with
          | nil => exact ⟨[], close, [], hclose, rfl⟩
          | cons next fs => exact ⟨[], (.comma, ","), _, by decide, rfl⟩
        · exact h.mono (List.prefix_append _ _).isInfix
      · cases fs with
        | nil => cases hf
        | cons next fs =>
            refine (ih hf).mono (List.IsSuffix.isInfix ?_)
            exact ⟨g.convertedTree.words ++ [(.comma, ",")], by simp⟩

theorem dangles_call {fs : List Formula} {f : Formula} (hf : f ∈ fs) (h : Broken f)
    (name : String) : Dangles (SyntaxTree.call name (convertedTrees fs)).words := by
  have hargs := dangles_commaWords hf h (by decide : ((.rparen, ")") : Word).1 ∈ closing)
  refine hargs.mono (List.IsSuffix.isInfix ⟨[Word.ofText name, (.lparen, "(")], ?_⟩)
  simp [words]

theorem dangles_binary {op : String} {x y : SyntaxTree} (h : Dangles x.words ∨ Dangles y.words) :
    Dangles (SyntaxTree.binary op x y).words := by
  rw [words_binaryTree]
  rcases h with h | h
  · exact h.mono (List.prefix_append _ _).isInfix
  · exact h.mono (List.IsSuffix.isInfix ⟨x.words ++ [Word.ofText op], by simp⟩)

theorem dangles_operator {op : String} {f g : Formula}
    (h : Dangles f.operandTree.words ∨ Dangles g.operandTree.words) :
    Dangles (operator op [f, g]).convertedTree.words := by
  rw [convertedTree_operator op (by simp)]
  exact dangles_binary h

theorem dangles_join {fs : List Formula} {f : Formula} (hf : f ∈ fs) (h : Broken f) :
    Dangles (specialTree .join fs (convertedTrees fs)).words := by
  cases fs with
  | nil => cases hf
  | cons separator values =>
      have hwords : (specialTree .join (separator :: values)
          (convertedTrees (separator :: values))).words =
          Word.ofText "join" :: (.lparen, "(") :: (.lbracket, "[") ::
            ((commaWords (wordsOfAll (convertedTrees values)) ++ [(.rbracket, "]")]) ++
              (.comma, ",") :: (separator.convertedTree.words ++ [(.rparen, ")")])) := by
        simp [specialTree, convertedTrees, words, wordsOfAll, commaWords]
      rw [hwords]
      rcases List.mem_cons.mp hf with rfl | hf
      · have hseparator := @dangles_commaWords [f] f (by simp) h (.rparen, ")") (by decide)
        refine hseparator.mono (List.IsSuffix.isInfix ⟨Word.ofText "join" :: (.lparen, "(") ::
          (.lbracket, "[") :: (commaWords (wordsOfAll (convertedTrees values)) ++
            [(.rbracket, "]"), (.comma, ",")]), ?_⟩)
        simp [convertedTrees, wordsOfAll, commaWords]
      · have hvalues := @dangles_commaWords values f hf h (.rbracket, "]") (by decide)
        exact hvalues.mono ⟨[Word.ofText "join", (.lparen, "("), (.lbracket, "[")], _, rfl⟩

theorem Broken.sign {f : Formula} (h : Broken f) (sign : String) :
    Dangles (SyntaxTree.operator sign [f.operandTree]).words :=
  h.dangles_operand.mono (List.IsSuffix.isInfix ⟨[Word.ofText sign], rfl⟩)

/-- A call, of `unaryMinus` apart, is broken if an argument is. -/
theorem broken_function {name : String} {fs : List Formula} {f : Formula}
    (hname : name ≠ "unaryMinus") (hcount : ∀ op, treatment name = .operator op → fs.length = 2)
    (hf : f ∈ fs) (h : Broken f) : Broken (.function name fs) := by
  have hadjusted : ∀ op name number, Dangles (SyntaxTree.operator op
      [.call name (convertedTrees fs), .constant .number number]).words := by
    intro op name number
    rw [words_binary]
    exact (dangles_call hf h name).mono (List.prefix_append _ _).isInfix
  refine .inr ?_
  rw [convertedTree, functionTree]
  cases htreatment : treatment name with
  | renamed | unchanged => exact dangles_call hf h _
  | operator op =>
      obtain ⟨first, second, rfl⟩ := eq_pair_of_length (hcount op htreatment)
      refine dangles_binary ?_
      simp only [List.mem_cons, List.not_mem_nil, or_false] at hf
      rcases hf with rfl | rfl
      · exact .inl h.dangles_operand
      · exact .inr h.dangles_operand
  | special special =>
      obtain rfl := name_of_special htreatment
      cases special with
      | unaryMinus => exact absurd rfl hname
      | unaryPlus => exact dangles_call hf h _
      | day | month => exact hadjusted ..
      | join => exact dangles_join hf h

theorem broken_prefixed {kind : Token.Kind} {op : String} {f : Formula}
    (hkind : kind ∈ prefixKinds) (hop : Word.Lexical (kind, op)) (h : Broken f) :
    Broken (.operator op [f]) := by
  refine .inr ?_
  rcases prefixed_spelling hkind hop with
    ⟨rfl, rfl⟩ | ⟨rfl, rfl⟩ | ⟨rfl, rfl⟩ | ⟨rfl, rfl⟩
  · exact h.sign _
  · exact @dangles_call [f] f (by simp) h _
  · exact h.sign _
  · exact h.sign _

theorem words_isInfix_call {x : SyntaxTree} {xs : List SyntaxTree} (hx : x ∈ xs) (name : String) :
    x.words <:+: (call name xs).words := by
  have hargs : x.words <:+: commaWords (wordsOfAll xs) := by
    induction xs with
    | nil => cases hx
    | cons y ys ih =>
        match ys, List.mem_cons.mp hx with
        | [], .inl h => simp [h, commaWords, wordsOfAll]
        | next :: rest, .inl h =>
          refine ⟨[], (.comma, ",") :: commaWords (wordsOfAll (next :: rest)), ?_⟩
          simp [h, commaWords, wordsOfAll]
        | next :: rest, .inr h =>
          refine (ih h).trans (List.IsSuffix.isInfix ⟨y.words ++ [(.comma, ",")], ?_⟩)
          simp [commaWords, wordsOfAll]
  exact hargs.trans ⟨[Word.ofText name, (.lparen, "(")], [(.rparen, ")")], by simp [words]⟩

theorem broken_conditional {condition ifTrue ifFalse f : Formula}
    (hf : f ∈ [condition, ifTrue, ifFalse]) (h : Broken f) :
    Broken (.conditional condition ifTrue ifFalse) := by
  have hmem := List.mem_map_of_mem (f := operandTree) hf
  exact .inr (h.dangles_operand.mono (words_isInfix_call hmem "if"))

/-- A minus sign that is kept without an operand is left without one. -/
theorem Normalizes.broken [Host] {declared : Property.Declared} {t : SyntaxTree} {f : Formula}
    (h : Normalizes declared t f) (hkept : Kept (.call "unaryMinus" []) t) : Broken f := by
  induction h with
  | number | string | symbol => simp at hkept
  | property =>
      rw [kept_iff] at hkept
      simp [keptChildren] at hkept
  | @function kind name args hkind hname _ hcount _ ih =>
      rcases kept_iff.mp hkept with heq | ⟨y, hy, hkept⟩
      · obtain ⟨rfl, hargs⟩ := SyntaxTree.call.inj heq
        obtain rfl : args = [] := by simpa using hargs.symm
        exact .inl rfl
      · by_cases hminus : name = "unaryMinus"
        · subst hminus
          cases args with
          | nil => cases hy
          | cons arg args =>
              obtain rfl : y = arg.1 := by simpa [keptChildren] using hy
              exact .inr ((ih arg (by simp) hkept).sign "-")
        · rw [keptChildren, if_neg hminus] at hy
          obtain ⟨arg, harg, rfl⟩ := List.mem_map.mp hy
          exact broken_function hminus (by simpa using hcount) (List.mem_map_of_mem harg)
            (ih arg harg hkept)
  | prefixed hkind hop _ ih => exact broken_prefixed hkind hop (ih (by simpa using hkept))
  | infixed _ _ _ _ ihx ihy | power _ _ ihx ihy =>
      simp only [kept_call_operator, List.mem_cons, List.not_mem_nil, or_false, exists_eq_or_imp,
        exists_eq_left] at hkept
      rcases hkept with h | h
      · exact .inr (dangles_operator (.inl (ihx h).dangles_operand))
      · exact .inr (dangles_operator (.inr (ihy h).dangles_operand))
  | continued _ _ _ hlength _ ihx ihy =>
      simp only [kept_call_operator, List.mem_cons, List.not_mem_nil, or_false, exists_eq_or_imp,
        exists_eq_left] at hkept
      refine .inr ?_
      rw [convertedTree_concat _ hlength]
      rcases hkept with h | h
      · rcases ihx h with hbare | hdangles
        · cases hbare
        · exact dangles_binary (.inl hdangles)
      · exact dangles_binary (.inr (ihy h).dangles_operand)
  | paren _ ih => exact ih (by simpa using hkept)
  | conditional _ _ _ ihc ihx ihy =>
      rw [kept_call_conditional] at hkept
      rcases hkept with h | h | h
      · exact broken_conditional (by simp) (ihc h)
      · exact broken_conditional (by simp) (ihx h)
      · exact broken_conditional (by simp) (ihy h)

/-- The converted text of a tree without issues parses exactly if the tree is complete. -/
theorem Normalizes.parses_iff [Host] {declared : Property.Declared} {t : SyntaxTree} {f : Formula}
    (h : Normalizes declared t f) :
    (∃ out, SyntaxTree.parse f.convertedText = .ok out) ↔ t.Complete := by
  constructor
  · rintro ⟨out, hout⟩ hkept
    obtain ⟨ws, state, hwords, hfeed, hfinish⟩ := parse_eq_ok_iff_feed.mp hout
    obtain rfl := Option.some.inj (h.prints.words?.symm.trans hwords)
    rcases h.broken hkept with rfl | hdangles
    · obtain rfl : _ = state := Option.some.inj hfeed
      cases hfinish
    · rw [feed_of_dangles hdangles] at hfeed
      cases hfeed
  · intro hcomplete
    exact ⟨_, h.parse_convertedText hcomplete⟩

end Formula

end FormulaUpgrade
