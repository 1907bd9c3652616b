import FormulaUpgrade.Proofs.Conversion.Outcome
import FormulaUpgrade.Proofs.Token.Classes

/-! # Layouts of a formula

The same words with other blanks between them are the same formula.
-/

namespace FormulaUpgrade

open Token Lexeme Pattern

/-! ## Words that their patterns match -/

namespace Lexeme

theorem sign_of_matches {s ds : List Char} (hs : (opt signPattern).Matches s)
    (hds : ∀ c ∈ ds, Text.isDecimalDigit c) (hne : ds ≠ []) : sign (s ++ ds) = (s, ds) := by
  simp only [signPattern, matches_opt_iff, matches_one_iff, Bool.or_eq_true, beq_iff_eq] at hs
  rcases hs with ⟨c, rfl | rfl, rfl⟩ | rfl
  · rfl
  · rfl
  · simpa [sign] using @sign_reread [] ds [] hds hne

/-- An exponent is read as a whole, and it starts with its letter. -/
theorem exponent_of_matches {e : List Char} (h : exponentPattern.Matches e) :
    exponent e = (e, []) ∧ ∀ c ∈ e.head?, c = 'e' ∨ c = 'E' := by
  rw [exponentPattern, matches_opt_iff] at h
  cases e with
  | nil => exact ⟨rfl, by simp⟩
  | cons c e =>
      simp only [matches_seq_one_cons, Bool.or_eq_true, beq_iff_eq, reduceCtorEq, or_false] at h
      obtain ⟨hc, hrest⟩ := h
      obtain ⟨s, ds, hs, hdigits, rfl⟩ := matches_seq_iff.mp hrest
      obtain ⟨hne, hds⟩ := matches_plus_one_iff.mp hdigits
      have htake := @takeWhile_of_stops _ ds [] hds (by simp)
      have hdrop := @dropWhile_of_stops _ ds [] hds (by simp)
      rw [List.append_nil] at htake hdrop
      refine ⟨?_, by simpa using hc⟩
      rw [exponent, if_pos hc, sign_of_matches hs hds hne]
      simp only [htake, hdrop, List.cons_append]

theorem mantissa?_of_matches {m e : List Char} (h : mantissaPattern.Matches m)
    (he : ∀ c ∈ e.head?, c = 'e' ∨ c = 'E') : mantissa? (m ++ e) = some (m, e) := by
  have hstops : Stops Text.isDecimalDigit e := by
    intro c hc
    rcases he c hc with rfl | rfl <;> decide
  have hpoint : e.head? ≠ some '.' := by
    intro hc
    simpa using he '.' hc
  rw [mantissaPattern, matches_alt_iff] at h
  rcases h with h | h
  · obtain ⟨ds, f, hdigits, hf, rfl⟩ := matches_seq_iff.mp h
    obtain ⟨hne, hds⟩ := matches_plus_one_iff.mp hdigits
    rw [matches_opt_iff] at hf
    cases f with
    | nil => simpa using mantissa?_whole hds hne hstops hpoint
    | cons c f =>
        simp only [char, matches_seq_one_cons, matches_many_one_iff, beq_iff_eq, reduceCtorEq,
          or_false] at hf
        obtain ⟨rfl, hfs⟩ := hf
        simpa using mantissa?_fraction hds hfs (.inl hne) hstops
  · cases m with
    | nil => simp [char] at h
    | cons c m =>
        simp only [char, matches_seq_one_cons, beq_iff_eq] at h
        obtain ⟨rfl, hdigits⟩ := h
        obtain ⟨hne, hds⟩ := matches_plus_one_iff.mp hdigits
        exact @mantissa?_fraction [] m e (by simp) hds (.inr hne) hstops

theorem number?_of_matches {t : List Char} (h : numberPattern.Matches t) :
    number? t = some (t, []) := by
  obtain ⟨m, e, hm, he, rfl⟩ := matches_seq_iff.mp h
  obtain ⟨hexponent, hhead⟩ := exponent_of_matches he
  rw [number?, mantissa?_of_matches hm hhead]
  simp [hexponent]

theorem string?_of_matches {t : List Char} (h : stringPattern.Matches t) :
    string? t = some (t, []) := by
  have hmem : (t, []) ∈ stringPattern.splits t := mem_splits_iff.mpr ⟨h, by simp⟩
  rw [splits_stringPattern] at hmem
  simpa using hmem

theorem name?_of_matches {t : List Char} (h : namePattern.Matches t) : name? t = some (t, []) := by
  cases t with
  | nil => simp [namePattern] at h
  | cons c t =>
      simp only [namePattern, matches_seq_one_cons, matches_many_one_iff] at h
      have htake := @takeWhile_of_stops _ t [] h.2 (by simp)
      have hdrop := @dropWhile_of_stops _ t [] h.2 (by simp)
      rw [List.append_nil] at htake hdrop
      rw [name?, if_pos h.1, htake, hdrop]

end Lexeme

namespace Token.Word

/-- A word that the pattern of its kind matches as a whole. A name is no keyword, and a keyword is
spelled as such. -/
def WellSpelled (w : Word) : Prop :=
  (∃ p, (w.1, p) ∈ tokenPatterns ∧ p.Matches w.2.toList ∧
    (w.1 = .name → w.2 ∉ keywords.map Prod.fst)) ∨ (w.2, w.1) ∈ keywords

theorem lookup_keywords_eq_none_iff {text : String} :
    keywords.lookup text = none ↔ text ∉ keywords.map Prod.fst := by
  rw [List.lookup_eq_none_iff, List.mem_map]
  constructor
  · rintro h ⟨entry, hentry, rfl⟩
    simpa using h entry hentry
  · intro h entry hentry
    simp only [bne_iff_ne]
    rintro rfl
    exact h ⟨entry, hentry, rfl⟩

theorem WellSpelled.lexical {w : Word} (h : w.WellSpelled) : w.Lexical := by
  obtain ⟨kind, text⟩ := w
  rcases h with ⟨p, hp, hmatches, hname⟩ | hkeyword
  · simp only [tokenPatterns, List.mem_cons, Prod.mk.injEq, List.mem_map] at hp
    rcases hp with ⟨rfl, rfl⟩ | ⟨rfl, rfl⟩ | ⟨rfl, rfl⟩ | ⟨entry, hentry, rfl, rfl⟩
    · exact lexeme?_number (number?_of_matches hmatches)
    · exact lexeme?_string (string?_of_matches hmatches)
    · have hkind : nameKind text.toList = .name := by
        rw [nameKind, String.ofList_toList, lookup_keywords_eq_none_iff.mpr (hname rfl)]
        rfl
      have hlexeme := lexeme?_name (name?_of_matches hmatches)
      rwa [hkind] at hlexeme
    · have htext : text = String.ofList entry.1 := by
        simpa using congrArg String.ofList (matches_literal_iff.mp hmatches)
      rw [htext]
      exact lexical_fixed entry hentry
  · have hkeywords : ∀ entry ∈ keywords, Lexical (entry.2, entry.1) := by
      decide
    exact hkeywords (text, kind) hkeyword

theorem Lexical.wellSpelled {w : Word} (h : w.Lexical) : w.WellSpelled := by
  obtain ⟨kind, text⟩ := w
  obtain ⟨before, entry, after, hpatterns, _, hfirst, hkind⟩ := lexeme?_eq_some_iff.mp h
  have hentry : entry ∈ tokenPatterns := by
    rw [hpatterns]
    simp
  have hmatches := (matches_of_first? hfirst).1
  by_cases hname : entry.1 = .name
  · rw [kindIn, if_pos hname, nameKind, String.ofList_toList] at hkind
    cases hlookup : keywords.lookup text with
    | none =>
        rw [hlookup] at hkind
        obtain rfl : kind = .name := hkind
        refine .inl ⟨entry.2, hname ▸ hentry, hmatches, fun _ => ?_⟩
        exact lookup_keywords_eq_none_iff.mp hlookup
    | some k =>
        rw [hlookup] at hkind
        obtain rfl : kind = k := hkind
        exact .inr (mem_keywords_of_lookup hlookup)
  · rw [kindIn, if_neg hname] at hkind
    obtain rfl : kind = entry.1 := hkind
    exact .inl ⟨entry.2, hentry, hmatches, fun h => absurd h hname⟩

end Token.Word

/-! ## Blank texts -/

namespace Text

/-- The code points of the blank characters. -/
def blankCodes : List Nat :=
  List.range' 0x09 5 ++ List.range' 0x1C 5 ++ [0x85, 0xA0, 0x1680] ++ List.range' 0x2000 11 ++
    [0x2028, 0x2029, 0x202F, 0x205F, 0x3000]

theorem toNat_mem_blankCodes {c : Char} (hc : isBlank c) : c.toNat ∈ blankCodes := by
  simp only [isBlank, Bool.or_eq_true, Bool.and_eq_true, decide_eq_true_eq, beq_iff_eq] at hc
  simp only [blankCodes, List.mem_append, List.mem_range'_1, List.mem_cons, List.not_mem_nil,
    or_false]
  omega

end Text

namespace Lexeme

/-- No token starts with a blank character. -/
theorem lexeme?_blank {c : Char} (hc : Text.isBlank c) (cs : List Char) :
    lexeme? (c :: cs) = none := by
  have hcodes : ∀ n ∈ Text.blankCodes, Text.isDecimalDigit (Char.ofNat n) = false ∧
      Char.ofNat n ≠ '.' ∧ isNameStart (Char.ofNat n) = false ∧
      ¬(Char.ofNat n = '"' ∨ Char.ofNat n = Text.apostrophe) ∧
      ∀ entry ∈ fixedTexts, entry.1.head? ≠ some (Char.ofNat n) := by
    decide
  have h := hcodes c.toNat (Text.toNat_mem_blankCodes hc)
  rw [Char.ofNat_toNat] at h
  obtain ⟨hdigit, hpoint, hname, hquote, hfixed⟩ := h
  have hnone : fixed? (c :: cs) = none := by
    cases h : fixed? (c :: cs) with
    | none => rfl
    | some found =>
        obtain ⟨kind, text, rest⟩ := found
        obtain ⟨happend, hne⟩ := fixed?_split h
        refine absurd ?_ (hfixed _ (mem_fixedTexts_of_fixed? h))
        cases text with
        | nil => exact absurd rfl hne
        | cons d text =>
            obtain ⟨rfl, _⟩ := List.cons.inj happend
            rfl
  rw [lexeme?, number?_eq_none hdigit fun h => absurd h hpoint, string?, if_neg hquote, name?,
    if_neg (by simp [hname])]
  exact hnone

end Lexeme

namespace Lexer

theorem isBlank_of_isIgnored {c : Char} (hc : isIgnored c) : Text.isBlank c := by
  simp only [isIgnored, Bool.or_eq_true, beq_iff_eq] at hc
  rcases hc with ((rfl | rfl) | rfl) | rfl <;> decide

theorem words?_stuck {c : Char} {cs : List Char} (hc : ¬isIgnored c)
    (hnone : lexeme? (c :: cs) = none) : words? (c :: cs) = none := by
  rw [words?, scanFrom, if_neg hc]
  split <;> simp_all [Scan.words?]

/-- A text that is read to its end is blank exactly if it has no words. -/
theorem isAllBlank_iff {s : String} {ws : List Word} (h : words? s.toList = some ws) :
    Text.isAllBlank s ↔ ws = [] := by
  rw [Text.isAllBlank, List.all_eq_true]
  generalize s.toList = cs at h
  induction cs generalizing ws with
  | nil => simpa using h.symm
  | cons c cs ih =>
      by_cases hc : isIgnored c
      · rw [words?_skip hc] at h
        simp [isBlank_of_isIgnored hc, ← ih h]
      · cases hlexeme : lexeme? (c :: cs) with
        | none =>
            rw [words?_stuck hc hlexeme] at h
            cases h
        | some found =>
            obtain ⟨kind, text, rest⟩ := found
            have hblank : ¬Text.isBlank c := by
              intro hblank
              rw [lexeme?_blank hblank] at hlexeme
              cases hlexeme
            rw [words?_lexeme hlexeme] at h
            obtain ⟨_, _, rfl⟩ := Option.map_eq_some_iff.mp h
            simp [hblank]

end Lexer

/-! ## Words decide -/

theorem SyntaxTree.parse_congr {s s' : String} {ws : List Word}
    (h : Lexer.words? s.toList = some ws) (h' : Lexer.words? s'.toList = some ws)
    (t : SyntaxTree) : parse s = .ok t ↔ parse s' = .ok t := by
  rw [parse_eq_ok_iff, parse_eq_ok_iff, h, h']

namespace Formula

/-- The formula of a text depends on its words alone. -/
theorem parse_congr [Host] (declared : Property.Declared) {s s' : String} {ws : List Word}
    (h : Lexer.words? s.toList = some ws) (h' : Lexer.words? s'.toList = some ws) :
    parse declared s = parse declared s' := by
  have hblank : Text.isAllBlank s = Text.isAllBlank s' := by
    rw [Bool.eq_iff_iff, Lexer.isAllBlank_iff h, Lexer.isAllBlank_iff h']
  have hparse := SyntaxTree.parse_congr h h'
  rw [parse, parse, Reading.of, Reading.of, hblank]
  by_cases hs : Text.isAllBlank s'
  · rw [if_pos hs, if_pos hs]
  · rw [if_neg hs, if_neg hs]
    cases htree : SyntaxTree.parse s with
    | ok tree => rw [(hparse tree).mp htree]
    | error e =>
        cases htree' : SyntaxTree.parse s' with
        | ok tree =>
            rw [(hparse tree).mpr htree'] at htree
            cases htree
        | error e' => rfl

end Formula

/-- The conversion of a text depends on its words alone. -/
theorem Conversion.convert_congr [Host] (declared : Property.Declared) {s s' : String}
    {ws : List Word} (h : Lexer.words? s.toList = some ws) (h' : Lexer.words? s'.toList = some ws) :
    convert declared s = convert declared s' := by
  rw [convert_eq, convert_eq, Formula.parse_congr declared h h']

/-! ## Words with blanks between them -/

namespace Lexer

/-- Words with blanks around them. There may be none behind the last word only. -/
structure Layout where
  front : List Char
  parts : List (Word × List Char)
  ignored_front : ∀ c ∈ front, isIgnored c
  ignored_gaps : ∀ part ∈ parts, ∀ c ∈ part.2, isIgnored c
  separated : ∀ part ∈ parts.dropLast, part.2 ≠ []

def Layout.words (l : Layout) : List Word :=
  l.parts.map Prod.fst

/-- The characters of words and of the blanks behind them. -/
def partChars (parts : List (Word × List Char)) : List Char :=
  parts.flatMap fun part => part.1.2.toList ++ part.2

def Layout.text (l : Layout) : String :=
  String.ofList (l.front ++ partChars l.parts)

theorem words?_ignored {gap : List Char} (hgap : ∀ c ∈ gap, isIgnored c) (cs : List Char) :
    words? (gap ++ cs) = words? cs := by
  induction gap with
  | nil => rfl
  | cons c gap ih =>
      rw [List.forall_mem_cons] at hgap
      rw [List.cons_append, words?_skip hgap.1, ih hgap.2]

/-- Every word ends in front of an ignored character. -/
theorem endsAt_ignored {c : Char} (hc : isIgnored c) (w : Word) (tail : List Char) :
    w.EndsAt (c :: tail) := by
  have hc' : Text.isDecimalDigit c = false ∧ isNamePart c = false ∧ c ≠ 'e' ∧ c ≠ 'E' ∧ c ≠ '.' ∧
      '=' ≠ c := by
    simp only [isIgnored, Bool.or_eq_true, beq_iff_eq] at hc
    rcases hc with ((rfl | rfl) | rfl) | rfl <;> decide
  unfold Word.EndsAt Ends
  split <;> simp_all [EndsNumber]

theorem words?_partChars {parts : List (Word × List Char)} (hwords : ∀ part ∈ parts, part.1.Lexical)
    (hgaps : ∀ part ∈ parts, ∀ c ∈ part.2, isIgnored c)
    (hsep : ∀ part ∈ parts.dropLast, part.2 ≠ []) :
    words? (partChars parts) = some (parts.map Prod.fst) := by
  induction parts with
  | nil => simp [partChars]
  | cons part rest ih =>
      rw [List.forall_mem_cons] at hwords hgaps
      have hrest : words? (partChars rest) = some (rest.map Prod.fst) := by
        apply ih hwords.2 hgaps.2
        intro other hother
        cases rest with
        | nil => cases hother
        | cons next rest => exact hsep other (List.mem_cons_of_mem _ hother)
      have hends : part.1.EndsAt (part.2 ++ partChars rest) := by
        cases hgap : part.2 with
        | cons c gap => exact endsAt_ignored (hgaps.1 c (by simp [hgap])) part.1 _
        | nil =>
            -- without blanks behind it, the word is the last one
            cases rest with
            | nil => exact part.1.endsAt_nil
            | cons next rest => exact absurd hgap (hsep part List.mem_cons_self)
      have hcons : partChars (part :: rest) = part.1.2.toList ++ (part.2 ++ partChars rest) := by
        simp [partChars]
      rw [hcons, words?_word hwords.1 hends, words?_ignored hgaps.1, hrest]
      rfl

theorem Layout.words?_text (l : Layout) (hl : ∀ w ∈ l.words, w.Lexical) :
    words? l.text.toList = some l.words := by
  rw [Layout.text, String.toList_ofList, words?_ignored l.ignored_front]
  exact words?_partChars (by simpa [Layout.words] using hl) l.ignored_gaps l.separated

/-- Words that their patterns match are read again from every layout, and all layouts of the same
words have the same conversions. -/
theorem scan_layout [Host] (l : Layout) (hl : ∀ w ∈ l.words, w.WellSpelled) :
    (scan l.text).fault = none ∧ (scan l.text).tokens.map Token.word = l.words ∧
      ∀ l' : Layout, l'.words = l.words →
        ∀ declared, Conversion.convert declared l'.text = Conversion.convert declared l.text := by
  have hlexical : ∀ w ∈ l.words, w.Lexical := fun w hw => (hl w hw).lexical
  have hwords := l.words?_text hlexical
  obtain ⟨hfault, htokens⟩ := Scan.words?_eq_some_iff.mp hwords
  refine ⟨hfault, htokens, ?_⟩
  intro l' hl' declared
  have hwords' : words? l'.text.toList = some l'.words := l'.words?_text (hl' ▸ hlexical)
  exact Conversion.convert_congr declared (hl' ▸ hwords') hwords

/-- Words that would run into each other, with as little between them as there may be. -/
def tightLayout : Layout where
  front := []
  parts := [((.number, "1"), [' ']), ((.dot, "."), [' ']), ((.name, "e5"), ['\t']),
    ((.eq, "=="), ['\n']), ((.string, "'a \" b'"), [])]
  ignored_front := by simp [isIgnored]
  ignored_gaps := by simp [isIgnored]
  separated := by decide

/-- The same words with more between them. -/
def looseLayout : Layout where
  front := ['\r', '\n']
  parts := [((.number, "1"), [' ', ' ']), ((.dot, "."), ['\n']), ((.name, "e5"), [' ']),
    ((.eq, "=="), ['\t', '\r']), ((.string, "'a \" b'"), [' '])]
  ignored_front := by simp [isIgnored]
  ignored_gaps := by simp [isIgnored]
  separated := by decide

attribute [local instance] Host.usual

theorem scan_layout_tight :
    (∀ w ∈ tightLayout.words, w.WellSpelled) ∧ looseLayout.words = tightLayout.words ∧
      (scan tightLayout.text).fault = none ∧
      (scan tightLayout.text).tokens.map Token.word = tightLayout.words ∧
      ∀ declared, Conversion.convert declared looseLayout.text =
        Conversion.convert declared tightLayout.text := by
  have hwords : ∀ w ∈ tightLayout.words, w.WellSpelled := by
    have hlexical : ∀ w ∈ tightLayout.words, w.Lexical := by
      decide
    exact fun w hw => (hlexical w hw).wellSpelled
  obtain ⟨hfault, htokens, hconvert⟩ := scan_layout tightLayout hwords
  exact ⟨hwords, rfl, hfault, htokens, hconvert looseLayout rfl⟩

end Lexer

end FormulaUpgrade
