import FormulaUpgrade.Proofs.Token.Lexeme
import FormulaUpgrade.Proofs.Token.Pattern

/-! # The patterns of the classes of tokens

Every class of tokens has a pattern. The readers of the classes take the way that the patterns take,
and the first class with a pattern that matches decides.
-/

namespace FormulaUpgrade.Lexeme

open Text Token Pattern

/-! ## Numbers -/

def digitsPattern : Pattern :=
  plus (one isDecimalDigit)

/-- Digits that may go on behind a point, or a point and digits. -/
def mantissaPattern : Pattern :=
  alt (seq digitsPattern (opt (seq (char '.') (many (one isDecimalDigit)))))
    (seq (char '.') digitsPattern)

def signPattern : Pattern :=
  one fun c => c == '+' || c == '-'

def exponentPattern : Pattern :=
  opt (seq (one fun c => c == 'e' || c == 'E') (seq (opt signPattern) digitsPattern))

def numberPattern : Pattern :=
  seq mantissaPattern exponentPattern

theorem first?_digitsPattern (cs : List Char) :
    digitsPattern.first? cs =
      if cs.takeWhile isDecimalDigit = [] then none
      else some (cs.takeWhile isDecimalDigit, cs.dropWhile isDecimalDigit) :=
  first?_plus_one isDecimalDigit cs

theorem first?_mantissaPattern (cs : List Char) : mantissaPattern.first? cs = mantissa? cs := by
  have hdigits := first?_digitsPattern cs
  have hsplit := List.takeWhile_append_dropWhile (p := isDecimalDigit) (l := cs)
  rw [mantissaPattern, first?_alt, mantissa?]
  cases htake : cs.takeWhile isDecimalDigit with
  | nil =>
      -- without digits in front, only the second alternative is left
      rw [htake] at hdigits hsplit
      have hdrop : cs.dropWhile isDecimalDigit = cs := hsplit
      rw [first?_seq_of_none hdigits, Option.none_or, hdrop]
      cases cs with
      | nil => rfl
      | cons c rest =>
          by_cases hc : c = '.'
          · subst hc
            cases hrest : rest.takeWhile isDecimalDigit <;>
              simp [char, first?_digitsPattern, hrest, Split.prepend]
          · simp [char, hc]
  | cons d ds =>
      rw [htake] at hdigits
      rw [first?_seq_of_first? hdigits (first?_opt _ _), Option.some_or]
      cases hdrop : cs.dropWhile isDecimalDigit with
      | nil => simp [Split.prepend, char]
      | cons c rest =>
          by_cases hc : c = '.'
          · subst hc
            simp [char, Split.prepend]
          · simp [char, hc, Split.prepend]

/-- Without digits behind it a sign is given back, and then it stands where a digit should. -/
theorem first?_signed (cs : List Char) :
    (seq (opt signPattern) digitsPattern).first? cs =
      if (sign cs).2.takeWhile isDecimalDigit = [] then none
      else some ((sign cs).1 ++ (sign cs).2.takeWhile isDecimalDigit,
        (sign cs).2.dropWhile isDecimalDigit) := by
  rw [first?_seq]
  cases cs with
  | nil => rfl
  | cons c cs =>
      by_cases hc : c = '+' ∨ c = '-'
      · have hdigit : isDecimalDigit c = false := by
          rcases hc with rfl | rfl <;> decide
        have hsign : sign (c :: cs) = ([c], cs) := by
          rcases hc with rfl | rfl <;> rfl
        have hsplits : (opt signPattern).splits (c :: cs) = [([c], cs), ([], c :: cs)] := by
          simp [opt, signPattern, splits, hc]
        have hnone : digitsPattern.first? (c :: cs) = none := by
          rw [first?_digitsPattern, List.takeWhile_cons_of_neg (by simp [hdigit]), if_pos rfl]
        simp only [hsplits, hsign, List.findSome?_cons, List.findSome?_nil, hnone, Option.map_none]
        rw [first?_digitsPattern]
        cases cs.takeWhile isDecimalDigit <;> rfl
      · have hsign : sign (c :: cs) = ([], c :: cs) := by
          unfold sign
          split <;> simp_all
        have hsplits : (opt signPattern).splits (c :: cs) = [([], c :: cs)] := by
          simp [opt, signPattern, splits, hc]
        simp only [hsplits, hsign, List.findSome?_cons, List.findSome?_nil]
        rw [first?_digitsPattern]
        cases (c :: cs).takeWhile isDecimalDigit <;> rfl

theorem first?_exponentPattern (cs : List Char) :
    exponentPattern.first? cs = some (exponent cs) := by
  rw [exponentPattern, first?_opt]
  cases cs with
  | nil => simp [exponent]
  | cons c cs =>
      rw [first?_seq_one_cons, first?_signed, exponent]
      by_cases hc : c = 'e' ∨ c = 'E'
      · cases (sign cs).2.takeWhile isDecimalDigit <;> simp [hc, Split.prepend]
      · simp [hc]

theorem first?_numberPattern (cs : List Char) : numberPattern.first? cs = number? cs := by
  rw [numberPattern, number?, ← first?_mantissaPattern]
  cases h : mantissaPattern.first? cs with
  | none => exact first?_seq_of_none h
  | some s => exact first?_seq_of_first? h (first?_exponentPattern s.2)

/-! ## Strings -/

def hexPattern : Pattern :=
  one isHexDigit

/-- A character of a string, or an escape. -/
def stringItem (mark : Char) : Pattern :=
  alt (one fun c => c != mark && c != '\\')
    (alt (seq (char '\\') (one (isEscapable mark)))
      (seq (char '\\') (seq (char 'u')
        (seq hexPattern (seq hexPattern (seq hexPattern hexPattern))))))

def stringRest (mark : Char) : Pattern :=
  seq (many (stringItem mark)) (char mark)

def stringPattern : Pattern :=
  alt (seq (char '"') (stringRest '"')) (seq (char apostrophe) (stringRest apostrophe))

theorem splits_stringItem_plain {mark c : Char} (hc : c ≠ '\\') (cs : List Char) :
    (stringItem mark).splits (c :: cs) = if c = mark then [] else [([c], cs)] := by
  by_cases hmark : c = mark <;> simp_all [stringItem, char]

theorem splits_stringItem_escape {mark c : Char} (hc : isEscapable mark c) (cs : List Char) :
    (stringItem mark).splits ('\\' :: c :: cs) = [(['\\', c], cs)] := by
  have hu : c ≠ 'u' := by
    rintro rfl
    simp [isEscapable, apostrophe] at hc
  simp [stringItem, char, hc, hu, Split.prepend]

theorem splits_stringItem_unicode (mark h₁ h₂ h₃ h₄ : Char) (cs : List Char) :
    (stringItem mark).splits ('\\' :: 'u' :: h₁ :: h₂ :: h₃ :: h₄ :: cs) =
      if isHexDigit h₁ && isHexDigit h₂ && isHexDigit h₃ && isHexDigit h₄ then
        [(['\\', 'u', h₁, h₂, h₃, h₄], cs)]
      else [] := by
  have hu : isEscapable mark 'u' = false := by
    simp [isEscapable, apostrophe]
  by_cases hhex : isHexDigit h₁ && isHexDigit h₂ && isHexDigit h₃ && isHexDigit h₄
  · simp only [Bool.and_eq_true] at hhex
    simp [stringItem, char, hexPattern, hu, hhex, Split.prepend]
  · rw [if_neg hhex]
    simp only [Bool.and_eq_true] at hhex
    simp [stringItem, char, hexPattern, hu]
    grind

/-- A backslash that starts no escape. -/
theorem splits_stringItem_slash {mark c : Char} {cs : List Char} (hc : ¬isEscapable mark c)
    (hu : ∀ h₁ h₂ h₃ h₄ rest, c = 'u' → cs = h₁ :: h₂ :: h₃ :: h₄ :: rest → False) :
    (stringItem mark).splits ('\\' :: c :: cs) = [] := by
  by_cases hcu : c = 'u'
  · subst hcu
    match cs with
    | [] | [_] | [_, _] | [_, _, _] => simp [stringItem, char, hexPattern, hc]
    | h₁ :: h₂ :: h₃ :: h₄ :: rest => exact absurd rfl (hu h₁ h₂ h₃ h₄ rest rfl)
  · simp [stringItem, char, hexPattern, hc, hcu]

theorem toList_prepend (front : List Char) (split : Option Split) :
    (prepend front split).toList = split.toList.map (Split.prepend front) := by
  cases split <;> rfl

/-- A string can end in one way only. -/
theorem splits_stringRest {mark : Char} (hmark : mark ≠ '\\') (cs : List Char) :
    (stringRest mark).splits cs = (stringBody? mark cs).toList := by
  rw [stringRest]
  fun_induction stringBody? mark cs with
  | case1 =>
      rw [splits_seq_many_of_nil (by simp [stringItem, char])]
      simp [char]
  | case2 h₁ h₂ h₃ h₄ cs hhex ih =>
      have hitem := splits_stringItem_unicode mark h₁ h₂ h₃ h₄ cs
      rw [if_pos hhex] at hitem
      rw [splits_seq_many_of_single hitem (by simp only [List.length_cons]; omega), toList_prepend,
        ← ih]
      simp [char, hmark.symm]
  | case3 h₁ h₂ h₃ h₄ cs hhex =>
      have hitem := splits_stringItem_unicode mark h₁ h₂ h₃ h₄ cs
      rw [if_neg hhex] at hitem
      rw [splits_seq_many_of_nil hitem]
      simp [char, hmark.symm]
  | case4 c cs hu hescape ih =>
      have hitem := splits_stringItem_escape hescape cs
      rw [splits_seq_many_of_single hitem (by simp only [List.length_cons]; omega), toList_prepend,
        ← ih]
      simp [char, hmark.symm]
  | case5 c cs hu hescape =>
      rw [splits_seq_many_of_nil (splits_stringItem_slash hescape hu)]
      simp [char, hmark.symm]
  | case6 cs =>
      rw [splits_seq_many_of_nil (by rw [splits_stringItem_plain hmark, if_pos rfl])]
      simp [char]
  | case7 cs _ hend =>
      cases cs with
      | nil =>
          rw [splits_seq_many_of_nil (by simp [stringItem, char])]
          simp [char, hmark.symm]
      | cons c cs => exact absurd rfl (hend c cs rfl)
  | case8 c cs hu hu' hc hslash ih =>
      have hitem := @splits_stringItem_plain mark c hslash cs
      rw [if_neg hc] at hitem
      rw [splits_seq_many_of_single hitem (by simp only [List.length_cons]; omega), toList_prepend,
        ← ih]
      simp [char, hc]

theorem splits_stringPattern (cs : List Char) : stringPattern.splits cs = (string? cs).toList := by
  cases cs with
  | nil => rfl
  | cons c cs =>
      have hquote := @splits_stringRest '"' (by decide) cs
      have hapostrophe := @splits_stringRest apostrophe (by decide) cs
      rw [string?, stringPattern, splits_alt, char, char, splits_seq_one_cons, splits_seq_one_cons,
        hquote, hapostrophe]
      have hne : '"' ≠ apostrophe := by
        decide
      by_cases hc : c = '"'
      · simp [hc, hne, toList_prepend]
      · by_cases hc' : c = apostrophe
        · simp [hc', hne.symm, toList_prepend]
        · simp [hc, hc']

/-! ## Names -/

def namePattern : Pattern :=
  seq (one isNameStart) (many (one isNamePart))

theorem first?_namePattern (cs : List Char) : namePattern.first? cs = name? cs := by
  cases cs with
  | nil => simp [namePattern, name?]
  | cons c cs => by_cases hc : isNameStart c <;> simp [namePattern, name?, hc, Split.prepend]

/-! ## The first class that fits -/

/-- The classes in the order in which they are tried. -/
def tokenPatterns : List (Kind × Pattern) :=
  (.number, numberPattern) :: (.string, stringPattern) :: (.name, namePattern) ::
    fixedTexts.map fun entry => (entry.2, literal entry.1)

/-- The kind of a token of a class. Some names are operators. -/
def kindIn (kind : Kind) (text : List Char) : Kind :=
  if kind = .name then nameKind text else kind

theorem findSome?_literal (cs : List Char) {entries : List (List Char × Kind)}
    (hkinds : ∀ entry ∈ entries, entry.2 ≠ .name) :
    ((entries.map fun entry => (entry.2, literal entry.1)).findSome? fun entry =>
      (entry.2.first? cs).map fun s => (kindIn entry.1 s.1, s)) =
    entries.findSome? fun (text, kind) =>
      if text.isPrefixOf cs then some (kind, text, cs.drop text.length) else none := by
  induction entries with
  | nil => rfl
  | cons entry entries ih =>
      rw [List.forall_mem_cons] at hkinds
      rw [List.map_cons, List.findSome?_cons, List.findSome?_cons, ih hkinds.2]
      by_cases h : entry.1.isPrefixOf cs <;> simp [h, kindIn, hkinds.1]

/-- The first class whose pattern matches decides, and the way that its pattern takes is the token. -/
theorem lexeme?_eq_findSome? (cs : List Char) :
    lexeme? cs = tokenPatterns.findSome? fun entry =>
      (entry.2.first? cs).map fun s => (kindIn entry.1 s.1, s) := by
  have hstring : stringPattern.first? cs = string? cs := by
    rw [first?, splits_stringPattern, Option.head?_toList]
  rw [tokenPatterns, List.findSome?_cons, List.findSome?_cons, List.findSome?_cons,
    first?_numberPattern, hstring, first?_namePattern, findSome?_literal cs (by decide), lexeme?]
  cases number? cs with
  | some s => rfl
  | none =>
      cases string? cs with
      | some s => rfl
      | none => cases name? cs <;> rfl

/-- No class has a pattern that matches any text in front. -/
theorem lexeme?_eq_none_iff {cs : List Char} :
    lexeme? cs = none ↔ ∀ entry ∈ tokenPatterns, ∀ t, t <+: cs → ¬entry.2.Matches t := by
  simp only [lexeme?_eq_findSome?, List.findSome?_eq_none_iff, Option.map_eq_none_iff,
    first?_eq_none_iff]

/-- The token at the head of a text: its class is the first with a pattern that matches any text in
front, and it goes as far as the pattern takes it. -/
def Classified (cs : List Char) (kind : Kind) (text rest : List Char) : Prop :=
  ∃ before entry after, tokenPatterns = before ++ entry :: after ∧
    (∀ earlier ∈ before, ∀ t, t <+: cs → ¬earlier.2.Matches t) ∧
    entry.2.first? cs = some (text, rest) ∧ kind = kindIn entry.1 text

theorem lexeme?_eq_some_iff {cs text rest : List Char} {kind : Kind} :
    lexeme? cs = some (kind, text, rest) ↔ Classified cs kind text rest := by
  rw [lexeme?_eq_findSome?, List.findSome?_eq_some_iff]
  constructor
  · rintro ⟨before, entry, after, heq, hfirst, hbefore⟩
    obtain ⟨⟨t, r⟩, hsplit, hs⟩ := Option.map_eq_some_iff.mp hfirst
    cases hs
    refine ⟨before, entry, after, heq, ?_, hsplit, rfl⟩
    intro earlier hearlier
    exact first?_eq_none_iff.mp (Option.map_eq_none_iff.mp (hbefore earlier hearlier))
  · rintro ⟨before, entry, after, heq, hbefore, hfirst, rfl⟩
    refine ⟨before, entry, after, heq, by rw [hfirst]; rfl, ?_⟩
    intro earlier hearlier
    exact Option.map_eq_none_iff.mpr (first?_eq_none_iff.mpr (hbefore earlier hearlier))

end FormulaUpgrade.Lexeme
