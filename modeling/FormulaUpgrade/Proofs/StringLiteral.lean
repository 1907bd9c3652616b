import FormulaUpgrade.Json.Writer
import FormulaUpgrade.StringLiteral
import FormulaUpgrade.Proofs.Token.Words

/-! # How string literals are written

The inside of a literal is a sequence of pieces: characters, written as they are or by an escape, and
code units, written by their numbers. A text written in double quotes, and a literal brought into
double quotes, are each a single string token. Requoting keeps the pieces.
-/

namespace FormulaUpgrade

open Text Lexeme Token

namespace StringLiteral

/-! ## Pieces -/

inductive Piece where
  | char (c : Char)
  | unit (n : Nat)
deriving DecidableEq, Repr

def Piece.number : Piece → Nat
  | .char c => c.toNat
  | .unit n => n

/-- The characters that a backslash and one more character stand for. -/
def shortEscapes : List (Char × Char) :=
  [('"', '"'), ('\\', '\\'), ('/', '/'), ('b', '\x08'), ('f', '\x0c'), ('n', '\n'), ('r', '\r'),
    ('t', '\t')]

/-- The number that hexadecimal digits of either case write. -/
def hexNumber (digits : List Char) : Nat :=
  digits.foldl (fun n d => 16 * n + "0123456789abcdef".toList.idxOf d.toLower) 0

/-- The inside of a literal between two marks, and its pieces. Only in apostrophes may an apostrophe
be escaped. -/
inductive Written (mark : Char) : List Char → List Piece → Prop where
  | nil : Written mark [] []
  | plain {c body pieces} : c ≠ '\\' → c ≠ mark → Written mark body pieces →
      Written mark (c :: body) (.char c :: pieces)
  | escape {c e body pieces} : (c, e) ∈ shortEscapes → Written mark body pieces →
      Written mark ('\\' :: c :: body) (.char e :: pieces)
  | apostrophe {body pieces} : mark = apostrophe → Written mark body pieces →
      Written mark ('\\' :: apostrophe :: body) (.char apostrophe :: pieces)
  | unicode {h₁ h₂ h₃ h₄ body pieces} : (∀ h ∈ [h₁, h₂, h₃, h₄], isHexDigit h) →
      Written mark body pieces →
      Written mark ('\\' :: 'u' :: h₁ :: h₂ :: h₃ :: h₄ :: body)
        (.unit (hexNumber [h₁, h₂, h₃, h₄]) :: pieces)

theorem isEscapable_of_mem {mark c e : Char} (h : (c, e) ∈ shortEscapes) : isEscapable mark c := by
  simp only [shortEscapes, List.mem_cons, Prod.mk.injEq, List.not_mem_nil, or_false] at h
  rcases h with ⟨rfl, _⟩ | ⟨rfl, _⟩ | ⟨rfl, _⟩ | ⟨rfl, _⟩ | ⟨rfl, _⟩ | ⟨rfl, _⟩ | ⟨rfl, _⟩ |
    ⟨rfl, _⟩ <;> rfl

theorem isEscapable_cases {mark c : Char} (h : isEscapable mark c) :
    (∃ e, (c, e) ∈ shortEscapes) ∨ c = apostrophe ∧ mark = apostrophe := by
  simp only [isEscapable, Bool.or_eq_true, Bool.and_eq_true, beq_iff_eq] at h
  rcases h with h | h
  · left
    rcases h with ((((((rfl | rfl) | rfl) | rfl) | rfl) | rfl) | rfl) | rfl <;> simp [shortEscapes]
  · exact .inr h

/-- What a string token has between its marks is written in pieces. -/
theorem written_of_stringBody? {mark : Char} {cs text rest : List Char}
    (h : stringBody? mark cs = some (text, rest)) :
    ∃ body pieces, text = body ++ [mark] ∧ Written mark body pieces := by
  fun_induction stringBody? mark cs generalizing text rest with
  | case1 => simp at h
  | case2 h₁ h₂ h₃ h₄ cs hhex ih =>
      obtain ⟨more, hmore, rfl⟩ := prepend_eq_some h
      obtain ⟨body, pieces, rfl, hbody⟩ := ih hmore
      exact ⟨_, _, rfl, .unicode (by simpa [and_assoc] using hhex) hbody⟩
  | case3 => simp at h
  | case4 c cs _ hescape ih =>
      obtain ⟨more, hmore, rfl⟩ := prepend_eq_some h
      obtain ⟨body, pieces, rfl, hbody⟩ := ih hmore
      rcases isEscapable_cases hescape with ⟨e, he⟩ | ⟨rfl, hmark⟩
      · exact ⟨_, _, rfl, .escape he hbody⟩
      · exact ⟨_, _, rfl, .apostrophe hmark hbody⟩
  | case5 => simp at h
  | case6 cs _ =>
      simp only [Option.some.injEq, Prod.mk.injEq] at h
      exact ⟨[], [], h.1.symm, .nil⟩
  | case7 => simp at h
  | case8 c cs _ _ hmark hslash ih =>
      obtain ⟨more, hmore, rfl⟩ := prepend_eq_some h
      obtain ⟨body, pieces, rfl, hbody⟩ := ih hmore
      exact ⟨_, _, rfl, .plain hslash hmark hbody⟩

namespace Written

variable {mark : Char} {body : List Char} {pieces : List Piece}

/-- The mark behind what is written ends the string. -/
theorem stringBody?_eq (h : Written mark body pieces) (hmark : mark ≠ '\\') (tail : List Char) :
    stringBody? mark (body ++ mark :: tail) = some (body ++ [mark], tail) := by
  induction h with
  | nil => rw [List.nil_append, stringBody?_plain hmark, if_pos rfl, List.nil_append]
  | plain hslash hc _ ih =>
      rw [List.cons_append, stringBody?_plain hslash, if_neg hc, ih]
      rfl
  | escape he _ ih =>
      rw [List.cons_append, List.cons_append, stringBody?_escape (isEscapable_of_mem he), ih]
      rfl
  | apostrophe hquote _ ih =>
      have hescape : isEscapable mark Text.apostrophe := by simp [isEscapable, hquote]
      rw [List.cons_append, List.cons_append, stringBody?_escape hescape, ih]
      rfl
  | unicode hhex _ ih =>
      simp only [List.cons_append]
      rw [stringBody?_unicode (by simpa [and_assoc] using hhex), ih]
      rfl

theorem lexical (h : Written '"' body pieces) :
    Word.Lexical (.string, String.ofList ('"' :: body ++ ['"'])) := by
  have hstring : string? ('"' :: (body ++ ['"'])) = some ('"' :: (body ++ ['"']), []) := by
    rw [string?, if_pos (.inl rfl), h.stringBody?_eq (by decide)]
    rfl
  simpa [Word.Lexical] using lexeme?_string hstring

end Written

end StringLiteral

/-! ## Quoted texts -/

namespace Json

open StringLiteral

/-- A character is written as a short escape, by its number or as itself. -/
theorem escapeChar_cases (c : Char) :
    (∃ e, escapeChar c = ['\\', e] ∧ (e, c) ∈ shortEscapes) ∨
      (c.toNat < 0x20 ∧ escapeChar c = '\\' :: 'u' :: hexDigits 4 c.toNat) ∨
      (c ≠ '\\' ∧ c ≠ '"' ∧ escapeChar c = [c]) := by
  by_cases hshort : c ∈ ['"', '\\', '\n', '\r', '\t', '\x08', '\x0c']
  · simp only [List.mem_cons, List.not_mem_nil, or_false] at hshort
    rcases hshort with rfl | rfl | rfl | rfl | rfl | rfl | rfl <;>
      exact .inl ⟨_, rfl, by decide⟩
  · simp only [List.mem_cons, List.not_mem_nil, or_false, not_or] at hshort
    by_cases hcontrol : c.toNat < 0x20
    · exact .inr (.inl ⟨hcontrol, by simp [escapeChar, hshort, hcontrol]⟩)
    · exact .inr (.inr ⟨hshort.2.1, hshort.1, by simp [escapeChar, hshort, hcontrol]⟩)

theorem hexDigits_control {n : Nat} (hn : n < 0x20) :
    ∃ h₁ h₂ h₃ h₄, hexDigits 4 n = [h₁, h₂, h₃, h₄] ∧
      (∀ h ∈ [h₁, h₂, h₃, h₄], isHexDigit h) ∧ hexNumber [h₁, h₂, h₃, h₄] = n := by
  have hall : ∀ n < 0x20, (hexDigits 4 n).all isHexDigit ∧ hexNumber (hexDigits 4 n) = n := by
    decide
  obtain ⟨hhex, hnumber⟩ := hall n hn
  exact ⟨_, _, _, _, rfl, List.all_eq_true.mp hhex, hnumber⟩

/-- A character is one piece in front of what follows. -/
theorem written_escapeChar {body : List Char} {pieces : List Piece} (h : Written '"' body pieces)
    (c : Char) :
    ∃ piece, piece.number = c.toNat ∧ Written '"' (escapeChar c ++ body) (piece :: pieces) := by
  rcases escapeChar_cases c with ⟨e, hwritten, he⟩ | ⟨hcontrol, hwritten⟩ | ⟨hslash, hquote, hwritten⟩
  · rw [hwritten]
    exact ⟨.char c, rfl, .escape he h⟩
  · obtain ⟨h₁, h₂, h₃, h₄, hdigits, hhex, hnumber⟩ := hexDigits_control hcontrol
    rw [hwritten, hdigits]
    exact ⟨.unit _, hnumber, .unicode hhex h⟩
  · rw [hwritten]
    exact ⟨.char c, rfl, .plain hslash hquote h⟩

theorem written_flatMap_escapeChar (cs : List Char) :
    ∃ pieces, pieces.map Piece.number = cs.map Char.toNat ∧
      Written '"' (cs.flatMap escapeChar) pieces := by
  induction cs with
  | nil => exact ⟨[], rfl, .nil⟩
  | cons c cs ih =>
      obtain ⟨pieces, hnumbers, hcs⟩ := ih
      obtain ⟨piece, hnumber, hc⟩ := written_escapeChar hcs c
      exact ⟨piece :: pieces, by simp [hnumber, hnumbers], hc⟩

/-- A quoted text is a string. -/
theorem lexical_quote (s : String) : Word.Lexical (.string, quote s) := by
  obtain ⟨_, _, hwritten⟩ := written_flatMap_escapeChar s.toList
  exact hwritten.lexical

end Json

/-! ## Requoted literals -/

namespace StringLiteral

theorem requoteBody_escape (c : Char) (cs : List Char) :
    requoteBody ('\\' :: c :: cs) =
      if c = apostrophe then c :: requoteBody cs else '\\' :: c :: requoteBody cs := by
  rw [requoteBody]

theorem requoteBody_plain {c : Char} (hc : c ≠ '\\') (cs : List Char) :
    requoteBody (c :: cs) =
      if c = '"' then '\\' :: '"' :: requoteBody cs else c :: requoteBody cs := by
  rw [requoteBody.eq_def]
  split <;> simp_all

theorem requoteBody_hex {c : Char} (hc : isHexDigit c) (cs : List Char) :
    requoteBody (c :: cs) = c :: requoteBody cs := by
  have hslash : c ≠ '\\' := by
    rintro rfl
    exact absurd hc (by decide)
  have hquote : c ≠ '"' := by
    rintro rfl
    exact absurd hc (by decide)
  rw [requoteBody_plain hslash, if_neg hquote]

/-- The inside of a literal in apostrophes has, requoted, the same pieces in double quotes. -/
theorem Written.requoteBody {body : List Char} {pieces : List Piece}
    (h : Written Text.apostrophe body pieces) :
    Written '"' (StringLiteral.requoteBody body) pieces := by
  induction h with
  | nil => exact .nil
  | @plain c _ _ hslash _ _ ih =>
      rw [requoteBody_plain hslash]
      by_cases hc : c = '"'
      · rw [if_pos hc, hc]
        exact .escape (by decide) ih
      · rw [if_neg hc]
        exact .plain hslash hc ih
  | @escape c e _ _ he _ ih =>
      have hc : c ≠ Text.apostrophe := by
        rintro rfl
        simp [shortEscapes, Text.apostrophe] at he
      rw [requoteBody_escape, if_neg hc]
      exact .escape he ih
  | apostrophe _ _ ih =>
      rw [requoteBody_escape, if_pos rfl]
      exact .plain (by decide) (by decide) ih
  | unicode hhex _ ih =>
      have hdigits := hhex
      simp only [List.forall_mem_cons] at hdigits
      obtain ⟨hd₁, hd₂, hd₃, hd₄, _⟩ := hdigits
      rw [requoteBody_escape, if_neg (by decide), requoteBody_hex hd₁, requoteBody_hex hd₂,
        requoteBody_hex hd₃, requoteBody_hex hd₄]
      exact .unicode hhex ih

theorem head?_requoteChars (cs : List Char) : (requoteChars cs).head? = some '"' := by
  unfold requoteChars
  split
  next h => exact h
  next => rfl

theorem string?_of_lexical {text : String} (h : Word.Lexical (.string, text)) :
    string? text.toList = some (text.toList, []) := by
  rcases h.classes with ⟨hk, _⟩ | ⟨_, hstring⟩ | ⟨hk, _⟩ | hmem
  · cases hk
  · exact hstring
  · have hmem := nameKind_mem text.toList
    rw [← hk] at hmem
    exact absurd hmem (by simp)
  · have hkinds : ∀ entry ∈ fixedTexts, entry.2 ≠ .string := by
      decide
    exact absurd rfl (hkinds _ hmem)

/-- A string has its pieces between two marks. -/
theorem written_of_lexical {text : String} (h : Word.Lexical (.string, text)) :
    ∃ mark ∈ ['"', apostrophe], ∃ body pieces, text.toList = mark :: (body ++ [mark]) ∧
      Written mark body pieces := by
  have hstring := string?_of_lexical h
  cases htext : text.toList with
  | nil => simp [htext, string?] at hstring
  | cons mark cs =>
      rw [htext, string?] at hstring
      split at hstring
      next hmark =>
        obtain ⟨more, hmore, hcs⟩ := prepend_eq_some hstring
        obtain ⟨body, pieces, rfl, hbody⟩ := written_of_stringBody? hmore
        exact ⟨mark, by simpa using hmark, body, pieces, by simpa using hcs, hbody⟩
      next => cases hstring

/-- A literal with its pieces, requoted, has them in double quotes. -/
theorem requoteChars_written {mark : Char} {body : List Char} {pieces : List Piece}
    (hmark : mark ∈ ['"', apostrophe]) (h : Written mark body pieces) :
    ∃ inside, requoteChars (mark :: (body ++ [mark])) = '"' :: (inside ++ ['"']) ∧
      Written '"' inside pieces := by
  simp only [List.mem_cons, List.not_mem_nil, or_false] at hmark
  rcases hmark with rfl | rfl
  · exact ⟨body, if_pos rfl, h⟩
  · refine ⟨requoteBody body, ?_, h.requoteBody⟩
    rw [requoteChars, if_neg (by simp [apostrophe])]
    simp

/-- A requoted string is a string. -/
theorem lexical_requote {text : String} (h : Word.Lexical (.string, text)) :
    Word.Lexical (.string, requote text) := by
  obtain ⟨mark, hmark, body, pieces, htext, hwritten⟩ := written_of_lexical h
  obtain ⟨inside, hinside, hrequoted⟩ := requoteChars_written hmark hwritten
  rw [requote, htext, hinside]
  exact hrequoted.lexical

end StringLiteral

end FormulaUpgrade
