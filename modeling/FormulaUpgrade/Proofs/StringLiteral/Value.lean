import FormulaUpgrade.Json.Mentions
import FormulaUpgrade.Proofs.StringLiteral
import FormulaUpgrade.Proofs.Text.Utf8
import FormulaUpgrade.Text.Surrogates

/-! # The value of a string literal

A literal stands for the code points of its pieces, in which surrogate pairs are joined. Reading gives
just these, whatever the marks are, and so requoting keeps the value of every literal. A text is the
value of the literal that it is written as.
-/

namespace FormulaUpgrade

open Text Lexeme Token

/-! ## Code points -/

namespace StringLiteral

/-- The code points of pieces. Two code units that make up a surrogate pair are one code point. -/
def joined : List Piece → List Nat
  | [] => []
  | .unit high :: .unit low :: pieces =>
    if (0xD800 ≤ high ∧ high ≤ 0xDBFF) ∧ 0xDC00 ≤ low ∧ low ≤ 0xDFFF then
      (0x10000 + (high - 0xD800) * 0x400 + (low - 0xDC00)) :: joined pieces
    else high :: joined (.unit low :: pieces)
  | piece :: pieces => piece.number :: joined pieces

/-- The code points that a literal stands for. -/
def Denotes (t : String) (points : List Nat) : Prop :=
  ∃ mark ∈ ['"', apostrophe], ∃ body pieces, t.toList = mark :: (body ++ [mark]) ∧
    Written mark body pieces ∧ joined pieces = points

theorem joined_lt {pieces : List Piece} (h : ∀ piece ∈ pieces, piece.number < 0x110000) :
    ∀ point ∈ joined pieces, point < 0x110000 := by
  fun_induction joined pieces with
  | case1 => simp
  | case2 high low pieces hpair ih =>
      simp only [List.forall_mem_cons] at h ⊢
      exact ⟨by omega, ih h.2.2⟩
  | case3 high low pieces hpair ih =>
      simp only [List.forall_mem_cons] at h ih ⊢
      exact ⟨h.1, ih h.2⟩
  | case4 piece pieces _ ih =>
      simp only [List.forall_mem_cons] at h ⊢
      exact ⟨h.1, ih h.2⟩

theorem Written.number_lt {mark : Char} {body : List Char} {pieces : List Piece}
    (h : Written mark body pieces) : ∀ piece ∈ pieces, piece.number < 0x110000 := by
  have hchar (c : Char) : c.toNat < 0x110000 := Text.Utf8.lt_of_isValidChar c.valid
  induction h with
  | nil => simp
  | plain _ _ _ ih => simpa [Piece.number, hchar] using ih
  | escape _ _ ih => simpa [Piece.number, hchar] using ih
  | apostrophe _ _ ih => simpa [Piece.number, hchar] using ih
  | @unicode h₁ h₂ h₃ h₄ _ _ _ _ ih =>
      refine List.forall_mem_cons.mpr ⟨?_, ih⟩
      have hdigit (c : Char) : "0123456789abcdef".toList.idxOf c.toLower ≤ 16 :=
        List.idxOf_le_length
      have := hdigit h₁
      have := hdigit h₂
      have := hdigit h₃
      have := hdigit h₄
      simp only [Piece.number, hexNumber, List.foldl_cons, List.foldl_nil]
      omega

theorem joined_map_char (cs : List Char) : joined (cs.map .char) = cs.map Char.toNat := by
  induction cs with
  | nil => rfl
  | cons c cs ih =>
      rw [List.map_cons, List.map_cons, joined, ih, Piece.number]
      simp

end StringLiteral

namespace Json

open StringLiteral

theorem isSurrogate_toNat (c : Char) : isSurrogate c.toNat = false := by
  have hvalid : c.toNat < 0xD800 ∨ 0xDFFF < c.toNat ∧ c.toNat < 0x110000 := c.valid
  simp [isSurrogate, isHighSurrogate, isLowSurrogate]
  omega

theorem charOfPoint_toNat [Host] (c : Char) : charOfPoint c.toNat = c := by
  rw [charOfPoint, isSurrogate_toNat, if_neg Bool.false_ne_true, Char.ofNat_toNat]

theorem toNat_charOfPoint [Host] {n : Nat} (hn : n < 0x110000) (h : isSurrogate n = false) :
    (charOfPoint n).toNat = n := by
  have hvalid : n.isValidChar := by
    simp [isSurrogate, isHighSurrogate, isLowSurrogate] at h
    unfold Nat.isValidChar
    omega
  rw [charOfPoint, h, if_neg Bool.false_ne_true, Text.Utf8.toNat_ofNat hvalid]

/-- A code point can be read off its character, unless it is the code point of a stand-in. -/
theorem point_charOfPoint [Host] {n : Nat} (hn : n < 0x110000)
    (h : Host.standIns.avoids (n, n)) :
    (Text.surrogate? (charOfPoint n)).getD (charOfPoint n).toNat = n := by
  have havoids : n < Host.standIns.start ∨ Host.standIns.start + 0x800 ≤ n := by
    simpa [Text.Block.avoids] using h
  cases hsurrogate : isSurrogate n with
  | false =>
      have hpoint := toNat_charOfPoint hn hsurrogate
      have hnone : Text.surrogate? (charOfPoint n) = none := by
        simp only [Text.surrogate?, hpoint]
        exact if_neg (by omega)
      rw [hnone, hpoint]
      rfl
  | true =>
      have hrange : 0xD800 ≤ n ∧ n < 0xE000 := by
        simp [isSurrogate, isHighSurrogate, isLowSurrogate] at hsurrogate
        omega
      have hvalid : (Host.standIns.start + (n - 0xD800)).isValidChar := by
        have := Host.standIns.valid
        unfold Nat.isValidChar
        omega
      have hpoint : (charOfPoint n).toNat = Host.standIns.start + (n - 0xD800) := by
        rw [charOfPoint, hsurrogate, if_pos rfl, Text.standIn, Text.Utf8.toNat_ofNat hvalid]
      have hsome : Text.surrogate? (charOfPoint n) = some n := by
        simp only [Text.surrogate?, hpoint]
        rw [if_pos (by omega)]
        congr 1
        omega
      rw [hsome]
      rfl

/-- No character is joined with what stands next to it. -/
theorem pointsOfUnits_map_number (pieces : List Piece) :
    pointsOfUnits (pieces.map Piece.number) = joined pieces := by
  fun_induction joined pieces with
  | case1 => rfl
  | case2 high low pieces hpair ih =>
      have hjoin : isHighSurrogate high && isLowSurrogate low := by
        simp [isHighSurrogate, isLowSurrogate]
        omega
      simp only [List.map_cons, Piece.number, pointsOfUnits, if_pos hjoin, ih]
      rfl
  | case3 high low pieces hpair ih =>
      have hjoin : ¬(isHighSurrogate high && isLowSurrogate low) := by
        simp [isHighSurrogate, isLowSurrogate]
        omega
      simp only [List.map_cons, Piece.number, pointsOfUnits, if_neg hjoin]
      simpa [Piece.number] using ih
  | case4 piece pieces hpair ih =>
      cases pieces with
      | nil => rfl
      | cons next pieces =>
          have hjoin : ¬(isHighSurrogate piece.number && isLowSurrogate next.number) := by
            have hchar := isSurrogate_toNat
            simp only [isSurrogate, Bool.or_eq_false_iff] at hchar
            cases piece with
            | char c => simp [Piece.number, hchar c]
            | unit high =>
                cases next with
                | char c => simp [Piece.number, hchar c]
                | unit low => exact absurd rfl (hpair high low pieces rfl)
          simp only [List.map_cons, pointsOfUnits, if_neg hjoin]
          simpa using ih

/-! ## Reading -/

theorem hexValue?_eq {c : Char} (hc : isHexDigit c) : hexValue? c = some (hexNumber [c]) := by
  have hsmall : ∀ n < 128, isHexDigit (Char.ofNat n) →
      hexValue? (Char.ofNat n) = some (hexNumber [Char.ofNat n]) := by
    decide +kernel
  have hlt : c.toNat < 128 := by
    unfold isHexDigit hexValue? at hc
    simp only [Char.le_def, UInt32.le_iff_toNat_le] at hc
    split at hc
    next h => exact Nat.lt_of_le_of_lt h.2 (by decide)
    next =>
      split at hc
      next h => exact Nat.lt_of_le_of_lt h.2 (by decide)
      next =>
        split at hc
        next h => exact Nat.lt_of_le_of_lt h.2 (by decide)
        next => cases hc
  have h := hsmall c.toNat hlt
  rw [Char.ofNat_toNat] at h
  exact h hc

theorem codeUnit?_eq {h₁ h₂ h₃ h₄ : Char} (h : ∀ h ∈ [h₁, h₂, h₃, h₄], isHexDigit h) :
    codeUnit? h₁ h₂ h₃ h₄ = some (hexNumber [h₁, h₂, h₃, h₄]) := by
  simp only [List.forall_mem_cons] at h
  obtain ⟨hd₁, hd₂, hd₃, hd₄, _⟩ := h
  simp only [codeUnit?, hexValue?_eq hd₁, hexValue?_eq hd₂, hexValue?_eq hd₃, hexValue?_eq hd₄,
    hexNumber, List.foldl_cons, List.foldl_nil, Option.some.injEq]
  omega

section Units

variable {opening pos : Nat} {cs : List Char}

theorem stringUnits_plain {c : Char} (hslash : c ≠ '\\') (hquote : c ≠ '"') :
    stringUnits false opening pos (c :: cs) =
      consUnit c.toNat (stringUnits false opening (pos + 1) cs) := by
  rw [stringUnits, if_neg hquote, if_neg hslash, if_neg (by simp)]
  · simp [hslash]
  · simp [hslash]

theorem stringUnits_escape {c e : Char} (h : (c, e) ∈ shortEscapes) :
    stringUnits false opening pos ('\\' :: c :: cs) =
      consUnit e.toNat (stringUnits false opening (pos + 2) cs) := by
  have hall : ∀ entry ∈ shortEscapes, escaped? entry.1 = some entry.2 ∧ entry.1 ≠ 'u' := by
    decide
  obtain ⟨hescaped, hc⟩ := hall _ h
  rw [stringUnits, if_neg hc, hescaped]
  simp [hc]

theorem stringUnits_unicode {h₁ h₂ h₃ h₄ : Char} (h : ∀ h ∈ [h₁, h₂, h₃, h₄], isHexDigit h)
    (hcs : cs ≠ []) :
    stringUnits false opening pos ('\\' :: 'u' :: h₁ :: h₂ :: h₃ :: h₄ :: cs) =
      consUnit (hexNumber [h₁, h₂, h₃, h₄]) (stringUnits false opening (pos + 6) cs) := by
  have hmore : cs.isEmpty = false := by simpa using hcs
  rw [stringUnits, codeUnit?_eq h, hmore]

theorem stringUnits_quote :
    stringUnits false opening pos ('"' :: cs) = .ok ([], pos + 1, cs) := by
  rw [stringUnits, if_pos rfl] <;> simp

/-- Reading gives the numbers of the pieces, up to the closing quote. -/
theorem stringUnits_written {body : List Char} {pieces : List Piece} (h : Written '"' body pieces)
    (pos : Nat) :
    ∃ pos', stringUnits false opening pos (body ++ '"' :: cs) =
      .ok (pieces.map Piece.number, pos', cs) := by
  induction h generalizing pos with
  | nil => exact ⟨_, stringUnits_quote⟩
  | plain hslash hquote _ ih =>
      obtain ⟨pos', hbody⟩ := ih (pos + 1)
      rw [List.cons_append, stringUnits_plain hslash hquote, hbody]
      exact ⟨pos', rfl⟩
  | escape he _ ih =>
      obtain ⟨pos', hbody⟩ := ih (pos + 2)
      rw [List.cons_append, List.cons_append, stringUnits_escape he, hbody]
      exact ⟨pos', rfl⟩
  | apostrophe hmark => exact absurd hmark (by decide)
  | unicode hhex _ ih =>
      obtain ⟨pos', hbody⟩ := ih (pos + 6)
      simp only [List.cons_append]
      rw [stringUnits_unicode hhex (by simp), hbody]
      exact ⟨pos', rfl⟩

end Units

end Json

/-! ## Values -/

namespace StringLiteral

/-- The code points of a literal in double quotes. -/
theorem pointsOfQuoted_written {body : List Char} {pieces : List Piece}
    (h : Written '"' body pieces) : pointsOfQuoted ('"' :: (body ++ ['"'])) = .ok (joined pieces) := by
  obtain ⟨pos, hunits⟩ := @Json.stringUnits_written 0 [] _ _ h 1
  rw [pointsOfQuoted, List.drop_succ_cons, List.drop_zero, Json.stringPoints, hunits,
    ← Json.pointsOfUnits_map_number]
  rfl

theorem requoteChars_quoted (cs : List Char) : requoteChars ('"' :: cs) = '"' :: cs :=
  if_pos rfl

theorem requote_requote (s : String) : requote (requote s) = requote s := by
  rw [requote, requote, String.toList_ofList, requoteChars, if_pos (head?_requoteChars s.toList)]

/-- A text is written as a literal that stands for its characters. -/
theorem codePoints_quote (s : String) :
    codePoints (Json.quote s) = .ok (s.toList.map Char.toNat) := by
  obtain ⟨pieces, hnumbers, hwritten⟩ := Json.written_flatMap_escapeChar s.toList
  have hchars : pieces.map Piece.number = (s.toList.map .char).map Piece.number := by
    rw [hnumbers, List.map_map]
    rfl
  have hpoints : joined pieces = s.toList.map Char.toNat := by
    rw [← joined_map_char, ← Json.pointsOfUnits_map_number, hchars, Json.pointsOfUnits_map_number]
  rw [codePoints, Json.quote, String.toList_ofList, Json.quoteChars, List.cons_append,
    requoteChars_quoted, pointsOfQuoted_written hwritten, hpoints]

theorem value_quote [Host] (s : String) : value (Json.quote s) = .ok s := by
  rw [value, codePoints_quote]
  simp [Except.map, Json.textOfPoints, Function.comp_def, Json.charOfPoint_toNat]

/-- What a literal was made of can be read off it. -/
theorem quote_injective {s t : String} (h : Json.quote s = Json.quote t) : s = t := by
  let host := Host.usual
  have hvalue := value_quote s
  rw [h, value_quote] at hvalue
  exact (Except.ok.inj hvalue).symm

theorem denotes_of_lexical {t : String} (h : Word.Lexical (.string, t)) :
    ∃ points, Denotes t points := by
  obtain ⟨mark, hmark, body, pieces, ht, hwritten⟩ := written_of_lexical h
  exact ⟨joined pieces, mark, hmark, body, pieces, ht, hwritten, rfl⟩

namespace Denotes

variable {t : String} {points : List Nat}

theorem requote (h : Denotes t points) : Denotes (requote t) points := by
  obtain ⟨mark, hmark, body, pieces, ht, hwritten, hpoints⟩ := h
  obtain ⟨inside, hinside, hwritten'⟩ := requoteChars_written hmark hwritten
  refine ⟨'"', by simp, inside, pieces, ?_, hwritten', hpoints⟩
  rw [StringLiteral.requote, String.toList_ofList, ht, hinside]

theorem codePoints_eq (h : Denotes t points) : codePoints t = .ok points := by
  obtain ⟨mark, hmark, body, pieces, ht, hwritten, rfl⟩ := h
  obtain ⟨inside, hinside, hwritten'⟩ := requoteChars_written hmark hwritten
  rw [codePoints, ht, hinside]
  exact pointsOfQuoted_written hwritten'

/-- A literal stands for one sequence of code points. -/
theorem unique {other : List Nat} (h : Denotes t points) (hother : Denotes t other) :
    other = points := by
  have heq := hother.codePoints_eq.symm.trans h.codePoints_eq
  injection heq

theorem lt (h : Denotes t points) : ∀ point ∈ points, point < 0x110000 := by
  obtain ⟨_, _, _, _, _, hwritten, rfl⟩ := h
  exact joined_lt hwritten.number_lt

end Denotes

/-- A code point that is no surrogate is the character's that stands for it in a text. -/
theorem toNat_textOfPoints [Host] {points : List Nat} (hlt : ∀ point ∈ points, point < 0x110000)
    (h : ∀ point ∈ points, Json.isSurrogate point = false) :
    (Json.textOfPoints points).toList.map Char.toNat = points := by
  rw [Json.textOfPoints, String.toList_ofList, List.map_map]
  refine (List.map_congr_left fun point hpoint => ?_).trans (List.map_id points)
  exact Json.toNat_charOfPoint (hlt point hpoint) (h point hpoint)

/-- All code points can be read off a text, if no stand-in is among them. -/
theorem points_textOfPoints [Host] {points : List Nat} (hlt : ∀ point ∈ points, point < 0x110000)
    (h : ∀ point ∈ points, Host.standIns.avoids (point, point)) :
    Text.points (Json.textOfPoints points) = points := by
  rw [Text.points, Json.textOfPoints, String.toList_ofList, List.map_map]
  refine (List.map_congr_left fun point hpoint => ?_).trans (List.map_id points)
  exact Json.point_charOfPoint (hlt point hpoint) (h point hpoint)

/-- Requoting keeps what a literal stands for. Every literal has a value, which is read off its pieces.
Without surrogates the code points are those of the text's characters, and with surrogates they can be
read off the text if no stand-in is among them. -/
theorem requote_keeps_value [Host] {t : String} (h : Lexer.scan t = ⟨[⟨.string, t, 0⟩], none⟩) :
    Lexer.scan (requote t) = ⟨[⟨.string, requote t, 0⟩], none⟩ ∧
      (∃ body, (requote t).toList = '"' :: (body ++ ['"'])) ∧
      requote (requote t) = requote t ∧
      ∃ points, (∀ other, Denotes t other ↔ other = points) ∧ Denotes (requote t) points ∧
        codePoints t = .ok points ∧ value t = .ok (Json.textOfPoints points) ∧
        ((∀ point ∈ points, Json.isSurrogate point = false) →
          (Json.textOfPoints points).toList.map Char.toNat = points) ∧
        ((∀ point ∈ points, Host.standIns.avoids (point, point)) →
          Text.points (Json.textOfPoints points) = points) := by
  have hlexical := Lexer.scan_eq_single_iff.mp h
  obtain ⟨points, hpoints⟩ := denotes_of_lexical hlexical
  refine ⟨Lexer.scan_eq_single_iff.mpr (lexical_requote hlexical), ?_, requote_requote t, points,
    fun other => ⟨hpoints.unique, fun heq => heq ▸ hpoints⟩, hpoints.requote, hpoints.codePoints_eq,
    ?_, toNat_textOfPoints hpoints.lt, points_textOfPoints hpoints.lt⟩
  · obtain ⟨mark, hmark, body, pieces, ht, hwritten⟩ := written_of_lexical hlexical
    obtain ⟨inside, hinside, _⟩ := requoteChars_written hmark hwritten
    exact ⟨inside, by rw [requote, String.toList_ofList, ht, hinside]⟩
  · rw [value, hpoints.codePoints_eq]
    rfl

/-- An escaped apostrophe, a bare double quote, a surrogate pair and a surrogate without a partner. -/
theorem requote_keeps_value_surrogates :
    Lexer.scan "'\\'\"\\ud83d\\uDE00\\udc00'" =
        ⟨[⟨.string, "'\\'\"\\ud83d\\uDE00\\udc00'", 0⟩], none⟩ ∧
      requote "'\\'\"\\ud83d\\uDE00\\udc00'" = "\"'\\\"\\ud83d\\uDE00\\udc00\"" ∧
      Denotes (requote "'\\'\"\\ud83d\\uDE00\\udc00'") [0x27, 0x22, 0x1F600, 0xDC00] := by
  have hscan : Lexer.scan "'\\'\"\\ud83d\\uDE00\\udc00'" =
      ⟨[⟨.string, "'\\'\"\\ud83d\\uDE00\\udc00'", 0⟩], none⟩ :=
    Lexer.scan_eq_single_iff.mpr (by decide +kernel)
  let host := Host.usual
  obtain ⟨_, _, _, points, _, hdenotes, hpoints, _⟩ := requote_keeps_value hscan
  have hread : (codePoints "'\\'\"\\ud83d\\uDE00\\udc00'").toOption =
      some [0x27, 0x22, 0x1F600, 0xDC00] := by
    decide +kernel
  rw [hpoints] at hread
  obtain rfl : points = [0x27, 0x22, 0x1F600, 0xDC00] := Option.some.inj hread
  exact ⟨hscan, by decide +kernel, hdenotes⟩

end StringLiteral

end FormulaUpgrade
