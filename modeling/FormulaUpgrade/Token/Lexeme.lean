import FormulaUpgrade.Text.DecimalDigit
import FormulaUpgrade.Text.Hex
import FormulaUpgrade.Text.Quoted
import FormulaUpgrade.Token.Basic

/-! # The token at the head of a text

Each class of tokens has a reader that splits a text into the longest token of the class at its head
and what follows. The classes are tried in a fixed order, and the first that fits decides.
-/

namespace FormulaUpgrade.Lexeme

open Text Token

/-! ## Numbers -/

/-- Digits with an optional fraction, or a fraction with at least one digit. -/
def mantissa? (cs : List Char) : Option (List Char × List Char) :=
  match cs.takeWhile isDecimalDigit, cs.dropWhile isDecimalDigit with
  | [], '.' :: rest =>
    match rest.takeWhile isDecimalDigit with
    | [] => none
    | ds => some ('.' :: ds, rest.dropWhile isDecimalDigit)
  | [], _ => none
  | ds, '.' :: rest =>
    some (ds ++ '.' :: rest.takeWhile isDecimalDigit, rest.dropWhile isDecimalDigit)
  | ds, rest => some (ds, rest)

/-- An optional sign. -/
def sign : List Char → List Char × List Char
  | '+' :: cs => (['+'], cs)
  | '-' :: cs => (['-'], cs)
  | cs => ([], cs)

/-- An exponent, taken only when it has digits. -/
def exponent : List Char → List Char × List Char
  | [] => ([], [])
  | c :: cs =>
    if c = 'e' ∨ c = 'E' then
      match (sign cs).2.takeWhile isDecimalDigit with
      | [] => ([], c :: cs)
      | ds => (c :: (sign cs).1 ++ ds, (sign cs).2.dropWhile isDecimalDigit)
    else ([], c :: cs)

def number? (cs : List Char) : Option (List Char × List Char) :=
  (mantissa? cs).map fun (m, rest) => (m ++ (exponent rest).1, (exponent rest).2)

/-! ## Strings -/

/-- The characters that may follow a backslash, `u` apart. Only a text in apostrophes may escape an
apostrophe. -/
def isEscapable (mark c : Char) : Bool :=
  c == '"' || c == '\\' || c == '/' || c == 'b' || c == 'f' || c == 'n' || c == 'r' || c == 't' ||
    (c == apostrophe && mark == apostrophe)

def isHexDigit (c : Char) : Bool :=
  (hexValue? c).isSome

/-- Puts characters in front of the token part of a split. -/
def prepend (front : List Char) (split : Option (List Char × List Char)) :
    Option (List Char × List Char) :=
  split.map fun (text, rest) => (front ++ text, rest)

/-- The rest of a string opened by `mark`, its closing mark included. -/
def stringBody? (mark : Char) : List Char → Option (List Char × List Char)
  | [] => none
  | '\\' :: 'u' :: h₁ :: h₂ :: h₃ :: h₄ :: cs =>
    if isHexDigit h₁ && isHexDigit h₂ && isHexDigit h₃ && isHexDigit h₄ then
      prepend ['\\', 'u', h₁, h₂, h₃, h₄] (stringBody? mark cs)
    else none
  | '\\' :: c :: cs =>
    if isEscapable mark c then prepend ['\\', c] (stringBody? mark cs) else none
  | c :: cs =>
    if c = mark then some ([c], cs)
    else if c = '\\' then none
    else prepend [c] (stringBody? mark cs)

def string? : List Char → Option (List Char × List Char)
  | [] => none
  | c :: cs => if c = '"' ∨ c = apostrophe then prepend [c] (stringBody? c cs) else none

/-! ## Names and keywords -/

def isNameStart (c : Char) : Bool :=
  ('a' ≤ c && c ≤ 'z') || ('A' ≤ c && c ≤ 'Z') || c == '_'

def isNamePart (c : Char) : Bool :=
  isNameStart c || ('0' ≤ c && c ≤ '9')

def name? : List Char → Option (List Char × List Char)
  | [] => none
  | c :: cs =>
    if isNameStart c then some (c :: cs.takeWhile isNamePart, cs.dropWhile isNamePart) else none

/-- The names that are operators. -/
def keywords : List (String × Kind) :=
  [("and", .and), ("or", .or), ("not", .not), ("xor", .xor), ("mod", .modulo)]

def nameKind (text : List Char) : Kind :=
  (keywords.lookup (String.ofList text)).getD .name

/-! ## Punctuation and operators -/

/-- The tokens with a single spelling. A spelling that starts another one comes after it. -/
def fixedTexts : List (List Char × Kind) := [
  (['=', '='], .eq), (['!', '='], .ne), (['<', '='], .le), (['>', '='], .ge),
  (['<'], .lt), (['>'], .gt),
  (['+'], .plus), (['-'], .minus), (['*'], .times), (['/'], .divide), (['%'], .mod), (['^'], .pow),
  (['!'], .bang), (['?'], .question), ([':'], .colon), (['='], .assign), ([','], .comma),
  (['.'], .dot), ([';'], .semi), (['('], .lparen), ([')'], .rparen),
  (['['], .lbracket), ([']'], .rbracket), (['\x7b'], .lbrace), (['\x7d'], .rbrace)]

def fixed? (cs : List Char) : Option (Kind × List Char × List Char) :=
  fixedTexts.findSome? fun (text, kind) =>
    if text.isPrefixOf cs then some (kind, text, cs.drop text.length) else none

/-! ## The first class that fits -/

/-- The kind and text of the token at the head, and what follows it. -/
def lexeme? (cs : List Char) : Option (Kind × List Char × List Char) :=
  match number? cs with
  | some (text, rest) => some (.number, text, rest)
  | none =>
    match string? cs with
    | some (text, rest) => some (.string, text, rest)
    | none =>
      match name? cs with
      | some (text, rest) => some (nameKind text, text, rest)
      | none => fixed? cs

/-! ## Splits lose nothing and make progress -/

theorem mantissa?_split {cs text rest : List Char} (h : mantissa? cs = some (text, rest)) :
    text ++ rest = cs ∧ text ≠ [] := by
  have hcs := List.takeWhile_append_dropWhile (p := isDecimalDigit) (l := cs)
  unfold mantissa? at h
  split at h
  next tail htake hdrop =>
    have htail := List.takeWhile_append_dropWhile (p := isDecimalDigit) (l := tail)
    split at h
    · simp at h
    · simp only [Option.some.injEq, Prod.mk.injEq] at h
      obtain ⟨rfl, rfl⟩ := h
      simp_all
  next => simp at h
  next tail hdrop _ =>
    have htail := List.takeWhile_append_dropWhile (p := isDecimalDigit) (l := tail)
    simp only [Option.some.injEq, Prod.mk.injEq] at h
    obtain ⟨rfl, rfl⟩ := h
    simpa [htail, hdrop] using hcs
  next hne _ _ =>
    simp only [Option.some.injEq, Prod.mk.injEq] at h
    obtain ⟨rfl, rfl⟩ := h
    exact ⟨hcs, hne⟩

theorem sign_split (cs : List Char) : (sign cs).1 ++ (sign cs).2 = cs := by
  unfold sign
  split <;> simp

theorem exponent_split (cs : List Char) : (exponent cs).1 ++ (exponent cs).2 = cs := by
  cases cs with
  | nil => rfl
  | cons c cs =>
      have hsign := sign_split cs
      have hdigits := List.takeWhile_append_dropWhile (p := isDecimalDigit) (l := (sign cs).2)
      simp only [exponent]
      split
      · split
        · rfl
        · simp [hdigits, hsign]
      · rfl

theorem number?_split {cs text rest : List Char} (h : number? cs = some (text, rest)) :
    text ++ rest = cs ∧ text ≠ [] := by
  obtain ⟨⟨m, tail⟩, hm, heq⟩ := Option.map_eq_some_iff.mp h
  simp only [Prod.mk.injEq] at heq
  obtain ⟨rfl, rfl⟩ := heq
  obtain ⟨happend, hne⟩ := mantissa?_split hm
  simp [exponent_split, happend, hne]

theorem prepend_split {front cs text rest : List Char} {split : Option (List Char × List Char)}
    (hsplit : ∀ {t r}, split = some (t, r) → t ++ r = cs)
    (h : prepend front split = some (text, rest)) : text ++ rest = front ++ cs := by
  obtain ⟨⟨t, r⟩, ht, heq⟩ := Option.map_eq_some_iff.mp h
  simp only [Prod.mk.injEq] at heq
  obtain ⟨rfl, rfl⟩ := heq
  simp [hsplit ht]

theorem stringBody?_split {mark : Char} {cs text rest : List Char}
    (h : stringBody? mark cs = some (text, rest)) : text ++ rest = cs := by
  fun_induction stringBody? mark cs generalizing text rest with
  | case1 => simp at h
  | case2 h₁ h₂ h₃ h₄ cs _ ih => exact prepend_split (fun h => ih h) h
  | case3 => simp at h
  | case4 c cs _ _ ih => exact prepend_split (fun h => ih h) h
  | case5 => simp at h
  | case6 cs _ =>
      simp only [Option.some.injEq, Prod.mk.injEq] at h
      simp [← h.1, h.2]
  | case7 => simp at h
  | case8 c cs _ _ _ _ ih => exact prepend_split (fun h => ih h) h

theorem string?_split {cs text rest : List Char} (h : string? cs = some (text, rest)) :
    text ++ rest = cs ∧ text ≠ [] := by
  cases cs with
  | nil => simp [string?] at h
  | cons c cs =>
      simp only [string?] at h
      split at h
      · have happend : text ++ rest = c :: cs := prepend_split stringBody?_split h
        obtain ⟨⟨t, r⟩, _, heq⟩ := Option.map_eq_some_iff.mp h
        simp only [Prod.mk.injEq] at heq
        exact ⟨happend, by simp [← heq.1]⟩
      · simp at h

theorem name?_split {cs text rest : List Char} (h : name? cs = some (text, rest)) :
    text ++ rest = cs ∧ text ≠ [] := by
  cases cs with
  | nil => simp [name?] at h
  | cons c cs =>
      simp only [name?] at h
      split at h
      · simp only [Option.some.injEq, Prod.mk.injEq] at h
        obtain ⟨rfl, rfl⟩ := h
        simp
      · simp at h

theorem fixed?_split {cs text rest : List Char} {kind : Kind}
    (h : fixed? cs = some (kind, text, rest)) : text ++ rest = cs ∧ text ≠ [] := by
  obtain ⟨⟨spelling, k⟩, hmem, hsome⟩ := List.exists_of_findSome?_eq_some h
  have hne : spelling ≠ [] := by
    have hall : ∀ entry ∈ fixedTexts, entry.1 ≠ [] := by decide
    exact hall _ hmem
  simp only at hsome
  split at hsome
  next hprefix =>
    simp only [Option.some.injEq, Prod.mk.injEq] at hsome
    obtain ⟨rfl, rfl, rfl⟩ := hsome
    obtain ⟨tail, rfl⟩ := List.isPrefixOf_iff_prefix.mp hprefix
    simp [hne]
  next => simp at hsome

/-- A token and what follows it make up the text, and no token is empty. -/
theorem lexeme?_split {cs text rest : List Char} {kind : Kind}
    (h : lexeme? cs = some (kind, text, rest)) : text ++ rest = cs ∧ text ≠ [] := by
  unfold lexeme? at h
  split at h
  next hnumber =>
    simp only [Option.some.injEq, Prod.mk.injEq] at h
    obtain ⟨_, rfl, rfl⟩ := h
    exact number?_split hnumber
  next =>
    split at h
    next hstring =>
      simp only [Option.some.injEq, Prod.mk.injEq] at h
      obtain ⟨_, rfl, rfl⟩ := h
      exact string?_split hstring
    next =>
      split at h
      next hname =>
        simp only [Option.some.injEq, Prod.mk.injEq] at h
        obtain ⟨_, rfl, rfl⟩ := h
        exact name?_split hname
      next => exact fixed?_split h

theorem lexeme?_rest_lt {cs text rest : List Char} {kind : Kind}
    (h : lexeme? cs = some (kind, text, rest)) : rest.length < cs.length := by
  obtain ⟨happend, hne⟩ := lexeme?_split h
  have hpos := List.length_pos_iff.mpr hne
  simp [← happend]
  omega

end FormulaUpgrade.Lexeme
