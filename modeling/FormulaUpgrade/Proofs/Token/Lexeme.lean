import FormulaUpgrade.Token.Lexer

/-! # Where a lexeme ends

A lexeme is read alike in front of every text that cannot continue it. So a token that was read once
is read again wherever a fitting character stands behind it.
-/

namespace FormulaUpgrade.Lexeme

open Text Token

/-! ## Runs of characters -/

/-- A text that does not start with a character of a class. -/
def Stops (p : Char → Bool) (rest : List Char) : Prop :=
  ∀ c ∈ rest.head?, p c = false

@[simp] theorem stops_nil (p : Char → Bool) : Stops p [] := by
  simp [Stops]

@[simp] theorem stops_cons (p : Char → Bool) (c : Char) (rest : List Char) :
    Stops p (c :: rest) ↔ p c = false := by
  simp [Stops]

theorem takeWhile_of_stops {p : Char → Bool} {run rest : List Char} (hrun : ∀ c ∈ run, p c)
    (hrest : Stops p rest) : (run ++ rest).takeWhile p = run := by
  rw [List.takeWhile_append_of_pos hrun]
  cases rest with
  | nil => simp
  | cons c rest => simp_all

theorem dropWhile_of_stops {p : Char → Bool} {run rest : List Char} (hrun : ∀ c ∈ run, p c)
    (hrest : Stops p rest) : (run ++ rest).dropWhile p = rest := by
  rw [List.dropWhile_append_of_pos hrun]
  cases rest with
  | nil => simp
  | cons c rest => simp_all

theorem stops_dropWhile (p : Char → Bool) (cs : List Char) : Stops p (cs.dropWhile p) := by
  induction cs with
  | nil => simp
  | cons c cs ih =>
      cases hc : p c
      · simp [hc]
      · simpa [hc] using ih

theorem forall_mem_takeWhile (p : Char → Bool) (cs : List Char) : ∀ c ∈ cs.takeWhile p, p c := by
  exact List.all_eq_true.mp List.all_takeWhile

/-! ## Numbers -/

theorem mantissa?_fraction {ds fs rest : List Char} (hds : ∀ c ∈ ds, isDecimalDigit c)
    (hfs : ∀ c ∈ fs, isDecimalDigit c) (hne : ds ≠ [] ∨ fs ≠ [])
    (hrest : Stops isDecimalDigit rest) :
    mantissa? (ds ++ '.' :: (fs ++ rest)) = some (ds ++ '.' :: fs, rest) := by
  have hdot : Stops isDecimalDigit ('.' :: (fs ++ rest)) := by
    rw [stops_cons]
    decide
  unfold mantissa?
  rw [takeWhile_of_stops hds hdot, dropWhile_of_stops hds hdot]
  cases ds with
  | nil =>
      have hfs' : fs ≠ [] := by simpa using hne
      simp only [takeWhile_of_stops hfs hrest, dropWhile_of_stops hfs hrest]
      cases fs with
      | nil => exact absurd rfl hfs'
      | cons f fs => rfl
  | cons d ds => simp only [takeWhile_of_stops hfs hrest, dropWhile_of_stops hfs hrest]

theorem mantissa?_whole {ds rest : List Char} (hds : ∀ c ∈ ds, isDecimalDigit c) (hne : ds ≠ [])
    (hrest : Stops isDecimalDigit rest) (hdot : rest.head? ≠ some '.') :
    mantissa? (ds ++ rest) = some (ds, rest) := by
  unfold mantissa?
  rw [takeWhile_of_stops hds hrest, dropWhile_of_stops hds hrest]
  cases ds with
  | nil => exact absurd rfl hne
  | cons d ds =>
      split
      · simp_all
      · simp_all
      · simp_all
      · rfl

/-- A mantissa has a point among its digits, or it is digits only and no point follows. -/
theorem mantissa?_cases {cs m rest : List Char} (h : mantissa? cs = some (m, rest)) :
    (∃ ds fs, m = ds ++ '.' :: fs ∧ (∀ c ∈ ds, isDecimalDigit c) ∧
      (∀ c ∈ fs, isDecimalDigit c) ∧ (ds ≠ [] ∨ fs ≠ [])) ∨
    ((∀ c ∈ m, isDecimalDigit c) ∧ m ≠ []) := by
  have hdigits := forall_mem_takeWhile isDecimalDigit cs
  unfold mantissa? at h
  split at h
  next tail htake hdrop =>
    have htail := forall_mem_takeWhile isDecimalDigit tail
    split at h
    · simp at h
    next hne =>
      simp only [Option.some.injEq, Prod.mk.injEq] at h
      obtain ⟨rfl, _⟩ := h
      exact .inl ⟨[], _, rfl, by simp, htail, .inr hne⟩
  next => simp at h
  next tail hdrop hne =>
    have htail := forall_mem_takeWhile isDecimalDigit tail
    simp only [Option.some.injEq, Prod.mk.injEq] at h
    obtain ⟨rfl, _⟩ := h
    exact .inl ⟨_, _, rfl, hdigits, htail, .inl hne⟩
  next hne _ _ =>
    simp only [Option.some.injEq, Prod.mk.injEq] at h
    obtain ⟨rfl, _⟩ := h
    exact .inr ⟨hdigits, hne⟩

theorem sign_cases (cs : List Char) :
    (sign cs).1 = ['+'] ∨ (sign cs).1 = ['-'] ∨ (sign cs).1 = [] := by
  unfold sign
  split <;> simp

theorem sign_reread (cs : List Char) {ds tail : List Char} (hds : ∀ c ∈ ds, isDecimalDigit c)
    (hne : ds ≠ []) : sign ((sign cs).1 ++ (ds ++ tail)) = ((sign cs).1, ds ++ tail) := by
  have hplain : sign (ds ++ tail) = ([], ds ++ tail) := by
    cases ds with
    | nil => exact absurd rfl hne
    | cons d ds =>
        have hd : isDecimalDigit d := hds d (by simp)
        rw [List.cons_append]
        unfold sign
        split
        · simp_all [show isDecimalDigit '+' = false by decide]
        · simp_all [show isDecimalDigit '-' = false by decide]
        · rfl
  rcases sign_cases cs with h | h | h
  · rw [h]
    rfl
  · rw [h]
    rfl
  · rw [h]
    exact hplain

/-- An exponent is read alike in front of every text that does not start with a digit; if there is
none, the text must not start one. -/
theorem exponent_reread {cs tail : List Char} (hdigit : Stops isDecimalDigit tail)
    (hletter : ∀ c ∈ tail.head?, c ≠ 'e' ∧ c ≠ 'E') :
    exponent ((exponent cs).1 ++ tail) = ((exponent cs).1, tail) := by
  have hnone : exponent tail = ([], tail) := by
    cases tail with
    | nil => rfl
    | cons c tail => simp_all [exponent]
  cases cs with
  | nil => exact hnone
  | cons c cs =>
      have hdigits := forall_mem_takeWhile isDecimalDigit (sign cs).2
      rw [exponent]
      split
      next hc =>
        split
        · exact hnone
        next hne =>
          have hsign := @sign_reread cs _ tail hdigits hne
          simp only [List.cons_append, List.append_assoc, exponent, if_pos hc, hsign,
            takeWhile_of_stops hdigits hdigit, dropWhile_of_stops hdigits hdigit]
      next => exact hnone

theorem exponent_head (cs : List Char) : ∀ c ∈ (exponent cs).1.head?, c = 'e' ∨ c = 'E' := by
  cases cs with
  | nil => simp [exponent]
  | cons c cs =>
      rw [exponent]
      split
      next hc =>
        split
        · simp
        · simpa using hc
      next => simp

/-- What may follow a number: nothing that continues its digits or starts an exponent, and no point
if the number is digits only. -/
def EndsNumber (text tail : List Char) : Prop :=
  Stops isDecimalDigit tail ∧ (∀ c ∈ tail.head?, c ≠ 'e' ∧ c ≠ 'E') ∧
    ((∀ c ∈ text, isDecimalDigit c) → tail.head? ≠ some '.')

theorem number?_reread {cs text rest tail : List Char} (h : number? cs = some (text, rest))
    (htail : EndsNumber text tail) : number? (text ++ tail) = some (text, tail) := by
  obtain ⟨hdigit, hletter, hpoint⟩ := htail
  obtain ⟨⟨m, after⟩, hm, heq⟩ := Option.map_eq_some_iff.mp h
  simp only [Prod.mk.injEq] at heq
  obtain ⟨rfl, rfl⟩ := heq
  have he := exponent_head after
  have hreread := @exponent_reread after tail hdigit hletter
  generalize (exponent after).1 = e at he hreread hpoint ⊢
  have hstops : Stops isDecimalDigit (e ++ tail) := by
    cases e with
    | nil => exact hdigit
    | cons c e =>
        have hc : c = 'e' ∨ c = 'E' := he c rfl
        rcases hc with rfl | rfl <;> rw [List.cons_append, stops_cons] <;> decide
  have hmantissa : mantissa? (m ++ (e ++ tail)) = some (m, e ++ tail) := by
    rcases mantissa?_cases hm with ⟨ds, fs, rfl, hds, hfs, hne⟩ | ⟨hds, hne⟩
    · rw [List.append_assoc, List.cons_append]
      exact mantissa?_fraction hds hfs hne hstops
    · refine mantissa?_whole hds hne hstops ?_
      cases e with
      | nil => exact hpoint (by simpa using hds)
      | cons c e =>
          have hc : c = 'e' ∨ c = 'E' := he c rfl
          rcases hc with rfl | rfl <;> simp
  rw [List.append_assoc, number?, hmantissa]
  simp [hreread]

/-- Digits with a point behind them are not a number of their own. -/
theorem number?_digits_point {ds rest : List Char} (hds : ∀ c ∈ ds, isDecimalDigit c)
    (hne : ds ≠ []) :
    ∃ more tail, number? (ds ++ '.' :: rest) = some (ds ++ '.' :: more, tail) := by
  have hfs := forall_mem_takeWhile isDecimalDigit rest
  have hm := mantissa?_fraction hds hfs (.inl hne) (stops_dropWhile isDecimalDigit rest)
  rw [List.takeWhile_append_dropWhile] at hm
  refine ⟨rest.takeWhile isDecimalDigit ++ (exponent (rest.dropWhile isDecimalDigit)).1,
    (exponent (rest.dropWhile isDecimalDigit)).2, ?_⟩
  rw [number?, hm]
  simp

theorem number?_eq_none {c : Char} {cs : List Char} (hc : isDecimalDigit c = false)
    (hpoint : c = '.' → Stops isDecimalDigit cs) : number? (c :: cs) = none := by
  have hmantissa : mantissa? (c :: cs) = none := by
    unfold mantissa?
    rw [List.takeWhile_cons_of_neg (by simp [hc]), List.dropWhile_cons_of_neg (by simp [hc])]
    split
    next rest _ heq =>
      simp only [List.cons.injEq] at heq
      obtain ⟨rfl, rfl⟩ := heq
      have hempty : cs.takeWhile isDecimalDigit = [] := by
        simpa using @takeWhile_of_stops isDecimalDigit [] cs (by simp) (hpoint rfl)
      simp [hempty]
    · rfl
    · contradiction
    · contradiction
  rw [number?, hmantissa]
  rfl

/-! ## Strings -/

theorem stringBody?_plain {mark c : Char} (hc : c ≠ '\\') (cs : List Char) :
    stringBody? mark (c :: cs) =
      if c = mark then some ([c], cs) else prepend [c] (stringBody? mark cs) := by
  rw [stringBody?.eq_def]
  split <;> simp_all

theorem stringBody?_escape {mark c : Char} (hc : isEscapable mark c) (cs : List Char) :
    stringBody? mark ('\\' :: c :: cs) = prepend ['\\', c] (stringBody? mark cs) := by
  rw [stringBody?.eq_def]
  split
  · simp_all
  · simp_all [isEscapable, apostrophe]
  · simp_all
  next hslash heq =>
    simp only [List.cons.injEq] at heq
    exact absurd heq.2.symm (hslash c cs heq.1.symm)

theorem stringBody?_unicode {mark h₁ h₂ h₃ h₄ : Char}
    (hhex : isHexDigit h₁ && isHexDigit h₂ && isHexDigit h₃ && isHexDigit h₄) (cs : List Char) :
    stringBody? mark ('\\' :: 'u' :: h₁ :: h₂ :: h₃ :: h₄ :: cs) =
      prepend ['\\', 'u', h₁, h₂, h₃, h₄] (stringBody? mark cs) := by
  rw [stringBody?.eq_def]
  simp only [if_pos hhex]

theorem prepend_eq_some {front text rest : List Char} {split : Option (List Char × List Char)}
    (h : prepend front split = some (text, rest)) :
    ∃ more, split = some (more, rest) ∧ text = front ++ more := by
  obtain ⟨⟨more, _⟩, hmore, heq⟩ := Option.map_eq_some_iff.mp h
  simp only [Prod.mk.injEq] at heq
  obtain ⟨rfl, rfl⟩ := heq
  exact ⟨more, hmore, rfl⟩

theorem stringBody?_reread {mark : Char} (hmark : mark ≠ '\\') {cs text rest : List Char}
    (h : stringBody? mark cs = some (text, rest)) (tail : List Char) :
    stringBody? mark (text ++ tail) = some (text, tail) := by
  fun_induction stringBody? mark cs generalizing text rest with
  | case1 => simp at h
  | case2 h₁ h₂ h₃ h₄ cs hhex ih =>
      obtain ⟨more, hmore, rfl⟩ := prepend_eq_some h
      simp only [List.cons_append, List.nil_append]
      rw [stringBody?_unicode hhex, ih hmore]
      rfl
  | case3 => simp at h
  | case4 c cs _ hescape ih =>
      obtain ⟨more, hmore, rfl⟩ := prepend_eq_some h
      simp only [List.cons_append, List.nil_append]
      rw [stringBody?_escape hescape, ih hmore]
      rfl
  | case5 => simp at h
  | case6 cs _ =>
      simp only [Option.some.injEq, Prod.mk.injEq] at h
      obtain ⟨rfl, rfl⟩ := h
      rw [List.cons_append, stringBody?_plain hmark, if_pos rfl, List.nil_append]
  | case7 => simp at h
  | case8 c cs _ _ hc hslash ih =>
      obtain ⟨more, hmore, rfl⟩ := prepend_eq_some h
      simp only [List.cons_append, List.nil_append]
      rw [stringBody?_plain hslash, if_neg hc, ih hmore]
      rfl

theorem string?_reread {cs text rest : List Char} (h : string? cs = some (text, rest))
    (tail : List Char) : string? (text ++ tail) = some (text, tail) := by
  cases cs with
  | nil => simp [string?] at h
  | cons c cs =>
      rw [string?] at h
      split at h
      next hc =>
        obtain ⟨more, hmore, rfl⟩ := prepend_eq_some h
        have hmark : c ≠ '\\' := by
          rcases hc with rfl | rfl <;> decide
        rw [List.cons_append, List.nil_append, List.cons_append, string?, if_pos hc,
          stringBody?_reread hmark hmore]
        rfl
      next => simp at h

/-! ## Names -/

theorem name?_reread {cs text rest tail : List Char} (h : name? cs = some (text, rest))
    (htail : Stops isNamePart tail) : name? (text ++ tail) = some (text, tail) := by
  cases cs with
  | nil => simp [name?] at h
  | cons c cs =>
      rw [name?] at h
      split at h
      next hc =>
        simp only [Option.some.injEq, Prod.mk.injEq] at h
        obtain ⟨rfl, rfl⟩ := h
        have hrun := forall_mem_takeWhile isNamePart cs
        rw [List.cons_append, name?, if_pos hc, takeWhile_of_stops hrun htail,
          dropWhile_of_stops hrun htail]
      next => simp at h

theorem name?_head {cs text rest : List Char} (h : name? cs = some (text, rest)) :
    ∃ c more, text = c :: more ∧ isNameStart c := by
  cases cs with
  | nil => simp [name?] at h
  | cons c cs =>
      rw [name?] at h
      split at h
      next hc =>
        simp only [Option.some.injEq, Prod.mk.injEq] at h
        exact ⟨c, _, h.1.symm, hc⟩
      next => simp at h

theorem isNameStart_lt {c : Char} (hc : isNameStart c) : c.toNat < 128 := by
  simp only [isNameStart, Bool.or_eq_true, Bool.and_eq_true, decide_eq_true_eq, beq_iff_eq,
    Char.le_def, UInt32.le_iff_toNat_le] at hc
  rcases hc with (⟨_, h⟩ | ⟨_, h⟩) | rfl
  · exact Nat.lt_of_le_of_lt h (by decide)
  · exact Nat.lt_of_le_of_lt h (by decide)
  · decide

/-- A letter or underscore starts neither a number nor a string. -/
theorem isNameStart_only {c : Char} (hc : isNameStart c) :
    isDecimalDigit c = false ∧ c ≠ '.' ∧ c ≠ '"' ∧ c ≠ apostrophe := by
  have hsmall : ∀ n < 128, isNameStart (Char.ofNat n) →
      isDecimalDigit (Char.ofNat n) = false ∧ Char.ofNat n ≠ '.' ∧ Char.ofNat n ≠ '"' ∧
        Char.ofNat n ≠ apostrophe := by
    decide +kernel
  have h := hsmall c.toNat (isNameStart_lt hc)
  rw [Char.ofNat_toNat] at h
  exact h hc

/-! ## Fixed texts -/

theorem mem_fixedTexts_of_fixed? {cs text rest : List Char} {kind : Kind}
    (h : fixed? cs = some (kind, text, rest)) : (text, kind) ∈ fixedTexts := by
  obtain ⟨⟨spelling, k⟩, hmem, hsome⟩ := List.exists_of_findSome?_eq_some h
  simp only at hsome
  split at hsome
  next =>
    simp only [Option.some.injEq, Prod.mk.injEq] at hsome
    obtain ⟨rfl, rfl, _⟩ := hsome
    exact hmem
  next => simp at hsome

/-! ## The first class that fits -/

/-- What may follow a token of a kind, so that the token ends where it does. -/
def Ends (kind : Kind) (text tail : List Char) : Prop :=
  match kind with
  | .number => EndsNumber text tail
  | .name | .and | .or | .not | .xor | .modulo => Stops isNamePart tail
  | .lt | .gt | .bang | .assign => Stops ('=' == ·) tail
  | .dot => Stops isDecimalDigit tail
  | _ => True

theorem mem_keywords_of_lookup {text : String} {kind : Kind}
    (h : keywords.lookup text = some kind) : (text, kind) ∈ keywords := by
  obtain ⟨before, after, heq, _⟩ := List.lookup_eq_some_iff.mp h
  rw [heq]
  simp

theorem nameKind_mem (text : List Char) :
    nameKind text ∈ [Kind.name, .and, .or, .not, .xor, .modulo] := by
  unfold nameKind
  cases h : keywords.lookup (String.ofList text) with
  | none => simp
  | some kind =>
      have hkinds : ∀ entry ∈ keywords, entry.2 ∈ [Kind.name, .and, .or, .not, .xor, .modulo] := by
        decide
      exact hkinds _ (mem_keywords_of_lookup h)

theorem stops_of_ends_name {text tail : List Char} (h : Ends (nameKind text) text tail) :
    Stops isNamePart tail := by
  have hmem := nameKind_mem text
  simp only [List.mem_cons, List.not_mem_nil, or_false] at hmem
  rcases hmem with hkind | hkind | hkind | hkind | hkind | hkind <;>
  · rw [hkind] at h
    exact h

theorem fixed?_reread {text tail : List Char} {kind : Kind} (hmem : (text, kind) ∈ fixedTexts)
    (htail : Ends kind text tail) : fixed? (text ++ tail) = some (kind, text, tail) := by
  simp only [fixedTexts, List.mem_cons, Prod.mk.injEq, List.not_mem_nil, or_false] at hmem
  rcases hmem with h | h | h | h | h | h | h | h | h | h | h | h | h | h | h | h | h | h | h | h |
    h | h | h | h | h <;> obtain ⟨rfl, rfl⟩ := h <;> cases tail <;>
    simp_all [fixed?, fixedTexts, Ends, List.findSome?]

theorem fixedTexts_head : ∀ entry ∈ fixedTexts, ∀ c ∈ entry.1.head?, isDecimalDigit c = false ∧
    isNameStart c = false ∧ ¬(c = '"' ∨ c = apostrophe) ∧ (c = '.' → entry = (['.'], .dot)) := by
  have hall : ∀ entry ∈ fixedTexts, entry.1.head?.all fun c => isDecimalDigit c = false ∧
      isNameStart c = false ∧ ¬(c = '"' ∨ c = apostrophe) ∧ (c = '.' → entry = (['.'], .dot)) := by
    decide
  intro entry hentry c hc
  have hhead := hall entry hentry
  rw [Option.mem_def.mp hc] at hhead
  exact of_decide_eq_true hhead

theorem lexeme?_number {cs text rest : List Char} (h : number? cs = some (text, rest)) :
    lexeme? cs = some (.number, text, rest) := by
  rw [lexeme?, h]

theorem lexeme?_string {cs text rest : List Char} (h : string? cs = some (text, rest)) :
    lexeme? cs = some (.string, text, rest) := by
  cases cs with
  | nil => simp [string?] at h
  | cons c cs =>
      have hc : c = '"' ∨ c = apostrophe := by
        by_cases hc : c = '"' ∨ c = apostrophe
        · exact hc
        · simp [string?, hc] at h
      have hdigit : isDecimalDigit c = false := by
        rcases hc with rfl | rfl <;> decide
      have hpoint : c ≠ '.' := by
        rcases hc with rfl | rfl <;> decide
      rw [lexeme?, number?_eq_none hdigit (fun h => absurd h hpoint), h]

theorem lexeme?_name {cs text rest : List Char} (h : name? cs = some (text, rest)) :
    lexeme? cs = some (nameKind text, text, rest) := by
  obtain ⟨c, more, rfl, hc⟩ := name?_head h
  obtain ⟨rfl, _⟩ := name?_split h
  obtain ⟨hdigit, hpoint, hquote, hapostrophe⟩ := isNameStart_only hc
  have hstring : string? (c :: more ++ rest) = none := by
    simp [string?, hquote, hapostrophe]
  rw [lexeme?, hstring, h, List.cons_append, number?_eq_none hdigit (fun h => absurd h hpoint)]

theorem lexeme?_fixed {text tail : List Char} {kind : Kind} (hmem : (text, kind) ∈ fixedTexts)
    (htail : Ends kind text tail) : lexeme? (text ++ tail) = some (kind, text, tail) := by
  have hfixed := fixed?_reread hmem htail
  cases text with
  | nil => exact absurd rfl (fixed?_split hfixed).2
  | cons c more =>
      obtain ⟨hdigit, hname, hquote, hpoint⟩ := fixedTexts_head _ hmem c rfl
      have hnumber : number? (c :: (more ++ tail)) = none := by
        refine number?_eq_none hdigit ?_
        intro hc
        -- only the point itself starts with a point, so the digits would have to follow it
        obtain ⟨hcons, rfl⟩ := Prod.mk.inj (hpoint hc)
        obtain ⟨rfl, rfl⟩ := List.cons.inj hcons
        exact htail
      rw [List.cons_append] at hfixed ⊢
      rw [lexeme?, hnumber, string?, if_neg hquote, name?, if_neg (by simp [hname]), hfixed]

/-- A token that was read once is read again in front of every text that may follow it. -/
theorem lexeme?_reread {cs text rest tail : List Char} {kind : Kind}
    (h : lexeme? cs = some (kind, text, rest)) (htail : Ends kind text tail) :
    lexeme? (text ++ tail) = some (kind, text, tail) := by
  unfold lexeme? at h
  split at h
  next hnumber =>
    simp only [Option.some.injEq, Prod.mk.injEq] at h
    obtain ⟨rfl, rfl, rfl⟩ := h
    exact lexeme?_number (number?_reread hnumber htail)
  next =>
    split at h
    next hstring =>
      simp only [Option.some.injEq, Prod.mk.injEq] at h
      obtain ⟨rfl, rfl, rfl⟩ := h
      exact lexeme?_string (string?_reread hstring tail)
    next =>
      split at h
      next hname =>
        simp only [Option.some.injEq, Prod.mk.injEq] at h
        obtain ⟨rfl, rfl, rfl⟩ := h
        exact lexeme?_name (name?_reread hname (stops_of_ends_name htail))
      next => exact lexeme?_fixed (mem_fixedTexts_of_fixed? h) htail

end FormulaUpgrade.Lexeme
