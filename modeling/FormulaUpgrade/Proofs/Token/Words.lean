import FormulaUpgrade.Proofs.Parser.Grammar
import FormulaUpgrade.Proofs.Token.Lexeme

/-! # The words of a text

The tokens of a text without their places. Reading them is a matter of equations: a blank is
skipped, and a token in front of a text that may follow it is the first word.
-/

namespace FormulaUpgrade

open Token Lexeme

/-! ## Single words -/

namespace Token.Word

/-- A word that is read as itself. -/
def Lexical (w : Word) : Prop :=
  lexeme? w.2.toList = some (w.1, w.2.toList, [])

instance (w : Word) : Decidable w.Lexical :=
  inferInstanceAs (Decidable (_ = _))

/-- What may follow a word, so that the word ends where it does. -/
def EndsAt (w : Word) (tail : List Char) : Prop :=
  Ends w.1 w.2.toList tail

theorem endsAt_nil (w : Word) : w.EndsAt [] := by
  unfold EndsAt Ends
  split <;> simp [EndsNumber]

theorem lexical_of_lexeme? {cs text rest : List Char} {kind : Kind}
    (h : lexeme? cs = some (kind, text, rest)) : Lexical (kind, String.ofList text) := by
  have hnil : Ends kind text [] := by
    simpa [EndsAt] using endsAt_nil (kind, .ofList text)
  simpa [Lexical] using lexeme?_reread h hnil

/-- The word that a text is. -/
def ofText (text : String) : Word :=
  match lexeme? text.toList with
  | some (kind, _) => (kind, text)
  | none => (.name, text)

theorem Lexical.ofText_eq {w : Word} (h : w.Lexical) : ofText w.2 = w := by
  unfold ofText
  rw [show lexeme? w.2.toList = _ from h]

/-- A word is a number, a string, a name or keyword, or a fixed text. -/
theorem Lexical.classes {w : Word} (h : w.Lexical) :
    (w.1 = .number ∧ number? w.2.toList = some (w.2.toList, [])) ∨
    (w.1 = .string ∧ string? w.2.toList = some (w.2.toList, [])) ∨
    (w.1 = nameKind w.2.toList ∧ name? w.2.toList = some (w.2.toList, [])) ∨
    (w.2.toList, w.1) ∈ fixedTexts := by
  unfold Lexical lexeme? at h
  split at h
  next text rest hnumber =>
    obtain ⟨hkind, rfl, rfl⟩ : _ = w.1 ∧ text = w.2.toList ∧ rest = [] := by simpa using h
    exact .inl ⟨hkind.symm, hnumber⟩
  next =>
    split at h
    next text rest hstring =>
      obtain ⟨hkind, rfl, rfl⟩ : _ = w.1 ∧ text = w.2.toList ∧ rest = [] := by simpa using h
      exact .inr (.inl ⟨hkind.symm, hstring⟩)
    next =>
      split at h
      next text rest hname =>
        obtain ⟨hkind, rfl, rfl⟩ : _ = w.1 ∧ text = w.2.toList ∧ rest = [] := by simpa using h
        exact .inr (.inr (.inl ⟨hkind.symm, hname⟩))
      next => exact .inr (.inr (.inr (mem_fixedTexts_of_fixed? h)))

theorem Lexical.kind_eq {k k' : Kind} {text : String} (h : Lexical (k, text))
    (h' : Lexical (k', text)) : k = k' := by
  have heq := h.ofText_eq.symm.trans h'.ofText_eq
  exact (Prod.mk.inj heq).1

theorem lexical_fixed : ∀ entry ∈ fixedTexts, Lexical (entry.2, String.ofList entry.1) := by
  intro entry hentry
  have hnil : Ends entry.2 entry.1 [] := by
    simpa [EndsAt] using endsAt_nil (entry.2, .ofList entry.1)
  simpa using lexical_of_lexeme? (lexeme?_fixed hentry hnil)

/-- Only numbers, strings and names have more than one spelling. -/
theorem Lexical.text_eq {kind : Kind} {text : String} (h : Lexical (kind, text))
    (spelling : String) (h' : Lexical (kind, spelling)) (hkind : kind ∉ [.number, .string, .name]) :
    text = spelling := by
  have hkeyword : ∀ {other : String}, kind = nameKind other.toList →
      (other, kind) ∈ keywords := by
    intro other hother
    rw [nameKind, String.ofList_toList] at hother
    cases hlookup : keywords.lookup other with
    | none => simp_all
    | some k =>
        rw [hlookup] at hother
        exact hother ▸ mem_keywords_of_lookup hlookup
  have hkeywords : ∀ entry ∈ keywords, ∀ other ∈ keywords, entry.2 = other.2 →
      entry.1 = other.1 := by
    decide
  have hfixed : ∀ entry ∈ fixedTexts, ∀ other ∈ fixedTexts, entry.2 = other.2 →
      entry.1 = other.1 := by
    decide
  have hdisjoint : ∀ entry ∈ keywords, ∀ other ∈ fixedTexts, entry.2 ≠ other.2 := by
    decide
  rcases h.classes with ⟨hk, _⟩ | ⟨hk, _⟩ | ⟨hk, _⟩ | hmem
  · simp_all
  · simp_all
  · rcases h'.classes with ⟨hk', _⟩ | ⟨hk', _⟩ | ⟨hk', _⟩ | hmem'
    · simp_all
    · simp_all
    · exact hkeywords _ (hkeyword hk) _ (hkeyword hk') rfl
    · exact absurd rfl (hdisjoint _ (hkeyword hk) _ hmem')
  · rcases h'.classes with ⟨hk', _⟩ | ⟨hk', _⟩ | ⟨hk', _⟩ | hmem'
    · simp_all
    · simp_all
    · exact absurd rfl (hdisjoint _ (hkeyword hk') _ hmem)
    · exact String.toList_inj.mp (hfixed _ hmem _ hmem' rfl)

/-- A text that starts, and not with an equality sign. -/
def StartsOperand (cs : List Char) : Prop :=
  ∃ c ∈ cs.head?, c ≠ '='

@[simp] theorem startsOperand_cons {c : Char} {cs : List Char} :
    StartsOperand (c :: cs) ↔ c ≠ '=' := by
  simp [StartsOperand]

theorem StartsOperand.append {cs : List Char} (h : StartsOperand cs) (tail : List Char) :
    StartsOperand (cs ++ tail) := by
  cases cs with
  | nil => simp [StartsOperand] at h
  | cons c cs => simpa using h

theorem StartsOperand.stops {cs : List Char} (h : StartsOperand cs) : Stops ('=' == ·) cs := by
  cases cs with
  | nil => simp
  | cons c cs => simpa using (startsOperand_cons.mp h).symm

/-- Only the equality sign and the equality operator start with an equality sign. -/
theorem Lexical.startsOperand {w : Word} (h : w.Lexical) (hassign : w.1 ≠ .assign)
    (heq : w.1 ≠ .eq) : StartsOperand w.2.toList := by
  have hne := (lexeme?_split h).2
  cases htext : w.2.toList with
  | nil => exact absurd htext hne
  | cons c more =>
      rw [startsOperand_cons]
      rintro rfl
      have hfixed : ∀ entry ∈ fixedTexts, entry.1.head? = some '=' →
          entry.2 = .assign ∨ entry.2 = .eq := by
        decide
      rcases h.classes with ⟨_, hnumber⟩ | ⟨_, hstring⟩ | ⟨_, hname⟩ | hmem
      · rw [htext, number?_eq_none (by decide) (fun h => absurd h (by decide))] at hnumber
        cases hnumber
      · rw [htext] at hstring
        cases hstring
      · rw [htext] at hname
        cases hname
      · rcases hfixed _ hmem (by simp [htext]) with h | h
        · exact hassign h
        · exact heq h

/-- A name starts with no digit. -/
theorem Lexical.name_head {name : String} (h : Lexical (.name, name)) :
    ∃ c more, name.toList = c :: more ∧ Text.isDecimalDigit c = false := by
  rcases h.classes with ⟨hk, _⟩ | ⟨hk, _⟩ | ⟨_, hname⟩ | hmem
  · cases hk
  · cases hk
  · obtain ⟨c, more, heq, hc⟩ := name?_head hname
    exact ⟨c, more, heq, (isNameStart_only hc).1⟩
  · have hkinds : ∀ entry ∈ fixedTexts, entry.2 ≠ .name := by
      decide
    exact absurd rfl (hkinds _ hmem)

end Token.Word

/-! ## All words -/

namespace Lexer

/-- The words of a scan that reached the end of its text. -/
def Scan.words? (s : Scan) : Option (List Word) :=
  match s.fault with
  | none => some (s.tokens.map Token.word)
  | some _ => none

theorem Scan.words?_eq_some_iff {s : Scan} {ws : List Word} :
    s.words? = some ws ↔ s.fault = none ∧ s.tokens.map Token.word = ws := by
  unfold Scan.words?
  split <;> simp_all

theorem lexeme?_ignored {c : Char} (hc : isIgnored c) (cs : List Char) :
    lexeme? (c :: cs) = none := by
  simp only [isIgnored, Bool.or_eq_true, beq_iff_eq] at hc
  rcases hc with ((rfl | rfl) | rfl) | rfl <;>
  · rw [lexeme?, number?_eq_none (by decide) (fun h => absurd h (by decide))]
    rfl

theorem scanFrom_lexeme {cs text rest : List Char} {kind : Kind}
    (h : lexeme? cs = some (kind, text, rest)) (pos : Nat) :
    scanFrom pos cs = ⟨⟨kind, String.ofList text, pos⟩ ::
      (scanFrom (pos + text.length) rest).tokens, (scanFrom (pos + text.length) rest).fault⟩ := by
  cases cs with
  | nil =>
      obtain ⟨happend, hne⟩ := lexeme?_split h
      simp_all
  | cons c cs =>
      have hc : ¬isIgnored c := by
        intro hc
        rw [lexeme?_ignored hc] at h
        cases h
      rw [scanFrom, if_neg hc]
      split
      · simp_all
      next heq =>
        obtain ⟨rfl, rfl, rfl⟩ : _ = kind ∧ _ = text ∧ _ = rest := by
          simpa using heq.symm.trans h
        rfl

theorem words?_scanFrom_lexeme {cs text rest : List Char} {kind : Kind}
    (h : lexeme? cs = some (kind, text, rest)) (pos : Nat) :
    (scanFrom pos cs).words? =
      (scanFrom (pos + text.length) rest).words?.map ((kind, String.ofList text) :: ·) := by
  rw [scanFrom_lexeme h]
  unfold Scan.words?
  split <;> simp_all [Token.word]

theorem words?_scanFrom (pos pos' : Nat) (cs : List Char) :
    (scanFrom pos cs).words? = (scanFrom pos' cs).words? := by
  fun_induction scanFrom pos cs generalizing pos' with
  | case1 => simp [scanFrom]
  | case2 pos c cs hc ih =>
      rw [scanFrom, if_pos hc]
      exact ih _
  | case3 pos c cs hc hnone =>
      rw [scanFrom, if_neg hc]
      split
      · simp [Scan.words?]
      · simp_all
  | case4 pos c cs hc kind text rest hsome scan ih =>
      have hpos := words?_scanFrom_lexeme hsome pos
      rw [scanFrom_lexeme hsome] at hpos
      rw [hpos, words?_scanFrom_lexeme hsome, ih]

/-- The words of a text whose every character is read. -/
def words? (cs : List Char) : Option (List Word) :=
  (scanFrom 0 cs).words?

@[simp] theorem words?_nil : words? [] = some [] := by
  simp [words?, scanFrom, Scan.words?]

theorem words?_skip {c : Char} (hc : isIgnored c) (cs : List Char) :
    words? (c :: cs) = words? cs := by
  rw [words?, scanFrom, if_pos hc]
  exact words?_scanFrom _ _ cs

@[simp] theorem words?_space (cs : List Char) : words? (' ' :: cs) = words? cs :=
  words?_skip (by decide) cs

theorem words?_lexeme {cs text rest : List Char} {kind : Kind}
    (h : lexeme? cs = some (kind, text, rest)) :
    words? cs = (words? rest).map ((kind, String.ofList text) :: ·) := by
  rw [words?, words?_scanFrom_lexeme h, words?_scanFrom _ 0 rest]
  rfl

/-- A word in front of what may follow it is read first. -/
theorem words?_word {w : Word} (hw : w.Lexical) {tail : List Char} (htail : w.EndsAt tail) :
    words? (w.2.toList ++ tail) = (words? tail).map (w :: ·) := by
  have h := words?_lexeme (lexeme?_reread hw htail)
  rwa [String.ofList_toList] at h

/-- Digits with a point behind them are not read as a number of their own. -/
theorem words?_digits_point {text : String} (hdigits : ∀ c ∈ text.toList, Text.isDecimalDigit c)
    (hne : text.toList ≠ []) (tail : List Char) (rest : List Word) :
    words? (text.toList ++ '.' :: tail) ≠ some ((.number, text) :: rest) := by
  obtain ⟨more, tail', hnumber⟩ := @number?_digits_point _ tail hdigits hne
  rw [words?_lexeme (lexeme?_number hnumber)]
  intro h
  obtain ⟨ws, _, heq⟩ := Option.map_eq_some_iff.mp h
  have htext : String.ofList (text.toList ++ '.' :: more) = text := by
    simpa using (Prod.mk.inj (List.cons.inj heq).1).2
  have hlength := congrArg (fun s => s.toList.length) htext
  simp at hlength

theorem lexical_of_mem_scanFrom (pos : Nat) (cs : List Char) :
    ∀ t ∈ (scanFrom pos cs).tokens, t.word.Lexical := by
  fun_induction scanFrom pos cs with
  | case1 => simp
  | case2 pos c cs hc ih => exact ih
  | case3 => simp
  | case4 pos c cs hc kind text rest hsome scan ih =>
      exact List.forall_mem_cons.mpr ⟨Word.lexical_of_lexeme? hsome, ih⟩

theorem lexical_of_words? {cs : List Char} {ws : List Word} (h : words? cs = some ws) :
    ∀ w ∈ ws, w.Lexical := by
  obtain ⟨_, rfl⟩ := Scan.words?_eq_some_iff.mp h
  simpa using lexical_of_mem_scanFrom 0 cs

/-- A text is scanned as one token just when it is a word of the token's kind. -/
theorem scan_eq_single_iff {kind : Kind} {text : String} :
    scan text = ⟨[⟨kind, text, 0⟩], none⟩ ↔ Word.Lexical (kind, text) := by
  constructor
  · intro h
    have hlexical := lexical_of_mem_scanFrom 0 text.toList
    rw [show scanFrom 0 text.toList = _ from h] at hlexical
    exact hlexical _ List.mem_cons_self
  · intro h
    rw [scan, scanFrom_lexeme h, scanFrom, String.ofList_toList]

end Lexer

end FormulaUpgrade
