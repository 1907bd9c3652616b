import FormulaUpgrade.Proofs.Token.Words

/-! # Printed words

A printed text is put together from words and blanks. It reads as its words if each part may stand
in front of the next one.
-/

namespace FormulaUpgrade.Lexer

open Token Lexeme

/-! ## Behind an expression -/

/-- The characters with which a text goes on behind a complete expression. -/
def closers : List Char :=
  [' ', ',', ')', ']', '\x7d', ';', '[']

/-- A text that goes on as behind a complete expression. -/
def Closes (tail : List Char) : Prop :=
  ∀ c ∈ tail.head?, c ∈ closers

@[simp] theorem closes_nil : Closes [] := by
  simp [Closes]

theorem closes_cons {c : Char} (hc : c ∈ closers) (tail : List Char) : Closes (c :: tail) := by
  simpa [Closes] using hc

theorem Closes.endsAt {tail : List Char} (h : Closes tail) (w : Word) : w.EndsAt tail := by
  cases tail with
  | nil => exact w.endsAt_nil
  | cons c tail =>
      have hclosers : closers.all fun c => Text.isDecimalDigit c = false ∧ isNamePart c = false ∧
          c ≠ 'e' ∧ c ≠ 'E' ∧ c ≠ '.' ∧ '=' ≠ c := by
        decide
      have hc := of_decide_eq_true (List.all_eq_true.mp hclosers c (h c rfl))
      unfold Word.EndsAt Ends
      split <;> simp_all [EndsNumber]

theorem endsAt_lparen {kind : Kind} (h : kind ∈ Grammar.callableKinds) (name : String)
    (tail : List Char) : Word.EndsAt (kind, name) ('(' :: tail) := by
  simp only [Grammar.callableKinds, List.mem_cons, List.not_mem_nil, or_false] at h
  rcases h with rfl | rfl | rfl | rfl | rfl <;> exact (stops_cons ..).mpr (by decide)

/-! ## Texts that read as words -/

/-- In front of what may follow it, a text reads as given words exactly under a condition. -/
def ReadsIf (follows : List Char → Prop) (P : Prop) (text : List Char) (ws : List Word) : Prop :=
  ∀ tail rest, follows tail →
    (words? (text ++ tail) = some (ws ++ rest) ↔ P ∧ words? tail = some rest)

variable {F G : List Char → Prop} {P Q : Prop} {a b : List Char} {v w : List Word}

theorem ReadsIf.mono (h : ReadsIf F P a v) (hFG : ∀ tail, G tail → F tail) : ReadsIf G P a v :=
  fun tail rest hG => h tail rest (hFG tail hG)

theorem ReadsIf.congr (h : ReadsIf F P a v) (hPQ : P ↔ Q) : ReadsIf F Q a v := by
  intro tail rest hF
  rw [h tail rest hF, hPQ]

theorem ReadsIf.append (ha : ReadsIf F P a v) (hb : ReadsIf G Q b w)
    (hab : ∀ tail, G tail → F (b ++ tail)) : ReadsIf G (P ∧ Q) (a ++ b) (v ++ w) := by
  intro tail rest hG
  rw [List.append_assoc, List.append_assoc, ha _ _ (hab tail hG), hb _ _ hG, and_assoc]

theorem ReadsIf.space (h : ReadsIf F P a v) : ReadsIf F P (' ' :: a) v := by
  intro tail rest hF
  rw [List.cons_append, words?_space, h tail rest hF]

theorem readsIf_nil : ReadsIf F True [] [] := by
  intro tail rest _
  simp

theorem readsIf_word {kind : Kind} {text : String} (h : Word.Lexical (kind, text)) :
    ReadsIf (Word.EndsAt (kind, text)) True text.toList [(kind, text)] := by
  intro tail rest htail
  rw [words?_word h htail]
  simp

/-- A word in front of a text that may follow it. -/
theorem ReadsIf.cons {kind : Kind} {text : String} (h : Word.Lexical (kind, text))
    (hb : ReadsIf G Q b w) (hends : ∀ tail, G tail → Word.EndsAt (kind, text) (b ++ tail)) :
    ReadsIf G Q (text.toList ++ b) ((kind, text) :: w) :=
  ((readsIf_word h).append hb hends).congr (by simp)

/-- A word behind a text that it closes. -/
theorem ReadsIf.close {kind : Kind} {text : String} (ha : ReadsIf Closes P a v)
    (h : Word.Lexical (kind, text)) (hclose : ∀ tail, Closes (text.toList ++ tail)) :
    ReadsIf (Word.EndsAt (kind, text)) P (a ++ text.toList) (v ++ [(kind, text)]) :=
  (ha.append (readsIf_word h) fun tail _ => hclose tail).congr (by simp)

/-- Texts with a separator and a blank between them. -/
theorem readsIf_intercalate {α : Type} (kind : Kind) (sep gap : String)
    (hgap : gap.toList = sep.toList ++ [' ']) (hsep : Word.Lexical (kind, sep))
    (hclose : ∀ tail, Closes (sep.toList ++ tail)) (text : α → String) (words : α → List Word)
    (P : α → Prop) {parts : List α}
    (hparts : ∀ part ∈ parts, ReadsIf Closes (P part) (text part).toList (words part)) :
    ReadsIf Closes (∀ part ∈ parts, P part) (gap.intercalate (parts.map text)).toList
      ([(kind, sep)].intercalate (parts.map words)) := by
  induction parts with
  | nil => exact readsIf_nil.congr (by simp)
  | cons part parts ih =>
      rw [List.forall_mem_cons] at hparts
      cases parts with
      | nil => simpa using hparts.1
      | cons next parts =>
          have htail := (ih hparts.2).space.cons hsep
            fun tail _ => (closes_cons (by decide) _).endsAt _
          have h := hparts.1.append htail fun tail _ => by
            rw [List.append_assoc]
            exact hclose _
          simpa [String.intercalate_cons_cons, hgap] using h

/-- Texts with commas between them, in brackets. -/
theorem readsIf_bracketed {α : Type} (left right : Kind) (opening closing : String)
    (hleft : Word.Lexical (left, opening)) (hends : ∀ tail, Word.EndsAt (left, opening) tail)
    (hright : Word.Lexical (right, closing)) (hclose : ∀ tail, Closes (closing.toList ++ tail))
    (text : α → String) (words : α → List Word) (P : α → Prop) {parts : List α}
    (hparts : ∀ part ∈ parts, ReadsIf Closes (P part) (text part).toList (words part)) :
    ReadsIf (Word.EndsAt (right, closing)) (∀ part ∈ parts, P part)
      (opening.toList ++ ((", ".intercalate (parts.map text)).toList ++ closing.toList))
      ((left, opening) ::
        ([(.comma, ",")].intercalate (parts.map words) ++ [(right, closing)])) := by
  have hitems := readsIf_intercalate .comma "," ", " (by decide) (by decide)
    (fun tail => closes_cons (by decide) tail) text words P hparts
  exact (hitems.close hright hclose).cons hleft fun _ _ => hends _

end FormulaUpgrade.Lexer
