import FormulaUpgrade.SyntaxTree.Text
import FormulaUpgrade.Proofs.Parser.Correctness
import FormulaUpgrade.Proofs.SyntaxTree.Derivable
import FormulaUpgrade.Proofs.SyntaxTree.Subtrees
import FormulaUpgrade.Proofs.Token.Printed

/-! # Canonical text reads back

The canonical text of a parsed tree has the words of the tree, with one exception: a whole number in
front of a point takes the point, and all digits behind it, for itself.
-/

namespace FormulaUpgrade

open Token Grammar Lexer

theorem Grammar.prefixed_spelling {kind : Kind} {op : String} (hkind : kind ∈ prefixKinds)
    (h : Word.Lexical (kind, op)) :
    (kind = .minus ∧ op = "-") ∨ (kind = .plus ∧ op = "+") ∨ (kind = .not ∧ op = "not") ∨
      (kind = .bang ∧ op = "!") := by
  simp only [prefixKinds, List.mem_cons, List.not_mem_nil, or_false] at hkind
  rcases hkind with rfl | rfl | rfl | rfl
  · simp [h.text_eq "-" (by decide) (by decide)]
  · simp [h.text_eq "+" (by decide) (by decide)]
  · simp [h.text_eq "not" (by decide) (by decide)]
  · simp [h.text_eq "!" (by decide) (by decide)]

namespace SyntaxTree

/-! ## The characters of a text -/

theorem toList_text_call (name : String) (args : List SyntaxTree) :
    (call name args).text.toList =
      name.toList ++ ("(".toList ++ ((commaJoined (texts args)).toList ++ ")".toList)) := by
  simp [text]

theorem toList_text_binary (op : String) (x y : SyntaxTree) :
    (operator op [x, y]).text.toList =
      x.text.toList ++ ' ' :: (op.toList ++ ' ' :: y.text.toList) := by
  simp [text, texts, String.intercalate_cons_cons]

theorem toList_text_sign {op : String} (hop : wordOperators.contains op = false)
    (x : SyntaxTree) : (operator op [x]).text.toList = op.toList ++ x.text.toList := by
  rw [text, prefixText, hop]
  simp

theorem toList_text_word {op : String} (hop : wordOperators.contains op) (x : SyntaxTree) :
    (operator op [x]).text.toList = op.toList ++ ' ' :: x.text.toList := by
  rw [text, prefixText, if_pos hop]
  simp

theorem toList_text_paren (x : SyntaxTree) :
    (paren x).text.toList = "(".toList ++ (x.text.toList ++ ")".toList) := by
  simp [text]

theorem toList_text_conditional (c x y : SyntaxTree) :
    (conditional c x y).text.toList =
      c.text.toList ++ ' ' :: ("?".toList ++ ' ' :: (x.text.toList ++
        ' ' :: (":".toList ++ ' ' :: y.text.toList))) := by
  simp [text]

theorem toList_text_array (items : List SyntaxTree) :
    (array items).text.toList =
      "[".toList ++ ((commaJoined (texts items)).toList ++ "]".toList) := by
  simp [text]

theorem toList_text_object (entries : List (String × SyntaxTree)) :
    (object entries).text.toList =
      "\x7b".toList ++ ((commaJoined (entryTexts entries)).toList ++ "\x7d".toList) := by
  simp [text]

theorem toList_text_assignment (x y : SyntaxTree) :
    (assignment x y).text.toList =
      x.text.toList ++ ' ' :: ("=".toList ++ ' ' :: y.text.toList) := by
  simp [text]

theorem toList_text_index (x : SyntaxTree) (indices : List SyntaxTree) :
    (index x indices).text.toList =
      x.text.toList ++ ("[".toList ++ ((commaJoined (texts indices)).toList ++ "]".toList)) := by
  simp [text]

theorem toList_text_member (x : SyntaxTree) (name : String) :
    (member x name).text.toList = x.text.toList ++ (".".toList ++ name.toList) := by
  simp [text]

theorem toList_text_method (x : SyntaxTree) (name : String) (args : List SyntaxTree) :
    (method x name args).text.toList = x.text.toList ++ (".".toList ++ (name.toList ++
      ("(".toList ++ ((commaJoined (texts args)).toList ++ ")".toList)))) := by
  simp [text]

/-! ## Members of whole numbers -/

/-- A number of decimal digits only. -/
def isWholeNumber : SyntaxTree → Bool
  | .constant .number text => text.toList.all Text.isDecimalDigit
  | _ => false

/-- A member or a method of a whole number. -/
def accessesWholeNumber : SyntaxTree → Bool
  | .member owner _ | .method owner _ _ => owner.isWholeNumber
  | _ => false

/-- No whole number has a member or a method. -/
def Separable (t : SyntaxTree) : Prop :=
  Everywhere (fun x => x.accessesWholeNumber = false) t

theorem separable_iff {t : SyntaxTree} :
    t.Separable ↔ t.accessesWholeNumber = false ∧ ∀ x ∈ t.children, x.Separable :=
  everywhere_iff

@[simp] theorem separable_constant (kind : ConstantKind) (text : String) :
    (constant kind text).Separable := by
  rw [separable_iff]
  simp [accessesWholeNumber, children]

@[simp] theorem separable_symbol (name : String) : (symbol name).Separable := by
  rw [separable_iff]
  simp [accessesWholeNumber, children]

@[simp] theorem separable_call (name : String) (args : List SyntaxTree) :
    (call name args).Separable ↔ ∀ x ∈ args, x.Separable := by
  rw [separable_iff]
  simp [accessesWholeNumber, children]

@[simp] theorem separable_method (x : SyntaxTree) (name : String) (args : List SyntaxTree) :
    (method x name args).Separable ↔
      x.isWholeNumber = false ∧ x.Separable ∧ ∀ y ∈ args, y.Separable := by
  rw [separable_iff]
  simp [accessesWholeNumber, children]

@[simp] theorem separable_member (x : SyntaxTree) (name : String) :
    (member x name).Separable ↔ x.isWholeNumber = false ∧ x.Separable := by
  rw [separable_iff]
  simp [accessesWholeNumber, children]

/-! ## What may follow a text -/

/-- What may follow an expression of a level. A member may follow only a postfix expression that is
not a whole number. -/
def Follows (ℓ : Level) (t : SyntaxTree) (tail : List Char) : Prop :=
  Closes tail ∨ (Level.postfixed.rank ≤ ℓ.rank ∧ tail.head? = some '.' ∧ t.isWholeNumber = false)

/-- The canonical text of a tree has the words `ws` exactly if it is separable. -/
def ReadsBack (ℓ : Level) (ws : List Word) (t : SyntaxTree) : Prop :=
  ReadsIf (Follows ℓ t) t.Separable t.text.toList ws

variable {ℓ : Level} {v w : List Word} {x y : SyntaxTree} {items : List Item}

theorem ReadsBack.closed (h : ReadsBack ℓ v x) : ReadsIf Closes x.Separable x.text.toList v :=
  h.mono fun _ => .inl

/-- A loose expression needs no more than that the text behind it closes it. -/
theorem ReadsBack.of_closed (h : ReadsIf Closes x.Separable x.text.toList v)
    (hℓ : ℓ.rank < Level.postfixed.rank) : ReadsBack ℓ v x := by
  refine h.mono ?_
  rintro tail (htail | ⟨hrank, _⟩)
  · exact htail
  · omega

/-- An expression that ends in a bracket may stand in front of every text. -/
theorem ReadsBack.of_bracketed {kind : Kind} {text : String} {a : List Char} {P : Prop}
    (h : ReadsIf (Word.EndsAt (kind, text)) P a v) (hends : ∀ tail, Word.EndsAt (kind, text) tail)
    (htext : x.text.toList = a) (hsep : P ↔ x.Separable) : ReadsBack ℓ v x := by
  unfold ReadsBack
  rw [htext]
  exact (h.mono fun tail _ => hends tail).congr hsep

theorem ReadsBack.binary {kind : Kind} {op : String}
    (hx : ReadsIf Closes x.Separable x.text.toList v)
    (hop : Word.Lexical (kind, op)) (hy : ReadsIf Closes y.Separable y.text.toList w)
    (hℓ : ℓ.rank < Level.postfixed.rank) :
    ReadsBack ℓ (v ++ (kind, op) :: w) (.operator op [x, y]) := by
  refine .of_closed ?_ hℓ
  rw [toList_text_binary]
  have hright := (hy.space.cons hop fun _ _ => (closes_cons (by decide) _).endsAt _).space
  refine (hx.append hright fun _ _ => closes_cons (by decide) _).congr ?_
  rw [@separable_iff (.operator ..)]
  simp [accessesWholeNumber, children]

theorem ReadsBack.assignment (hx : ReadsIf Closes x.Separable x.text.toList v)
    (hy : ReadsIf Closes y.Separable y.text.toList w) :
    ReadsBack .assignment (v ++ (.assign, "=") :: w) (.assignment x y) := by
  refine .of_closed ?_ (by decide)
  rw [toList_text_assignment]
  have hright := (hy.space.cons (by decide : Word.Lexical (.assign, "="))
    fun _ _ => (closes_cons (by decide) _).endsAt _).space
  refine (hx.append hright fun _ _ => closes_cons (by decide) _).congr ?_
  rw [@separable_iff (.assignment ..)]
  simp [accessesWholeNumber, children]

theorem ReadsBack.conditional {u : List Word} {c : SyntaxTree}
    (hc : ReadsIf Closes c.Separable c.text.toList u)
    (hx : ReadsIf Closes x.Separable x.text.toList v)
    (hy : ReadsIf Closes y.Separable y.text.toList w) :
    ReadsBack .conditional (u ++ (.question, "?") :: (v ++ (.colon, ":") :: w))
      (.conditional c x y) := by
  refine .of_closed ?_ (by decide)
  rw [toList_text_conditional]
  have helse := (hy.space.cons (by decide : Word.Lexical (.colon, ":"))
    fun _ _ => (closes_cons (by decide) _).endsAt _).space
  have hthen := ((hx.append helse fun _ _ => closes_cons (by decide) _).space.cons
    (by decide : Word.Lexical (.question, "?"))
      fun _ _ => (closes_cons (by decide) _).endsAt _).space
  refine (hc.append hthen fun _ _ => closes_cons (by decide) _).congr ?_
  rw [@separable_iff (.conditional ..)]
  simp [accessesWholeNumber, children]

theorem ReadsBack.prefixed {kind : Kind} {op : String} (hkind : kind ∈ prefixKinds)
    (hop : Word.Lexical (kind, op)) (hx : ReadsIf Closes x.Separable x.text.toList v)
    (hstart : Word.StartsOperand x.text.toList) :
    ReadsBack .prefixed ((kind, op) :: v) (.operator op [x]) := by
  refine .of_closed ?_ (by decide)
  have hsep : x.Separable ↔ (operator op [x]).Separable := by
    rw [@separable_iff (.operator ..)]
    simp [accessesWholeNumber, children]
  refine ReadsIf.congr ?_ hsep
  rcases prefixed_spelling hkind hop with
    ⟨rfl, rfl⟩ | ⟨rfl, rfl⟩ | ⟨rfl, rfl⟩ | ⟨rfl, rfl⟩
  · rw [toList_text_sign (by decide)]
    exact hx.cons hop fun _ _ => trivial
  · rw [toList_text_sign (by decide)]
    exact hx.cons hop fun _ _ => trivial
  · rw [toList_text_word (by decide)]
    exact hx.space.cons hop fun _ _ => (closes_cons (by decide) _).endsAt _
  · rw [toList_text_sign (by decide)]
    exact hx.cons hop fun tail _ => (hstart.append tail).stops

/-! ## Lists -/

theorem texts_eq_map (xs : List SyntaxTree) : texts xs = xs.map text := by
  induction xs with
  | nil => rfl
  | cons x xs ih => rw [texts, ih, List.map_cons]

theorem entryTexts_eq_map (entries : List (String × SyntaxTree)) :
    entryTexts entries = entries.map fun entry => entry.1 ++ ": " ++ entry.2.text := by
  induction entries with
  | nil => rfl
  | cons entry entries ih => rw [entryTexts, ih, List.map_cons]

/-- Items between two brackets. -/
theorem readsIf_items (left right : Kind) (opening closing : String)
    (hleft : Word.Lexical (left, opening)) (hends : ∀ tail, Word.EndsAt (left, opening) tail)
    (hright : Word.Lexical (right, closing)) (hclose : ∀ tail, Closes (closing.toList ++ tail))
    (hitems : ∀ item ∈ items, ReadsIf Closes item.2.Separable item.2.text.toList item.1) :
    ReadsIf (Word.EndsAt (right, closing)) (∀ item ∈ items, item.2.Separable)
      (opening.toList ++ ((commaJoined (texts (items.map Prod.snd))).toList ++ closing.toList))
      ((left, opening) :: (commaWords (items.map Prod.fst) ++ [(right, closing)])) := by
  rw [texts_eq_map, List.map_map]
  exact readsIf_bracketed left right opening closing hleft hends hright hclose
    (fun item : Item => item.2.text) Prod.fst (fun item => item.2.Separable) hitems

theorem ReadsBack.paren (hx : ReadsIf Closes x.Separable x.text.toList v) :
    ReadsBack .primary ((.lparen, "(") :: (v ++ [(.rparen, ")")])) (.paren x) := by
  have h := (hx.close (by decide : Word.Lexical (.rparen, ")"))
    fun tail => closes_cons (by decide) tail).cons (by decide : Word.Lexical (.lparen, "("))
      fun _ _ => trivial
  refine .of_bracketed h (fun _ => trivial) (toList_text_paren x) ?_
  rw [@separable_iff (.paren ..)]
  simp [accessesWholeNumber, children]

theorem ReadsBack.array
    (hitems : ∀ item ∈ items, ReadsIf Closes item.2.Separable item.2.text.toList item.1) :
    ReadsBack .primary ((.lbracket, "[") :: (commaWords (items.map Prod.fst) ++ [(.rbracket, "]")]))
      (.array (items.map Prod.snd)) := by
  have h := readsIf_items .lbracket .rbracket "[" "]" (by decide) (fun _ => trivial) (by decide)
    (fun tail => closes_cons (by decide) tail) hitems
  refine .of_bracketed h (fun _ => trivial) (toList_text_array _) ?_
  rw [@separable_iff (.array ..)]
  simp only [accessesWholeNumber, children, List.forall_mem_map, true_and]

/-- The arguments of a call or a method, in parentheses. -/
theorem readsIf_arguments
    (hitems : ∀ item ∈ items, ReadsIf Closes item.2.Separable item.2.text.toList item.1) :
    ReadsIf (Word.EndsAt (.rparen, ")")) (∀ item ∈ items, item.2.Separable)
      ("(".toList ++ ((commaJoined (texts (items.map Prod.snd))).toList ++ ")".toList))
      ((.lparen, "(") :: (commaWords (items.map Prod.fst) ++ [(.rparen, ")")])) :=
  readsIf_items .lparen .rparen "(" ")" (by decide) (fun _ => trivial) (by decide)
    (fun tail => closes_cons (by decide) tail) hitems

theorem ReadsBack.call {kind : Kind} {name : String} (hkind : kind ∈ callableKinds)
    (hname : Word.Lexical (kind, name))
    (hitems : ∀ item ∈ items, ReadsIf Closes item.2.Separable item.2.text.toList item.1) :
    ReadsBack .primary
      ((kind, name) :: (.lparen, "(") :: (commaWords (items.map Prod.fst) ++ [(.rparen, ")")]))
      (.call name (items.map Prod.snd)) := by
  have h := (readsIf_arguments hitems).cons hname fun tail _ => endsAt_lparen hkind name _
  refine .of_bracketed h (fun _ => trivial) (toList_text_call ..) ?_
  rw [separable_call, List.forall_mem_map]

theorem ReadsBack.index (hx : ReadsBack .postfixed v x)
    (hitems : ∀ item ∈ items, ReadsIf Closes item.2.Separable item.2.text.toList item.1) :
    ReadsBack .postfixed
      (v ++ (.lbracket, "[") :: (commaWords (items.map Prod.fst) ++ [(.rbracket, "]")]))
      (.index x (items.map Prod.snd)) := by
  have h := readsIf_items .lbracket .rbracket "[" "]" (by decide) (fun _ => trivial) (by decide)
    (fun tail => closes_cons (by decide) tail) hitems
  refine .of_bracketed (hx.closed.append h fun tail _ => closes_cons (by decide) _)
    (fun _ => trivial) (toList_text_index ..) ?_
  rw [@separable_iff (.index ..)]
  simp only [accessesWholeNumber, children, List.forall_mem_cons, List.forall_mem_map, true_and]

theorem readsIf_entry {kind : Kind} {key : String} (hkind : kind ∈ keyKinds)
    (hkey : Word.Lexical (kind, key)) (hx : ReadsIf Closes x.Separable x.text.toList v) :
    ReadsIf Closes x.Separable (key ++ ": " ++ x.text).toList
      ((kind, key) :: (.colon, ":") :: v) := by
  have hends : ∀ tail, Word.EndsAt (kind, key) (':' :: tail) := by
    intro tail
    simp only [keyKinds, List.mem_cons, List.not_mem_nil, or_false] at hkind
    rcases hkind with rfl | rfl
    · exact (Lexeme.stops_cons ..).mpr (by decide)
    · trivial
  have hvalue := hx.space.cons (by decide : Word.Lexical (.colon, ":")) fun _ _ => trivial
  simpa using hvalue.cons hkey fun tail _ => hends _

/-- Entries between braces. -/
theorem ReadsBack.object {entries : List (Word × Item)}
    (hkinds : ∀ entry ∈ entries, entry.1.1 ∈ keyKinds)
    (hkeys : ∀ entry ∈ entries, entry.1.Lexical)
    (hvalues : ∀ entry ∈ entries,
      ReadsIf Closes entry.2.2.Separable entry.2.2.text.toList entry.2.1) :
    ReadsBack .primary
      ((.lbrace, "\x7b") :: (commaWords (entries.map entryWords) ++ [(.rbrace, "\x7d")]))
      (.object (entries.map entryTree)) := by
  have hbraces : ReadsIf (Word.EndsAt (.rbrace, "\x7d")) (∀ entry ∈ entries, entry.2.2.Separable)
      ("\x7b".toList ++
        ((commaJoined (entryTexts (entries.map entryTree))).toList ++ "\x7d".toList))
      ((.lbrace, "\x7b") :: (commaWords (entries.map entryWords) ++ [(.rbrace, "\x7d")])) := by
    rw [entryTexts_eq_map, List.map_map]
    refine readsIf_bracketed .lbrace .rbrace "\x7b" "\x7d" (by decide) (fun _ => trivial)
      (by decide) (fun tail => closes_cons (by decide) tail) _ entryWords
      (fun entry => entry.2.2.Separable) ?_
    rintro ⟨⟨kind, key⟩, ws, t⟩ h
    have hkind := hkinds _ h
    have hkey := hkeys _ h
    have hvalue := hvalues _ h
    exact readsIf_entry hkind hkey hvalue
  refine .of_bracketed hbraces (fun _ => trivial) (toList_text_object _) ?_
  rw [@separable_iff (.object ..)]
  simp only [accessesWholeNumber, children, List.forall_mem_map, true_and, entryTree]

/-! ## Members -/

/-- A point behind a tree makes the tree part of a member, unless the tree is a whole number. -/
theorem ReadsBack.point {F : List Char → Prop} {Q : Prop} {b : List Char}
    (hx : ReadsBack .postfixed v x) (hwords : x.words = v) (hv : ∀ w ∈ v, w.Lexical)
    (hb : ReadsIf F Q b w)
    (hdigit : ∀ tail, F tail → Lexeme.Stops Text.isDecimalDigit (b ++ tail)) :
    ReadsIf F (x.isWholeNumber = false ∧ x.Separable ∧ Q) (x.text.toList ++ (".".toList ++ b))
      (v ++ (.dot, ".") :: w) := by
  cases hwhole : x.isWholeNumber with
  | false =>
      have hpoint := hb.cons (by decide : Word.Lexical (.dot, ".")) hdigit
      exact (hx.append hpoint fun _ _ => .inr ⟨by decide, rfl, hwhole⟩).congr (by simp)
  | true =>
      match x, hwhole with
      | .constant .number text, hwhole =>
        obtain rfl := hwords
        have hlexical : Word.Lexical (.number, text) := hv _ (by simp [words])
        intro tail rest _
        refine iff_of_false ?_ (by simp)
        simpa [words, SyntaxTree.text] using words?_digits_point
          (by simpa [isWholeNumber] using hwhole) (Lexeme.lexeme?_split hlexical).2 _ _

theorem stops_digit_of_name {name : String} (h : Word.Lexical (.name, name)) (tail : List Char) :
    Lexeme.Stops Text.isDecimalDigit (name.toList ++ tail) := by
  obtain ⟨c, more, heq, hc⟩ := h.name_head
  rw [heq, List.cons_append, Lexeme.stops_cons]
  exact hc

theorem ReadsBack.member {name : String} (hx : ReadsBack .postfixed v x) (hwords : x.words = v)
    (hv : ∀ w ∈ v, w.Lexical) (hname : Word.Lexical (.name, name)) :
    ReadsBack .postfixed (v ++ [(.dot, "."), (.name, name)]) (.member x name) := by
  have hends : ∀ tail, Follows .postfixed (.member x name) tail →
      Word.EndsAt (.name, name) tail := by
    rintro tail (hclose | ⟨_, hpoint, _⟩)
    · exact hclose.endsAt _
    · intro c hc
      obtain rfl : c = '.' := by simpa [hpoint, eq_comm] using hc
      decide
  unfold ReadsBack
  rw [toList_text_member]
  refine (hx.point hwords hv ((readsIf_word hname).mono hends)
    fun tail _ => stops_digit_of_name hname tail).congr ?_
  simp

theorem ReadsBack.method {name : String} (hx : ReadsBack .postfixed v x) (hwords : x.words = v)
    (hv : ∀ w ∈ v, w.Lexical) (hname : Word.Lexical (.name, name))
    (hitems : ∀ item ∈ items, ReadsIf Closes item.2.Separable item.2.text.toList item.1) :
    ReadsBack .postfixed
      (v ++ (.dot, ".") :: (.name, name) :: (.lparen, "(") ::
        (commaWords (items.map Prod.fst) ++ [(.rparen, ")")]))
      (.method x name (items.map Prod.snd)) := by
  have hcall := (readsIf_arguments hitems).cons hname
    fun tail _ => (Lexeme.stops_cons ..).mpr (by decide)
  refine .of_bracketed (hx.point hwords hv hcall fun tail _ => ?_) (fun _ => trivial)
    (toList_text_method ..) ?_
  · rw [List.append_assoc]
    exact stops_digit_of_name hname _
  · rw [separable_method, List.forall_mem_map]

/-- A leaf is a single word. Only a whole number cannot stand in front of a point. -/
theorem ReadsBack.leaf {kind : Kind} {text : String} (h : Word.Lexical (kind, text))
    (htext : x.text = text) (hchildren : x.children = []) (haccess : x.accessesWholeNumber = false)
    (hpoint : x.isWholeNumber = false → ∀ tail, Word.EndsAt (kind, text) ('.' :: tail)) :
    ReadsBack .primary [(kind, text)] x := by
  have hsep : x.Separable := by
    rw [separable_iff, hchildren]
    simpa using haccess
  unfold ReadsBack
  rw [htext]
  refine ((readsIf_word h).mono ?_).congr (by simpa using hsep)
  rintro tail (hclose | ⟨_, hhead, hwhole⟩)
  · exact hclose.endsAt _
  · obtain ⟨rest, rfl⟩ := List.head?_eq_some_iff.mp hhead
    exact hpoint hwhole rest

end SyntaxTree

open SyntaxTree

/-! ## The first character -/

/-- The canonical text of an expression starts, and not with an equality sign. -/
theorem Grammar.Derives.text_startsOperand {ℓ : Level} {ws : List Word} {t : SyntaxTree}
    (h : Derives ℓ ws t) (hws : ∀ w ∈ ws, w.Lexical) : Word.StartsOperand t.text.toList := by
  induction h with
  | tighter _ ih => exact ih hws
  | assignment _ _ ih _ =>
      rw [toList_text_assignment]
      exact (ih (List.forall_mem_append.mp hws).1).append _
  | conditional _ _ _ ih _ _ =>
      rw [toList_text_conditional]
      exact (ih (List.forall_mem_append.mp hws).1).append _
  | infixed _ _ _ ih _ | power _ _ ih _ =>
      rw [toList_text_binary]
      exact (ih (List.forall_mem_append.mp hws).1).append _
  | prefixed hkind _ _ =>
      rcases prefixed_spelling hkind (List.forall_mem_cons.mp hws).1 with
        ⟨rfl, rfl⟩ | ⟨rfl, rfl⟩ | ⟨rfl, rfl⟩ | ⟨rfl, rfl⟩ <;>
        simp [SyntaxTree.text, prefixText, wordOperators]
  | index _ _ _ ih _ =>
      rw [toList_text_index]
      exact (ih (List.forall_mem_append.mp hws).1).append _
  | member _ ih =>
      rw [toList_text_member]
      exact (ih (List.forall_mem_append.mp hws).1).append _
  | method _ _ ih _ =>
      rw [toList_text_method]
      exact (ih (List.forall_mem_append.mp hws).1).append _
  | number | string | symbol =>
      have hword := (List.forall_mem_cons.mp hws).1
      exact hword.startsOperand (by simp) (by simp)
  | paren _ ih => simp [toList_text_paren]
  | call hkind _ ihitems =>
      rw [toList_text_call]
      refine (Word.Lexical.startsOperand (List.forall_mem_cons.mp hws).1 ?_ ?_).append _
      · rintro rfl
        exact absurd hkind (by decide)
      · rintro rfl
        exact absurd hkind (by decide)
  | array _ ihitems => simp [toList_text_array]
  | object _ _ ihentries => simp [toList_text_object]

/-! ## Whole texts -/

/-- The canonical text of a derived tree has the words of the derivation exactly if the tree is
separable. -/
theorem Grammar.Derives.readsBack {ℓ : Level} {ws : List Word} {t : SyntaxTree}
    (h : Derives ℓ ws t) (hws : ∀ w ∈ ws, w.Lexical) : ReadsBack ℓ ws t := by
  induction h with
  | @tighter ℓ _ _ _ ih =>
      refine (ih hws).mono ?_
      rintro tail (hclose | ⟨hrank, hpoint⟩)
      · exact .inl hclose
      · exact .inr ⟨Nat.le_trans hrank ℓ.rank_le_rank_next, hpoint⟩
  | assignment _ _ ihx ihy =>
      rw [List.forall_mem_append, List.forall_mem_cons] at hws
      exact .assignment (ihx hws.1).closed (ihy hws.2.2).closed
  | conditional _ _ _ ihc ihx ihy =>
      simp only [List.forall_mem_append, List.forall_mem_cons] at hws
      exact .conditional (ihc hws.1).closed (ihx hws.2.2.1).closed (ihy hws.2.2.2.2).closed
  | @infixed ℓ _ _ _ _ _ _ hkind _ _ ihx ihy =>
      rw [List.forall_mem_append, List.forall_mem_cons] at hws
      have hℓ : ℓ.rank < Level.postfixed.rank := by
        revert hkind
        cases ℓ <;> simp [Level.operators, Level.rank]
      exact .binary (ihx hws.1).closed hws.2.1 (ihy hws.2.2).closed hℓ
  | prefixed hkind hx ih =>
      rw [List.forall_mem_cons] at hws
      exact .prefixed hkind hws.1 (ih hws.2).closed (hx.text_startsOperand hws.2)
  | power _ _ ihx ihy =>
      rw [List.forall_mem_append, List.forall_mem_cons] at hws
      exact .binary (ihx hws.1).closed hws.2.1 (ihy hws.2.2).closed (by decide)
  | index _ _ _ ihx ihitems =>
      simp only [List.forall_mem_append, List.forall_mem_cons] at hws
      have hitems := forall_mem_items hws.2.2.1
      exact .index (ihx hws.1) fun item h => (ihitems item h (hitems item h)).closed
  | member hx ih =>
      simp only [List.forall_mem_append, List.forall_mem_cons] at hws
      exact .member (ih hws.1) (hx.words_eq hws.1) hws.1 hws.2.2.1
  | method hx _ ihx ihitems =>
      simp only [List.forall_mem_append, List.forall_mem_cons] at hws
      have hitems := forall_mem_items hws.2.2.2.2.1
      exact .method (ihx hws.1) (hx.words_eq hws.1) hws.1 hws.2.2.1
        fun item h => (ihitems item h (hitems item h)).closed
  | @number text =>
      refine .leaf (List.forall_mem_cons.mp hws).1 rfl rfl rfl fun hwhole tail => ⟨?_, ?_, ?_⟩
      · exact (Lexeme.stops_cons ..).mpr (by decide)
      · simp
      · intro hdigits
        rw [isWholeNumber, List.all_eq_true.mpr hdigits] at hwhole
        cases hwhole
  | string => exact .leaf (List.forall_mem_cons.mp hws).1 rfl rfl rfl fun _ _ => trivial
  | symbol =>
      exact .leaf (List.forall_mem_cons.mp hws).1 rfl rfl rfl
        fun _ _ => (Lexeme.stops_cons ..).mpr (by decide)
  | paren _ ih =>
      simp only [List.forall_mem_append, List.forall_mem_cons] at hws
      exact .paren (ih hws.2.1).closed
  | call hkind _ ihitems =>
      simp only [List.forall_mem_append, List.forall_mem_cons] at hws
      have hitems := forall_mem_items hws.2.2.1
      exact .call hkind hws.1 fun item h => (ihitems item h (hitems item h)).closed
  | array _ ihitems =>
      simp only [List.forall_mem_append, List.forall_mem_cons] at hws
      have hitems := forall_mem_items hws.2.1
      exact .array fun item h => (ihitems item h (hitems item h)).closed
  | object hkinds _ ihentries =>
      simp only [List.forall_mem_append, List.forall_mem_cons] at hws
      have hentries := forall_mem_entries hws.2.1
      exact .object hkinds (fun entry h => (hentries entry h).1)
        fun entry h => (ihentries entry h (hentries entry h).2).closed

/-- The canonical text of the statements of a formula. -/
theorem Grammar.readsBack_statements {items : List Item} (hne : items ≠ [])
    (hitems : ∀ item ∈ items, Derives .assignment item.1 item.2)
    (hws : ∀ item ∈ items, ∀ w ∈ item.1, w.Lexical) :
    ReadsIf Closes (statementTree (items.map Prod.snd)).Separable
      (statementTree (items.map Prod.snd)).text.toList (statementWords items) := by
  have hreads : ∀ item ∈ items, ReadsIf Closes item.2.Separable item.2.text.toList item.1 :=
    fun item h => ((hitems item h).readsBack (hws item h)).closed
  match items, hne with
  | [item], _ => simpa [statementTree] using hreads
  | item :: next :: rest, _ =>
    have htree : statementTree ((item :: next :: rest).map Prod.snd) =
        .block ((item :: next :: rest).map Prod.snd) := rfl
    have hsep : (∀ part ∈ item :: next :: rest, part.2.Separable) ↔
        (block ((item :: next :: rest).map Prod.snd)).Separable := by
      rw [@separable_iff (.block ..)]
      simp only [accessesWholeNumber, children, List.forall_mem_map, true_and]
    rw [htree, SyntaxTree.text, texts_eq_map, List.map_map]
    exact (readsIf_intercalate .semi ";" "; " (by decide) (by decide)
      (fun tail => closes_cons (by decide) tail) (fun item : Item => item.2.text) Prod.fst
      (fun item => item.2.Separable) hreads).congr hsep

/-- The words of a tree derive the tree, and its canonical text has no other words exactly if the
tree is separable. -/
theorem Grammar.Sentence.text_words {ws : List Word} {t : SyntaxTree} (h : Sentence ws t)
    (hws : ∀ w ∈ ws, w.Lexical) :
    Sentence t.words t ∧
      ∀ rest, words? t.text.toList = some (t.words ++ rest) ↔ t.Separable ∧ rest = [] := by
  obtain ⟨items, hne, hitems, rfl, hlexical⟩ : ∃ items : List Item, items ≠ [] ∧
      (∀ item ∈ items, Derives .assignment item.1 item.2) ∧
      t = statementTree (items.map Prod.snd) ∧ ∀ w ∈ statementWords items, w.Lexical := by
    cases h with
    | statements hne hitems => exact ⟨_, hne, hitems, rfl, hws⟩
    | ended hne hitems => exact ⟨_, hne, hitems, rfl, (List.forall_mem_append.mp hws).1⟩
  have hparts : ∀ item ∈ items, ∀ w ∈ item.1, w.Lexical := fun item h =>
    forall_mem_of_intercalate hlexical _ (List.mem_map_of_mem h)
  have hwords := words_statementTree hne hitems hlexical
  refine ⟨?_, fun rest => ?_⟩
  · rw [hwords]
    exact .statements hne hitems
  · have hreads := readsBack_statements hne hitems hparts [] rest closes_nil
    rw [List.append_nil] at hreads
    rw [hwords, hreads]
    simp [eq_comm]

/-- The canonical text of a derivable tree parses to the tree, if it is separable. -/
theorem Grammar.Derivable.parse_text {ℓ : Level} {t : SyntaxTree} (h : Derivable ℓ t)
    (hsep : t.Separable) : SyntaxTree.parse t.text = .ok t := by
  have hassignment : Derivable .assignment t := h.loosen (Nat.zero_le _)
  obtain ⟨ws, hderives, hws⟩ := hassignment
  obtain ⟨hself, htext⟩ := (Sentence.of_derives hderives).text_words hws
  refine parse_eq_ok_iff.mpr ⟨t.words, ?_, hself⟩
  simpa using (htext []).mpr ⟨hsep, rfl⟩

namespace SyntaxTree

/-- The canonical text of a parsed tree parses to the same tree exactly if no whole number in the
tree has a member or a method. -/
theorem parse_text_iff_separable (s : String) (t : SyntaxTree) (h : parse s = .ok t) :
    parse t.text = .ok t ↔ ∀ x, Within x t → x.accessesWholeNumber = false := by
  obtain ⟨ws, hws, hsentence⟩ := parse_eq_ok_iff.mp h
  obtain ⟨hself, htext⟩ := hsentence.text_words (lexical_of_words? hws)
  rw [parse_eq_ok_iff]
  constructor
  · rintro ⟨vs, hvs, hsentence'⟩
    -- whichever words the text has, the tree spells them
    rcases hsentence'.words_eq (lexical_of_words? hvs) with rfl | rfl
    · exact ((htext []).mp (by simpa using hvs)).1
    · exact ((htext _).mp hvs).1
  · intro hsep
    exact ⟨t.words, by simpa using (htext []).mpr ⟨hsep, rfl⟩, hself⟩

/-- A member of a whole number is lost in the canonical text, one of another number is kept. -/
theorem parse_text_iff_separable_numbers :
    (parse "1 .e5" = .ok (.member (.constant .number "1") "e5") ∧
      parse (member (.constant .number "1") "e5").text ≠
        .ok (.member (.constant .number "1") "e5")) ∧
    (parse "1.5 .e5" = .ok (.member (.constant .number "1.5") "e5") ∧
      parse (member (.constant .number "1.5") "e5").text =
        .ok (.member (.constant .number "1.5") "e5")) := by
  have hwhole : parse "1 .e5" = .ok (.member (.constant .number "1") "e5") :=
    parse_eq_ok_iff_feed.mpr
      ⟨[(.number, "1"), (.dot, "."), (.name, "e5")], _, by decide +kernel, rfl, rfl⟩
  have hfraction : parse "1.5 .e5" = .ok (.member (.constant .number "1.5") "e5") :=
    parse_eq_ok_iff_feed.mpr
      ⟨[(.number, "1.5"), (.dot, "."), (.name, "e5")], _, by decide +kernel, rfl, rfl⟩
  refine ⟨⟨hwhole, fun h => ?_⟩, hfraction, (parse_text_iff_separable _ _ hfraction).mpr ?_⟩
  · have haccess := (parse_text_iff_separable _ _ hwhole).mp h _ (.self _)
    exact absurd haccess (by decide)
  · have hsep : (member (.constant .number "1.5") "e5").Separable :=
      (separable_member ..).mpr ⟨by decide, separable_constant _ _⟩
    exact hsep

end SyntaxTree

end FormulaUpgrade
