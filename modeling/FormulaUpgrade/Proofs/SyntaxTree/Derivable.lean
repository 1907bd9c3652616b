import FormulaUpgrade.Proofs.SyntaxTree.Words

/-! # Trees that the grammar derives

A tree is derivable at a level if it is the tree of some words of that level, all of which are read
as themselves. Each rule of the grammar builds derivable trees from derivable parts.
-/

namespace FormulaUpgrade.Grammar

open Token

/-- A tree of words that are read as themselves. -/
def Derivable (ℓ : Level) (t : SyntaxTree) : Prop :=
  ∃ ws, Derives ℓ ws t ∧ ∀ w ∈ ws, w.Lexical

namespace Derivable

variable {ℓ : Level} {t x y : SyntaxTree}

theorem loosen {ℓ' : Level} (h : Derivable ℓ t) (hrank : ℓ'.rank ≤ ℓ.rank) : Derivable ℓ' t := by
  obtain ⟨ws, hderives, hws⟩ := h
  exact ⟨ws, hderives.loosen hrank, hws⟩

/-- A derivable tree is derived from its own words. -/
theorem derives_words (h : Derivable ℓ t) : Derives ℓ t.words t := by
  obtain ⟨ws, hderives, hws⟩ := h
  rw [hderives.words_eq hws]
  exact hderives

theorem number {text : String} (h : Word.Lexical (.number, text)) :
    Derivable .primary (.constant .number text) :=
  ⟨_, .number, by simpa using h⟩

theorem string {text : String} (h : Word.Lexical (.string, text)) :
    Derivable .primary (.constant .string text) :=
  ⟨_, .string, by simpa using h⟩

theorem symbol {name : String} (h : Word.Lexical (.name, name)) :
    Derivable .primary (.symbol name) :=
  ⟨_, .symbol, by simpa using h⟩

theorem paren (h : Derivable .assignment x) : Derivable .primary (.paren x) := by
  obtain ⟨ws, hderives, hws⟩ := h
  refine ⟨_, .paren hderives, ?_⟩
  simp only [List.forall_mem_cons, List.forall_mem_append]
  exact ⟨by decide, hws, by decide, by simp⟩

theorem prefixed {kind : Kind} {op : String} (hkind : kind ∈ prefixKinds)
    (hop : Word.Lexical (kind, op)) (h : Derivable .prefixed x) :
    Derivable .prefixed (.operator op [x]) := by
  obtain ⟨ws, hderives, hws⟩ := h
  exact ⟨_, .prefixed hkind hderives, List.forall_mem_cons.mpr ⟨hop, hws⟩⟩

theorem infixed {kind : Kind} {op : String} (hkind : kind ∈ ℓ.operators)
    (hop : Word.Lexical (kind, op)) (hx : Derivable ℓ x) (hy : Derivable ℓ.next y) :
    Derivable ℓ (.operator op [x, y]) := by
  obtain ⟨v, hderives, hv⟩ := hx
  obtain ⟨w, hderives', hw⟩ := hy
  refine ⟨_, .infixed hkind hderives hderives', ?_⟩
  simp only [List.forall_mem_append, List.forall_mem_cons]
  exact ⟨hv, hop, hw⟩

theorem power (hx : Derivable .postfixed x) (hy : Derivable .prefixed y) :
    Derivable .power (.operator "^" [x, y]) := by
  obtain ⟨v, hderives, hv⟩ := hx
  obtain ⟨w, hderives', hw⟩ := hy
  refine ⟨_, .power hderives hderives', ?_⟩
  simp only [List.forall_mem_append, List.forall_mem_cons]
  exact ⟨hv, by decide, hw⟩

theorem conditional {c : SyntaxTree} (hc : Derivable .or c) (hx : Derivable .assignment x)
    (hy : Derivable .conditional y) : Derivable .conditional (.conditional c x y) := by
  obtain ⟨u, hderives, hu⟩ := hc
  obtain ⟨v, hderives', hv⟩ := hx
  obtain ⟨w, hderives'', hw⟩ := hy
  refine ⟨_, .conditional hderives hderives' hderives'', ?_⟩
  simp only [List.forall_mem_append, List.forall_mem_cons]
  exact ⟨hu, by decide, hv, by decide, hw⟩

/-! ## Lists -/

theorem exists_items {xs : List SyntaxTree} (h : ∀ x ∈ xs, Derivable .assignment x) :
    ∃ items : List Item, items.map Prod.snd = xs ∧
      (∀ item ∈ items, Derives .assignment item.1 item.2) ∧
      ∀ w ∈ commaWords (items.map Prod.fst), w.Lexical := by
  induction xs with
  | nil => exact ⟨[], rfl, by simp, by simp⟩
  | cons x xs ih =>
      rw [List.forall_mem_cons] at h
      obtain ⟨ws, hderives, hws⟩ := h.1
      obtain ⟨items, rfl, hitems, hwords⟩ := ih h.2
      refine ⟨(ws, x) :: items, rfl, List.forall_mem_cons.mpr ⟨hderives, hitems⟩, ?_⟩
      cases items with
      | nil => simpa using hws
      | cons next items =>
          rw [List.map_cons, List.map_cons, commaWords_cons_cons, List.forall_mem_append,
            List.forall_mem_cons]
          exact ⟨hws, by decide, hwords⟩

theorem call {kind : Kind} {name : String} (hkind : kind ∈ callableKinds)
    (hname : Word.Lexical (kind, name)) {xs : List SyntaxTree}
    (h : ∀ x ∈ xs, Derivable .assignment x) : Derivable .primary (.call name xs) := by
  obtain ⟨items, rfl, hitems, hwords⟩ := exists_items h
  refine ⟨_, .call hkind hitems, ?_⟩
  simp only [List.forall_mem_cons, List.forall_mem_append]
  exact ⟨hname, by decide, hwords, by decide, by simp⟩

theorem array {xs : List SyntaxTree} (h : ∀ x ∈ xs, Derivable .assignment x) :
    Derivable .primary (.array xs) := by
  obtain ⟨items, rfl, hitems, hwords⟩ := exists_items h
  refine ⟨_, .array hitems, ?_⟩
  simp only [List.forall_mem_cons, List.forall_mem_append]
  exact ⟨by decide, hwords, by decide, by simp⟩

theorem method {name : String} (hx : Derivable .postfixed x) (hname : Word.Lexical (.name, name))
    (xs : List SyntaxTree) (h : ∀ y ∈ xs, Derivable .assignment y) :
    Derivable .postfixed (.method x name xs) := by
  obtain ⟨v, hderives, hv⟩ := hx
  obtain ⟨items, rfl, hitems, hwords⟩ := exists_items h
  refine ⟨_, .method hderives hitems, ?_⟩
  simp only [List.forall_mem_cons, List.forall_mem_append]
  exact ⟨hv, by decide, hname, by decide, hwords, by decide, by simp⟩

end Derivable

end FormulaUpgrade.Grammar
