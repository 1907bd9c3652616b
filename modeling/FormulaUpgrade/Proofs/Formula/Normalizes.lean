import FormulaUpgrade.Proofs.Conversion.Traversal
import FormulaUpgrade.Proofs.SyntaxTree.Words

/-! # The formula of a tree without issues

Which formula a tree of a formula text becomes, when nothing in it is refused. All that is proved
about conversions without issues is proved by induction over this relation.
-/

namespace FormulaUpgrade

open Token Grammar Property

namespace Formula

/-- A tree and its formula. -/
abbrev Pair := SyntaxTree × Formula

/-- A tree and the formula that it becomes, without an issue. An operator goes on with the chain of
its first operand, or starts one. -/
inductive Normalizes [Host] (declared : Declared) : SyntaxTree → Formula → Prop where
  | number {text} : Word.Lexical (.number, text) →
      Normalizes declared (.constant .number text) (.literal text)
  | string {text} : Word.Lexical (.string, text) →
      Normalizes declared (.constant .string text) (.literal (StringLiteral.requote text))
  | symbol {name} : name ∈ constants → Normalizes declared (.symbol name) (.symbol name)
  | property {kind text propertyKind} :
      declared.resolve (propertyName kind text) = .ok propertyKind →
      Normalizes declared (.call "prop" [.constant kind text])
        (.property (propertyName kind text) propertyKind)
  | function {kind name} {args : List Pair} : kind ∈ callableKinds → Word.Lexical (kind, name) →
      name ≠ "prop" → (∀ op, Conversion.treatment name = .operator op → args.length = 2) →
      (∀ arg ∈ args, Normalizes declared arg.1 arg.2) →
      Normalizes declared (.call name (args.map Prod.fst)) (.function name (args.map Prod.snd))
  | prefixed {kind op x f} : kind ∈ prefixKinds → Word.Lexical (kind, op) →
      Normalizes declared x f → Normalizes declared (.operator op [x]) (.operator op [f])
  | infixed {ℓ kind op x y f g} : kind ∈ Level.operators ℓ → Word.Lexical (kind, op) →
      Normalizes declared x f → Normalizes declared y g →
      Normalizes declared (.operator op [x, y]) (.operator op [f, g])
  | continued {ℓ kind op x y inner g} : kind ∈ Level.operators ℓ → Word.Lexical (kind, op) →
      Normalizes declared x (.operator op inner) → 2 ≤ inner.length → Normalizes declared y g →
      Normalizes declared (.operator op [x, y]) (.operator op (inner ++ [g]))
  | power {x y f g} : Normalizes declared x f → Normalizes declared y g →
      Normalizes declared (.operator "^" [x, y]) (.operator "^" [f, g])
  | paren {x f} : Normalizes declared x f → Normalizes declared (.paren x) f
  | conditional {c x y condition ifTrue ifFalse} : Normalizes declared c condition →
      Normalizes declared x ifTrue → Normalizes declared y ifFalse →
      Normalizes declared (.conditional c x y) (.conditional condition ifTrue ifFalse)

/-! ## Nothing is dropped -/

theorem normalConditional_ne_missing {tree : SyntaxTree} {condition ifTrue ifFalse : Normal}
    (h : condition.formula.isMissing = false) :
    (normalConditional tree condition ifTrue ifFalse).formula.isMissing = false := by
  unfold normalConditional
  dsimp only
  split <;> simp_all [isMissing, Normal.fail]

theorem normalProperty_ne_missing [Host] (declared : Declared) (args : List SyntaxTree) :
    (normalProperty declared args).formula.isMissing = false := by
  unfold normalProperty
  split
  · dsimp only
    split <;> rfl
  · rfl
  · rfl

/-- The tree of an expression becomes a formula. -/
theorem normal_ne_missing [Host] {declared : Declared} {ℓ : Level} {ws : List Word} {t : SyntaxTree}
    (h : Derives ℓ ws t) : (normal declared t).formula.isMissing = false := by
  induction h with
  | tighter _ ih => exact ih
  | assignment | index | member | method | array | object => simp [normal, Normal.fail, isMissing]
  | conditional _ _ _ ih _ _ =>
      rw [normal]
      exact normalConditional_ne_missing ih
  | infixed | prefixed | power => simp [normal, isMissing]
  | number | string => simp [normal, isMissing]
  | symbol =>
      rw [normal]
      split <;> rfl
  | paren _ ih => rwa [normal]
  | call =>
      rw [normal]
      split
      · exact normalProperty_ne_missing declared _
      · rfl

theorem normal_items_ne_missing [Host] {declared : Declared} {ℓ : Level} {items : List Item}
    (h : ∀ item ∈ items, Derives ℓ item.1 item.2) :
    ∀ tree ∈ items.map Prod.snd, (normal declared tree).formula.isMissing = false := by
  rw [List.forall_mem_map]
  exact fun item hitem => normal_ne_missing (h item hitem)

theorem normalAll_fst [Host] {declared : Declared} {trees : List SyntaxTree}
    (h : ∀ tree ∈ trees, (normal declared tree).formula.isMissing = false) :
    (normalAll declared trees).1 = trees.map fun tree => (normal declared tree).formula := by
  induction trees with
  | nil => rfl
  | cons tree trees ih =>
      rw [List.forall_mem_cons] at h
      simp [normalAll, h.1, ih h.2]

/-! ## Trees without issues -/

theorem chain_binary (op : String) (x y : SyntaxTree) (f g : Formula) :
    chain op [x, y] [f, g] = [f, g] ∨
      ∃ inner, f = .operator op inner ∧ op ≠ "^" ∧ 2 ≤ inner.length ∧
        chain op [x, y] [f, g] = inner ++ [g] := by
  unfold chain
  split
  next first inner _ _ heq =>
    simp only [List.cons.injEq] at heq
    obtain ⟨rfl, rfl⟩ := heq
    split
    next h => exact .inr ⟨inner, by rw [h.2.1], h.1, h.2.2, rfl⟩
    next => exact .inl rfl
  next => exact .inl rfl

theorem issues_operator {op : String} {args : List Formula} (h : args ≠ []) :
    (operator op args).issues = issuesOfAll args := by
  match args, h with
  | [_], _ => simp [issues]
  | _ :: _ :: _, _ => simp [issues]

theorem normalConditional_of_issues_eq_nil {tree : SyntaxTree} {condition ifTrue ifFalse : Normal}
    (hc : condition.formula.isMissing = false) (ht : ifTrue.formula.isMissing = false)
    (hf : ifFalse.formula.isMissing = false)
    (h : (normalConditional tree condition ifTrue ifFalse).formula.issues = []) :
    (normalConditional tree condition ifTrue ifFalse).formula =
      .conditional condition.formula ifTrue.formula ifFalse.formula := by
  unfold normalConditional at h ⊢
  dsimp only at h ⊢
  split <;> simp_all [issues, isMissing]

theorem normalProperty_of_issues_eq_nil [Host] {declared : Declared} {args : List SyntaxTree}
    (h : (normalProperty declared args).formula.issues = []) :
    Normalizes declared (.call "prop" args) (normalProperty declared args).formula := by
  unfold normalProperty at h ⊢
  split
  next kind text =>
    cases hresolve : declared.resolve (propertyName kind text) with
    | ok propertyKind => simpa [hresolve] using Normalizes.property hresolve
    | error e => simp [hresolve, Normal.fail, issues] at h
  next => simp [Normal.fail, issues] at h
  next => simp [Normal.fail, issues] at h

theorem normal_operator [Host] {declared : Declared} {op : String} {trees : List SyntaxTree}
    (h : ∀ tree ∈ trees, (normal declared tree).formula.isMissing = false) :
    (normal declared (.operator op trees)).formula =
      .operator op (chain op trees (trees.map fun tree => (normal declared tree).formula)) := by
  simp [normal, normalAll_fst h]

/-- What a tree becomes, if it becomes a formula without issues. -/
theorem normalizes_of_derives [Host] {declared : Declared} {ℓ : Level} {ws : List Word}
    {t : SyntaxTree} (h : Derives ℓ ws t) (hws : ∀ w ∈ ws, w.Lexical)
    (hissues : (normal declared t).formula.issues = []) :
    Normalizes declared t (normal declared t).formula := by
  induction h with
  | tighter _ ih => exact ih hws hissues
  | assignment | index | member | method | array | object =>
      simp [normal, Normal.fail, issues] at hissues
  | conditional hc hx hy ihc ihx ihy =>
      simp only [List.forall_mem_append, List.forall_mem_cons] at hws
      rw [normal] at hissues ⊢
      have hformula := normalConditional_of_issues_eq_nil (normal_ne_missing hc)
        (normal_ne_missing hx) (normal_ne_missing hy) hissues
      rw [hformula] at hissues ⊢
      simp only [issues, List.append_eq_nil_iff] at hissues
      exact .conditional (ihc hws.1 hissues.1.1) (ihx hws.2.2.1 hissues.1.2)
        (ihy hws.2.2.2.2 hissues.2)
  | @infixed _ _ op _ _ x y hkind hx hy ihx ihy =>
      rw [List.forall_mem_append, List.forall_mem_cons] at hws
      have hformula := @normal_operator _ declared op [x, y]
        (by simp [normal_ne_missing hx, normal_ne_missing hy])
      simp only [List.map_cons, List.map_nil] at hformula
      rcases chain_binary op x y (normal declared x).formula (normal declared y).formula with
        hchain | ⟨inner, hfirst, _, hlength, hchain⟩
      · rw [hformula, hchain, issues_operator (by simp)] at hissues
        simp only [issuesOfAll, List.append_eq_nil_iff, and_true] at hissues
        rw [hformula, hchain]
        exact .infixed hkind hws.2.1 (ihx hws.1 hissues.1) (ihy hws.2.2 hissues.2)
      · rw [hformula, hchain, issues_operator (by simp), issuesOfAll_eq_nil,
          List.forall_mem_append] at hissues
        have hinner : inner ≠ [] := by
          rintro rfl
          simp at hlength
        have hx' : (normal declared x).formula.issues = [] := by
          rw [hfirst, issues_operator hinner, issuesOfAll_eq_nil]
          exact hissues.1
        have hnormal := ihx hws.1 hx'
        rw [hfirst] at hnormal
        rw [hformula, hchain]
        exact .continued hkind hws.2.1 hnormal hlength (ihy hws.2.2 (hissues.2 _ (by simp)))
  | @prefixed _ op _ x hkind hx ih =>
      rw [List.forall_mem_cons] at hws
      have hformula := @normal_operator _ declared op [x] (by simp [normal_ne_missing hx])
      simp only [List.map_cons, List.map_nil, chain] at hformula
      rw [hformula, issues_operator (by simp), issuesOfAll_eq_nil] at hissues
      rw [hformula]
      exact .prefixed hkind hws.1 (ih hws.2 (hissues _ (by simp)))
  | @power _ _ x y hx hy ihx ihy =>
      rw [List.forall_mem_append, List.forall_mem_cons] at hws
      have hformula := @normal_operator _ declared "^" [x, y]
        (by simp [normal_ne_missing hx, normal_ne_missing hy])
      simp only [List.map_cons, List.map_nil] at hformula
      -- powers form no chains
      rcases chain_binary "^" x y (normal declared x).formula (normal declared y).formula with
        hchain | ⟨_, _, hop, _⟩
      · rw [hformula, hchain, issues_operator (by simp)] at hissues
        simp only [issuesOfAll, List.append_eq_nil_iff, and_true] at hissues
        rw [hformula, hchain]
        exact .power (ihx hws.1 hissues.1) (ihy hws.2.2 hissues.2)
      · exact absurd rfl hop
  | number => exact .number (List.forall_mem_cons.mp hws).1
  | string => exact .string (List.forall_mem_cons.mp hws).1
  | @symbol name =>
      rw [normal] at hissues ⊢
      by_cases hname : constants.contains name
      · rw [if_pos hname]
        exact .symbol (by simpa using hname)
      · rw [if_neg hname] at hissues
        simp [Normal.fail, issues] at hissues
  | paren _ ih =>
      simp only [List.forall_mem_append, List.forall_mem_cons] at hws
      rw [normal] at hissues ⊢
      exact .paren (ih hws.2.1 hissues)
  | @call _ name items hkind hitems ihitems =>
      simp only [List.forall_mem_append, List.forall_mem_cons] at hws
      have hwords := forall_mem_items hws.2.2.1
      rw [normal] at hissues ⊢
      by_cases hprop : name = "prop"
      · subst hprop
        rw [if_pos rfl] at hissues ⊢
        exact normalProperty_of_issues_eq_nil hissues
      · rw [if_neg hprop] at hissues ⊢
        have hargs := @normalAll_fst _ declared _ (normal_items_ne_missing hitems)
        simp only [hargs, List.map_map, issues, List.append_eq_nil_iff] at hissues
        rw [issuesOfAll_eq_nil, List.forall_mem_map] at hissues
        have hnormal := @Normalizes.function _ declared _ name
          (items.map fun item => (item.2, (normal declared item.2).formula)) hkind hws.1 hprop
          ?_ ?_
        · simpa [hargs, Function.comp_def] using hnormal
        · intro op hop
          simpa [hop] using hissues.2
        · rw [List.forall_mem_map]
          exact fun item h => ihitems item h (hwords item h) (hissues.1 item h)

/-- A formula text of several statements is refused. -/
theorem normalizes_of_sentence [Host] {declared : Declared} {ws : List Word} {t : SyntaxTree}
    (h : Sentence ws t) (hws : ∀ w ∈ ws, w.Lexical)
    (hissues : (normal declared t).formula.issues = []) :
    Normalizes declared t (normal declared t).formula := by
  rcases h.single_or_block with ⟨v, hv, hwords⟩ | ⟨statements, rfl⟩
  · exact normalizes_of_derives hv (fun w hw => hws w (hwords w hw)) hissues
  · simp [normal, Normal.fail, issues] at hissues

end Formula

end FormulaUpgrade
