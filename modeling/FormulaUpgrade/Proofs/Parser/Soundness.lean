import FormulaUpgrade.Proofs.Parser.Spelling

/-! # The parser reads only formulas

One word leads from a state to one that stands for that word too. So the tree of a text that may end
derives the words of the whole text.
-/

namespace FormulaUpgrade.Parser

open Token Grammar

/-! ## One word -/

/-- A word of a kind with a single spelling is spelled so. -/
def Spelled (t : Word) : Prop :=
  ∀ entry ∈ Lexeme.fixedTexts, entry.2 = t.1 → t.2 = String.ofList entry.1

theorem Spelled.eq {kind : Kind} {text : String} (spelling : String) (h : Spelled (kind, text))
    (hmem : (spelling.toList, kind) ∈ Lexeme.fixedTexts) : text = spelling := by
  have htext := h _ hmem rfl
  simpa using htext

theorem State.Spells.stepOperand {done : List SyntaxTree} {outer : List (Bracket × List Pending)}
    {ps : List Pending} {s : State} {ws : List Word} {kind : Kind} {text : String}
    (h : State.Spells ⟨done, outer, ps, .operand⟩ ws) (ht : Spelled (kind, text))
    (hstep : State.stepOperand ⟨done, outer, ps, .operand⟩ ⟨kind, text, 0⟩ = some s) :
    s.Spells (ws ++ [(kind, text)]) := by
  cases kind with
  | number =>
      obtain rfl := Option.some.inj hstep
      refine h.refocus ?_
      rintro _ rfl
      exact Derives.number.loosen (by decide)
  | string =>
      obtain rfl := Option.some.inj hstep
      refine h.refocus ?_
      rintro _ rfl
      exact Derives.string.loosen (by decide)
  | name =>
      obtain rfl := Option.some.inj hstep
      refine h.refocus ?_
      rintro _ rfl
      rfl
  | and | or | xor | modulo =>
      obtain rfl := Option.some.inj hstep
      refine h.refocus ?_
      rintro _ rfl
      exact ⟨_, by decide, rfl⟩
  | minus | plus | not | bang =>
      obtain rfl := Option.some.inj hstep
      obtain ⟨items, u, v, _, hitems, hdone, houter, hps, rfl, rfl⟩ := h
      refine ⟨items, u, v ++ [(_, text)], [], hitems, hdone, houter, ?_, rfl, by simp; rfl⟩
      exact ⟨v, [(_, text)], hps, ⟨_, by decide, rfl⟩, hps.admits, rfl⟩
  | lparen =>
      obtain rfl := ht.eq "(" (by decide)
      obtain rfl := Option.some.inj hstep
      refine h.openBracket rfl ?_
      rintro _ rfl
      rfl
  | lbracket =>
      obtain rfl := ht.eq "[" (by decide)
      obtain rfl := Option.some.inj hstep
      refine h.openBracket rfl ?_
      rintro _ rfl
      exact ⟨[], ListSpells.nil, rfl⟩
  | lbrace =>
      obtain rfl := ht.eq "\x7b" (by decide)
      obtain rfl := Option.some.inj hstep
      refine h.refocus ?_
      rintro _ rfl
      exact ⟨[], EntriesSpell.nil, rfl⟩
  | rparen =>
      obtain rfl := ht.eq ")" (by decide)
      simp only [State.stepOperand] at hstep
      split at hstep
      · obtain rfl := Option.some.inj hstep
        refine h.closeEmpty ?_
        rintro _ ⟨kind, hkind, v, hv, rfl⟩
        obtain rfl := hv.eq_nil
        exact (@Derives.call kind _ [] hkind (by simp)).loosen (by decide)
      · obtain rfl := Option.some.inj hstep
        refine h.closeEmpty ?_
        rintro _ ⟨u, v, howner, hv, rfl⟩
        obtain rfl := hv.eq_nil
        simpa using @Derives.method u _ _ [] howner (by simp)
      · cases hstep
  | rbracket =>
      obtain rfl := ht.eq "]" (by decide)
      simp only [State.stepOperand] at hstep
      split at hstep
      · obtain rfl := Option.some.inj hstep
        refine h.closeEmpty ?_
        rintro _ ⟨v, hv, rfl⟩
        obtain rfl := hv.eq_nil
        exact (@Derives.array [] (by simp)).loosen (by decide)
      · cases hstep
  | eq | ne | le | ge | lt | gt | times | divide | mod | pow | question | colon | assign | comma
  | dot | semi | rbrace => cases hstep

theorem mem_operators_of_infixLevel? {kind : Kind} {level : Nat}
    (h : infixLevel? kind = some level) :
    ∃ ℓ : Level, kind ∈ ℓ.operators ∧ ℓ.rank = level + 2 := by
  cases kind with
  | or => exact ⟨.or, by decide, by cases h; rfl⟩
  | xor => exact ⟨.xor, by decide, by cases h; rfl⟩
  | and => exact ⟨.and, by decide, by cases h; rfl⟩
  | eq | ne | lt | le | gt | ge => exact ⟨.comparison, by decide, by cases h; rfl⟩
  | plus | minus => exact ⟨.sum, by decide, by cases h; rfl⟩
  | times | divide | mod | modulo => exact ⟨.product, by decide, by cases h; rfl⟩
  | _ => cases h

theorem State.Spells.stepInfixed {done : List SyntaxTree} {outer : List (Bracket × List Pending)}
    {ps : List Pending} {focus : Focus} {ws : List Word} {kind : Kind} {x : SyntaxTree}
    {level : Nat} (h : State.Spells ⟨done, outer, ps, focus⟩ ws) (hx : focus.tree? = some x)
    (text : String) (hlevel : infixLevel? kind = some level) :
    State.Spells ⟨done, outer, .infixed level text (Parser.settle (level + 2) ps x).2 ::
      (Parser.settle (level + 2) ps x).1, .operand⟩ (ws ++ [(kind, text)]) := by
  obtain ⟨ℓ, hkind, hrank⟩ := mem_operators_of_infixLevel? hlevel
  obtain ⟨_, _, hhigh, _⟩ := infixLevel?_of_mem_operators ℓ kind hkind
  refine h.pend hx (by omega) ?_ ?_
  · intro k w hk hleft
    exact ⟨ℓ, kind, w, hkind, hrank, hleft.loosen (by omega), rfl⟩
  · intro q hq
    cases q <;> simp only [Pending.operandRank, Pending.strength] at hq ⊢ <;> omega

/-- The words of a list bracket and of its contents, with the closing word. -/
theorem State.Spells.closeList {done : List SyntaxTree} {b : Bracket} {ps qs : List Pending}
    {outer : List (Bracket × List Pending)} {focus : Focus} {ws : List Word} {t : Word}
    {x : SyntaxTree} {xs : List SyntaxTree} {tree : List SyntaxTree → SyntaxTree}
    (h : State.Spells ⟨done, (b, ps) :: outer, qs, focus⟩ ws) (hx : focus.tree? = some x)
    (hb : ∀ w, b.Spells w → ∃ front v, ListSpells xs v ∧ w = front ++ v ∧
      ∀ items : List Item, items ≠ [] → (∀ item ∈ items, Derives .assignment item.1 item.2) →
        Derives .postfixed (front ++ (commaWords (items.map Prod.fst) ++ [t]))
          (tree (items.map Prod.snd))) :
    State.Spells ⟨done, outer, ps, .value (tree (xs ++ [settleAll qs x]))⟩ (ws ++ [t]) := by
  refine h.closeBracket hx ?_
  intro w c hw hc
  obtain ⟨front, v, hv, rfl, hderives⟩ := hb w hw
  obtain ⟨items, hne, hitems, hxs, hwords⟩ := hv.complete hc
  have hclosed := hderives items hne hitems
  rw [hxs, hwords] at hclosed
  simpa using hclosed

theorem State.Spells.closeCall {done : List SyntaxTree} {name : String} {args : List SyntaxTree}
    {ps qs : List Pending} {outer : List (Bracket × List Pending)} {focus : Focus} {ws : List Word}
    {x : SyntaxTree} (h : State.Spells ⟨done, (.call name args, ps) :: outer, qs, focus⟩ ws)
    (hx : focus.tree? = some x) :
    State.Spells ⟨done, outer, ps, .value (.call name (args ++ [settleAll qs x]))⟩
      (ws ++ [(.rparen, ")")]) := by
  refine h.closeList hx ?_
  rintro _ ⟨kind, hkind, v, hv, rfl⟩
  refine ⟨[(kind, name), (.lparen, "(")], v, hv, rfl, ?_⟩
  intro items _ hitems
  exact (Derives.call hkind hitems).loosen (by decide)

theorem State.Spells.closeMethod {done : List SyntaxTree} {owner : SyntaxTree} {name : String}
    {args : List SyntaxTree} {ps qs : List Pending} {outer : List (Bracket × List Pending)}
    {focus : Focus} {ws : List Word} {x : SyntaxTree}
    (h : State.Spells ⟨done, (.method owner name args, ps) :: outer, qs, focus⟩ ws)
    (hx : focus.tree? = some x) :
    State.Spells ⟨done, outer, ps, .value (.method owner name (args ++ [settleAll qs x]))⟩
      (ws ++ [(.rparen, ")")]) := by
  refine h.closeList hx ?_
  rintro _ ⟨u, v, howner, hv, rfl⟩
  refine ⟨u ++ [(.dot, "."), (.name, name), (.lparen, "(")], v, hv, by simp, ?_⟩
  intro items _ hitems
  simpa using Derives.method howner hitems

theorem State.Spells.closeArray {done : List SyntaxTree} {xs : List SyntaxTree}
    {ps qs : List Pending} {outer : List (Bracket × List Pending)} {focus : Focus} {ws : List Word}
    {x : SyntaxTree} (h : State.Spells ⟨done, (.array xs, ps) :: outer, qs, focus⟩ ws)
    (hx : focus.tree? = some x) :
    State.Spells ⟨done, outer, ps, .value (.array (xs ++ [settleAll qs x]))⟩
      (ws ++ [(.rbracket, "]")]) := by
  refine h.closeList hx ?_
  rintro _ ⟨v, hv, rfl⟩
  refine ⟨[(.lbracket, "[")], v, hv, rfl, ?_⟩
  intro items _ hitems
  exact (Derives.array hitems).loosen (by decide)

theorem State.Spells.closeIndex {done : List SyntaxTree} {owner : SyntaxTree}
    {xs : List SyntaxTree} {ps qs : List Pending} {outer : List (Bracket × List Pending)}
    {focus : Focus} {ws : List Word} {x : SyntaxTree}
    (h : State.Spells ⟨done, (.index owner xs, ps) :: outer, qs, focus⟩ ws)
    (hx : focus.tree? = some x) :
    State.Spells ⟨done, outer, ps, .value (.index owner (xs ++ [settleAll qs x]))⟩
      (ws ++ [(.rbracket, "]")]) := by
  refine h.closeList hx ?_
  rintro _ ⟨u, v, howner, hv, rfl⟩
  refine ⟨u ++ [(.lbracket, "[")], v, hv, by simp, ?_⟩
  intro items hne hitems
  simpa using Derives.index howner hne hitems

theorem State.Spells.stepComma {done : List SyntaxTree} {outer : List (Bracket × List Pending)}
    {ps : List Pending} {focus : Focus} {s : State} {ws : List Word} {x : SyntaxTree}
    (h : State.Spells ⟨done, outer, ps, focus⟩ ws) (hx : focus.tree? = some x)
    (hstep : State.stepValue ⟨done, outer, ps, focus⟩ x ⟨.comma, ",", 0⟩ = some s) :
    s.Spells (ws ++ [(.comma, ",")]) := by
  simp only [State.stepValue, infixLevel?] at hstep
  split at hstep
  · obtain rfl := Option.some.inj hstep
    refine h.fillBracket hx rfl ?_
    rintro _ c ⟨kind, hkind, v, hv, rfl⟩ hc
    exact ⟨kind, hkind, _, hv.push hc, by simp⟩
  · obtain rfl := Option.some.inj hstep
    refine h.fillBracket hx rfl ?_
    rintro _ c ⟨v, hv, rfl⟩ hc
    exact ⟨_, hv.push hc, by simp⟩
  · obtain rfl := Option.some.inj hstep
    refine h.fillBracket hx rfl ?_
    rintro _ c ⟨u, v, howner, hv, rfl⟩ hc
    exact ⟨u, _, howner, hv.push hc, by simp⟩
  · obtain rfl := Option.some.inj hstep
    refine h.fillBracket hx rfl ?_
    rintro _ c ⟨u, v, howner, hv, rfl⟩ hc
    exact ⟨u, _, howner, hv.push hc, by simp⟩
  · obtain rfl := Option.some.inj hstep
    obtain ⟨items, u, v, w, c, hitems, hdone, houter, hps, _, hb, hc, rfl⟩ := h.inside hx
    obtain ⟨kind, hkind, a, ha, rfl⟩ := hb
    refine ⟨items, u, v, _, hitems, hdone, houter, hps, ⟨_, ha.push hkind hc, rfl⟩, by simp⟩
  · cases hstep

theorem State.Spells.stepValue {done : List SyntaxTree} {outer : List (Bracket × List Pending)}
    {ps : List Pending} {focus : Focus} {s : State} {ws : List Word} {kind : Kind} {text : String}
    {x : SyntaxTree} (h : State.Spells ⟨done, outer, ps, focus⟩ ws) (ht : Spelled (kind, text))
    (hx : focus.tree? = some x)
    (hstep : State.stepValue ⟨done, outer, ps, focus⟩ x ⟨kind, text, 0⟩ = some s) :
    s.Spells (ws ++ [(kind, text)]) := by
  cases kind with
  | or | xor | and | eq | ne | lt | le | gt | ge | plus | minus | times | divide | mod | modulo =>
      obtain rfl := Option.some.inj hstep
      exact h.stepInfixed hx text rfl
  | lbracket =>
      obtain rfl := ht.eq "[" (by decide)
      obtain rfl := Option.some.inj hstep
      refine h.openBracket rfl ?_
      intro w hw
      exact ⟨w, [], hw.derives hx, ListSpells.nil, rfl⟩
  | dot =>
      obtain rfl := ht.eq "." (by decide)
      obtain rfl := Option.some.inj hstep
      exact h.refocus fun w hw => ⟨w, hw.derives hx, rfl⟩
  | pow =>
      obtain rfl := ht.eq "^" (by decide)
      obtain rfl := Option.some.inj hstep
      obtain ⟨items, u, v, w, hitems, hdone, houter, hps, hw, rfl⟩ := h
      refine ⟨items, u, v ++ (w ++ [(.pow, "^")]), [], hitems, hdone, houter, ?_, rfl, by simp⟩
      exact ⟨v, _, hps, ⟨w, hw.derives hx, rfl⟩, hps.admits.mono (by simp [Pending.strength]), rfl⟩
  | question =>
      obtain rfl := ht.eq "?" (by decide)
      obtain rfl := Option.some.inj hstep
      obtain ⟨items, u, v, w, ℓ, hitems, hdone, houter, hps, hleft, hℓ, hhead, rfl⟩ :=
        h.settled hx 2 (by decide)
      refine ⟨items, u ++ (v ++ (w ++ [(.question, "?")])), [], [], hitems, hdone, ?_, rfl, rfl,
        by simp⟩
      refine ⟨u, v, _, houter, hps, ?_, ⟨w, hleft.loosen hℓ, rfl⟩, rfl⟩
      intro q hq
      have hloose := hhead q hq
      cases q <;>
        simp only [Pending.operandRank, Pending.strength, Bracket.rank] at hloose ⊢ <;> omega
  | assign =>
      obtain rfl := ht.eq "=" (by decide)
      obtain rfl := Option.some.inj hstep
      refine h.pend hx (by decide) ?_ ?_
      · intro ℓ w hℓ hleft
        exact ⟨w, hleft.loosen hℓ, rfl⟩
      · intro q hq
        cases q <;> simp [Pending.operandRank, Pending.strength] at hq ⊢
  | colon =>
      obtain rfl := ht.eq ":" (by decide)
      simp only [State.stepValue, infixLevel?] at hstep
      split at hstep
      · obtain rfl := Option.some.inj hstep
        obtain ⟨items, u, v, w, c, hitems, hdone, houter, hps, hadmits, hb, hc, rfl⟩ := h.inside hx
        obtain ⟨a, hcondition, rfl⟩ := hb
        refine ⟨items, u, v ++ (a ++ (.question, "?") :: (c ++ [(.colon, ":")])), [], hitems, hdone,
          houter, ?_, rfl, by simp⟩
        exact ⟨v, _, hps, ⟨a, c, hcondition, hc, rfl⟩, hadmits, rfl⟩
      · cases hstep
  | comma =>
      obtain rfl := ht.eq "," (by decide)
      exact h.stepComma hx hstep
  | rparen =>
      obtain rfl := ht.eq ")" (by decide)
      simp only [State.stepValue, infixLevel?] at hstep
      split at hstep
      · obtain rfl := Option.some.inj hstep
        refine h.closeBracket hx ?_
        rintro _ c rfl hc
        exact (Derives.paren hc).loosen (by decide)
      · obtain rfl := Option.some.inj hstep
        exact h.closeCall hx
      · obtain rfl := Option.some.inj hstep
        exact h.closeMethod hx
      · cases hstep
  | rbracket =>
      obtain rfl := ht.eq "]" (by decide)
      simp only [State.stepValue, infixLevel?] at hstep
      split at hstep
      · obtain rfl := Option.some.inj hstep
        exact h.closeArray hx
      · obtain rfl := Option.some.inj hstep
        exact h.closeIndex hx
      · cases hstep
  | rbrace =>
      obtain rfl := ht.eq "\x7d" (by decide)
      simp only [State.stepValue, infixLevel?] at hstep
      split at hstep
      · obtain rfl := Option.some.inj hstep
        refine h.closeBracket hx ?_
        rintro _ c ⟨kind, hkind, v, hv, rfl⟩ hc
        simpa using (hv.complete hkind hc).loosen (a := .postfixed) (by decide)
      · cases hstep
  | semi =>
      obtain rfl := ht.eq ";" (by decide)
      simp only [State.stepValue, infixLevel?] at hstep
      split at hstep
      · obtain rfl := Option.some.inj hstep
        obtain ⟨items, _, v, w, hitems, hdone, rfl, hps, hw, rfl⟩ := h
        have hlast := hps.settleAll (hw.derives hx) (hps.admits.mono (by decide))
        refine ⟨items ++ [(v ++ w, settleAll ps x)], [], [], [], ?_, by simp [hdone], rfl, rfl, rfl,
          ?_⟩
        · exact List.forall_mem_append.mpr ⟨hitems, by simpa using hlast⟩
        · simp [endedWords]
      · cases hstep
  | number | string | name | not | bang | lparen | lbrace => cases hstep

/-- One word keeps a state true to the words that have led to it. -/
theorem State.Spells.read {s s' : State} {ws : List Word} {t : Word} (h : s.Spells ws)
    (ht : Spelled t) (hread : s.read t = some s') : s'.Spells (ws ++ [t]) := by
  obtain ⟨done, outer, ps, focus⟩ := s
  obtain ⟨kind, text⟩ := t
  cases hx : focus.tree? with
  | some x =>
      by_cases hkind : kind = .lparen
      · -- An opening parenthesis is the only word that tells a name from another operand.
        subst hkind
        obtain rfl := ht.eq "(" (by decide)
        cases focus with
        | value y => cases hread
        | name text =>
            obtain rfl := Option.some.inj hread
            refine h.openBracket rfl ?_
            rintro _ rfl
            exact ⟨.name, by decide, [], ListSpells.nil, rfl⟩
        | member owner text =>
            obtain rfl := Option.some.inj hread
            refine h.openBracket rfl ?_
            rintro _ ⟨v, howner, rfl⟩
            exact ⟨v, [], howner, ListSpells.nil, by simp⟩
        | operand | keyword | dot | key | colon => cases hx
      · rw [State.read_of_tree? hx hkind] at hread
        exact h.stepValue ht hx hread
  | none =>
      cases focus with
      | operand => exact h.stepOperand ht hread
      | keyword text =>
          simp only [State.read, State.step] at hread
          split at hread
          next hkind =>
            subst hkind
            obtain rfl := ht.eq "(" (by decide)
            obtain rfl := Option.some.inj hread
            refine h.openBracket rfl ?_
            rintro _ ⟨kind, hkind, rfl⟩
            exact ⟨kind, hkind, [], ListSpells.nil, rfl⟩
          next => cases hread
      | dot owner =>
          simp only [State.read, State.step] at hread
          split at hread
          next hkind =>
            subst hkind
            obtain rfl := Option.some.inj hread
            refine h.refocus ?_
            rintro _ ⟨v, howner, rfl⟩
            exact ⟨v, howner, by simp⟩
          next => cases hread
      | key entries =>
          cases kind with
          | name | string =>
              obtain rfl := Option.some.inj hread
              refine h.refocus ?_
              rintro _ ⟨v, hv, rfl⟩
              exact ⟨_, by decide, v, hv, rfl⟩
          | rbrace =>
              obtain rfl := ht.eq "\x7d" (by decide)
              simp only [State.read, State.step] at hread
              split at hread
              next hempty =>
                obtain rfl := List.isEmpty_iff.mp hempty
                obtain rfl := Option.some.inj hread
                refine h.refocus ?_
                rintro _ ⟨v, hv, rfl⟩
                obtain rfl := hv.eq_nil
                exact (@Derives.object [] (by simp) (by simp)).loosen (by decide)
              next => cases hread
          | _ => cases hread
      | colon entries key =>
          simp only [State.read, State.step] at hread
          split at hread
          next hkind =>
            subst hkind
            obtain rfl := ht.eq ":" (by decide)
            obtain rfl := Option.some.inj hread
            refine h.openBracket rfl ?_
            rintro _ ⟨kind, hkind, v, hv, rfl⟩
            exact ⟨kind, hkind, v, hv, by simp⟩
          next => cases hread
      | value | name | member => cases hx

/-! ## Formulas -/

theorem State.Spells.feed {s s' : State} {v w : List Word} (h : s.Spells v)
    (hw : ∀ t ∈ w, Spelled t) (hfeed : Parser.feed s w = some s') : s'.Spells (v ++ w) := by
  induction w generalizing s v with
  | nil =>
      obtain rfl : s = s' := Option.some.inj hfeed
      simpa using h
  | cons t w ih =>
      rw [feed_cons, Option.bind_eq_some_iff] at hfeed
      obtain ⟨next, hread, hrest⟩ := hfeed
      have hnext := h.read (hw t (by simp)) hread
      simpa using ih hnext (fun t ht => hw t (by simp [ht])) hrest

theorem endedWords_append (items : List Item) (last : Item) :
    endedWords items ++ last.1 = statementWords (items ++ [last]) := by
  induction items with
  | nil => simp [endedWords]
  | cons item rest ih => cases rest <;> simp_all [endedWords]

theorem endedWords_eq {items : List Item} (h : items ≠ []) :
    endedWords items = statementWords items ++ [(.semi, ";")] := by
  obtain ⟨front, last, rfl⟩ : ∃ front last, items = front ++ [last] :=
    ⟨items.dropLast, items.getLast h, (List.dropLast_concat_getLast h).symm⟩
  rw [← endedWords_append]
  simp [endedWords]

/-- The statements of a text that may end spell its words, with or without a last semicolon. -/
theorem State.Spells.statements? {s : State} {ws : List Word} {xs : List SyntaxTree}
    (h : s.Spells ws) (hxs : s.statements? = some xs) :
    ∃ items : List Item, items ≠ [] ∧ (∀ item ∈ items, Derives .assignment item.1 item.2) ∧
      items.map Prod.snd = xs ∧
      (ws = statementWords items ∨ ws = statementWords items ++ [(.semi, ";")]) := by
  obtain ⟨done, outer, ps, focus⟩ := s
  obtain ⟨items, u, v, w, hitems, hdone, houter, hps, hw, rfl⟩ := h
  unfold State.statements? at hxs
  rw [State.value?_eq_tree?] at hxs
  split at hxs
  next x houter' hx =>
    -- An operand is complete: it is the last statement.
    obtain rfl := houter'
    obtain rfl : u = [] := houter
    obtain rfl := Option.some.inj hxs
    have hlast := hps.settleAll (hw.derives hx) (hps.admits.mono (by decide))
    refine ⟨items ++ [(v ++ w, settleAll ps x)], by simp, ?_, by simp [hdone], .inl ?_⟩
    · exact List.forall_mem_append.mpr ⟨hitems, by simpa using hlast⟩
    · rw [← endedWords_append]
      rfl
  next houter' hx =>
    obtain rfl := houter'
    obtain rfl : u = [] := houter
    split at hxs
    next first rest hfocus hpending hdone' =>
      obtain rfl := hfocus
      obtain rfl := hpending
      obtain rfl : v = [] := hps
      obtain rfl : w = [] := hw
      obtain rfl := Option.some.inj hxs
      have hstatements : items.map Prod.snd = first :: rest := hdone.trans hdone'
      have hne : items ≠ [] := by
        rintro rfl
        simp at hstatements
      exact ⟨items, hne, hitems, hstatements, .inr (by simp [endedWords_eq hne])⟩
    next => cases hxs
  next => cases hxs

/-- The tree of a text that may end derives its words. -/
theorem State.Spells.finish? {s : State} {ws : List Word} {t : SyntaxTree} (h : s.Spells ws)
    (ht : s.finish? = some t) : Sentence ws t := by
  cases hxs : s.statements? with
  | none => simp [State.finish?, hxs] at ht
  | some xs =>
      rw [State.finish?_of_statements? hxs] at ht
      obtain rfl := Option.some.inj ht
      obtain ⟨items, hne, hitems, rfl, rfl | rfl⟩ := h.statements? hxs
      · exact .statements hne hitems
      · exact .ended hne hitems

theorem sentence_of_feed {s : State} {ws : List Word} {t : SyntaxTree}
    (hws : ∀ w ∈ ws, Spelled w) (hfeed : feed .initial ws = some s) (ht : s.finish? = some t) :
    Sentence ws t :=
  (State.initial_spells.feed hws hfeed).finish? ht

end FormulaUpgrade.Parser
