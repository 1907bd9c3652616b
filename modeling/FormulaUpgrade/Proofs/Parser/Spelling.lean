import FormulaUpgrade.Proofs.Parser.Reading

/-! # What the parser has read

A state stands for the words that have led to it: finished statements, open brackets with the
operators pending around each, pending operators and the focus, from left to right.
-/

namespace FormulaUpgrade.Parser

open Token Grammar

/-! ## Lists part way through -/

/-- Trees, each with a comma behind it. -/
def ListSpells (xs : List SyntaxTree) (ws : List Word) : Prop :=
  ∃ items : List Item, (∀ item ∈ items, Derives .assignment item.1 item.2) ∧
    items.map Prod.snd = xs ∧ items.flatMap (fun item => item.1 ++ [(.comma, ",")]) = ws

theorem ListSpells.nil : ListSpells [] [] :=
  ⟨[], by simp, rfl, rfl⟩

theorem ListSpells.eq_nil {ws : List Word} (h : ListSpells [] ws) : ws = [] := by
  obtain ⟨items, _, hnil, rfl⟩ := h
  obtain rfl := List.map_eq_nil_iff.mp hnil
  rfl

theorem ListSpells.push {xs : List SyntaxTree} {v w : List Word} {x : SyntaxTree}
    (h : ListSpells xs v) (hx : Derives .assignment w x) :
    ListSpells (xs ++ [x]) (v ++ w ++ [(.comma, ",")]) := by
  obtain ⟨items, hitems, rfl, rfl⟩ := h
  refine ⟨items ++ [(w, x)], ?_, by simp, by simp⟩
  exact List.forall_mem_append.mpr ⟨hitems, by simpa using hx⟩

theorem flatMap_comma_append (items : List Item) (last : Item) :
    items.flatMap (fun item => item.1 ++ [(.comma, ",")]) ++ last.1 =
      commaWords ((items ++ [last]).map Prod.fst) := by
  induction items with
  | nil => simp
  | cons item rest ih => cases rest <;> simp_all

/-- The list with its last tree, as it stands in front of a closing word. -/
theorem ListSpells.complete {xs : List SyntaxTree} {v w : List Word} {x : SyntaxTree}
    (h : ListSpells xs v) (hx : Derives .assignment w x) :
    ∃ items : List Item, items ≠ [] ∧ (∀ item ∈ items, Derives .assignment item.1 item.2) ∧
      items.map Prod.snd = xs ++ [x] ∧ commaWords (items.map Prod.fst) = v ++ w := by
  obtain ⟨items, hitems, rfl, rfl⟩ := h
  refine ⟨items ++ [(w, x)], by simp, ?_, by simp, (flatMap_comma_append items (w, x)).symm⟩
  exact List.forall_mem_append.mpr ⟨hitems, by simpa using hx⟩

/-- Entries, each with a comma behind it. -/
def EntriesSpell (es : List (String × SyntaxTree)) (ws : List Word) : Prop :=
  ∃ entries : List (Word × Item), (∀ entry ∈ entries, entry.1.1 ∈ keyKinds) ∧
    (∀ entry ∈ entries, Derives .assignment entry.2.1 entry.2.2) ∧
    entries.map entryTree = es ∧
    entries.flatMap (fun entry => entryWords entry ++ [(.comma, ",")]) = ws

theorem EntriesSpell.nil : EntriesSpell [] [] :=
  ⟨[], by simp, by simp, rfl, rfl⟩

theorem EntriesSpell.eq_nil {ws : List Word} (h : EntriesSpell [] ws) : ws = [] := by
  obtain ⟨entries, _, _, hnil, rfl⟩ := h
  obtain rfl := List.map_eq_nil_iff.mp hnil
  rfl

theorem EntriesSpell.push {es : List (String × SyntaxTree)} {v w : List Word} {x : SyntaxTree}
    {kind : Kind} {key : String} (h : EntriesSpell es v) (hkind : kind ∈ keyKinds)
    (hx : Derives .assignment w x) :
    EntriesSpell (es ++ [(key, x)])
      (v ++ (kind, key) :: (.colon, ":") :: (w ++ [(.comma, ",")])) := by
  obtain ⟨entries, hkeys, hentries, rfl, rfl⟩ := h
  refine ⟨entries ++ [((kind, key), w, x)], ?_, ?_, by simp [entryTree], by simp [entryWords]⟩
  · exact List.forall_mem_append.mpr ⟨hkeys, by simpa using hkind⟩
  · exact List.forall_mem_append.mpr ⟨hentries, by simpa using hx⟩

theorem flatMap_entry_append (entries : List (Word × Item)) (last : Word × Item) :
    entries.flatMap (fun entry => entryWords entry ++ [(.comma, ",")]) ++ entryWords last =
      commaWords ((entries ++ [last]).map entryWords) := by
  induction entries with
  | nil => simp
  | cons entry rest ih => cases rest <;> simp_all

theorem EntriesSpell.complete {es : List (String × SyntaxTree)} {v w : List Word} {x : SyntaxTree}
    {kind : Kind} {key : String} (h : EntriesSpell es v) (hkind : kind ∈ keyKinds)
    (hx : Derives .assignment w x) :
    Derives .primary
      ((.lbrace, "\x7b") :: (v ++ (kind, key) :: (.colon, ":") :: (w ++ [(.rbrace, "\x7d")])))
      (.object (es ++ [(key, x)])) := by
  obtain ⟨entries, hkeys, hentries, rfl, rfl⟩ := h
  have hobject := @Derives.object (entries ++ [((kind, key), w, x)]) ?_ ?_
  · rw [← flatMap_entry_append] at hobject
    simpa [entryTree, entryWords] using hobject
  · exact List.forall_mem_append.mpr ⟨hkeys, by simpa using hkind⟩
  · exact List.forall_mem_append.mpr ⟨hentries, by simpa using hx⟩

/-! ## Pending operators -/

/-- The words of a pending operator and of what stands to its left. -/
def Pending.Spells : Pending → List Word → Prop
  | .prefixed op, ws => ∃ kind ∈ prefixKinds, ws = [(kind, op)]
  | .infixed level op x, ws => ∃ (ℓ : Level) (kind : Kind) (v : List Word),
      kind ∈ ℓ.operators ∧ ℓ.rank = level + 2 ∧ Derives ℓ v x ∧ ws = v ++ [(kind, op)]
  | .powered x, ws => ∃ v, Derives .postfixed v x ∧ ws = v ++ [(.pow, "^")]
  | .otherwise c x, ws => ∃ u v, Derives .or u c ∧ Derives .assignment v x ∧
      ws = u ++ (.question, "?") :: (v ++ [(.colon, ":")])
  | .assigned x, ws => ∃ v, Derives .conditional v x ∧ ws = v ++ [(.assign, "=")]

/-- A pending operator and an operand that it waits for make an expression of the operator's
level. -/
theorem Pending.Spells.close {p : Pending} {v w : List Word} {ℓ : Level} {x : SyntaxTree}
    (hp : p.Spells v) (hx : Derives ℓ w x) (hrank : p.operandRank ≤ ℓ.rank) :
    ∃ ℓ' : Level, ℓ'.rank = p.strength ∧ Derives ℓ' (v ++ w) (p.close x) := by
  cases p with
  | prefixed op =>
      obtain ⟨kind, hkind, rfl⟩ := hp
      exact ⟨.prefixed, rfl, .prefixed hkind (hx.loosen hrank)⟩
  | infixed level op left =>
      obtain ⟨ℓ', kind, u, hkind, hlevel, hleft, rfl⟩ := hp
      obtain ⟨_, _, _, hnext⟩ := infixLevel?_of_mem_operators ℓ' kind hkind
      have hright : Derives ℓ'.next w x := by
        apply hx.loosen
        simp only [Pending.operandRank] at hrank
        omega
      refine ⟨ℓ', hlevel, ?_⟩
      simpa [Pending.close] using Derives.infixed hkind hleft hright
  | powered base =>
      obtain ⟨u, hbase, rfl⟩ := hp
      refine ⟨.power, rfl, ?_⟩
      simpa [Pending.close] using Derives.power hbase (hx.loosen hrank)
  | otherwise c y =>
      obtain ⟨u, u', hc, hy, rfl⟩ := hp
      refine ⟨.conditional, rfl, ?_⟩
      simpa [Pending.close] using Derives.conditional hc hy (hx.loosen hrank)
  | assigned target =>
      obtain ⟨u, htarget, rfl⟩ := hp
      refine ⟨.assignment, rfl, ?_⟩
      simpa [Pending.close] using Derives.assignment htarget (hx.loosen hrank)

/-- The words of pending operators. Each may be the operand of the one around it. -/
def PendingSpells : List Pending → List Word → Prop
  | [], ws => ws = []
  | p :: ps, ws => ∃ v w, PendingSpells ps v ∧ p.Spells w ∧ Admits ps p.strength ∧ ws = v ++ w

/-- Closing pending operators loses no words, and stops at an operator that is looser. -/
theorem PendingSpells.settle {ps : List Pending} {v w : List Word} {ℓ : Level} {x : SyntaxTree}
    {strength : Nat} (hps : PendingSpells ps v) (hx : Derives ℓ w x) (hadmits : Admits ps ℓ.rank)
    (hstrength : strength ≤ ℓ.rank) :
    ∃ (v' w' : List Word) (ℓ' : Level), PendingSpells (settle strength ps x).1 v' ∧
      Derives ℓ' w' (settle strength ps x).2 ∧ strength ≤ ℓ'.rank ∧
      (∀ p ∈ (Parser.settle strength ps x).1.head?, p.strength < strength) ∧ v' ++ w' = v ++ w := by
  induction ps generalizing v w ℓ x with
  | nil =>
      obtain rfl : v = [] := hps
      exact ⟨[], w, ℓ, rfl, hx, hstrength, by simp [Parser.settle], rfl⟩
  | cons p ps ih =>
      by_cases hp : strength ≤ p.strength
      · obtain ⟨u, u', hps', hspells, hadmits', rfl⟩ := hps
        obtain ⟨ℓ', hrank, hclosed⟩ := hspells.close hx (by simpa using hadmits)
        rw [Parser.settle, if_pos hp]
        rw [← hrank] at hadmits' hp
        obtain ⟨v', w', k, hps'', hx', hk, hhead, heq⟩ := ih hps' hclosed hadmits' hp
        exact ⟨v', w', k, hps'', hx', hk, hhead, by simpa using heq⟩
      · rw [Parser.settle, if_neg hp]
        exact ⟨v, w, ℓ, hps, hx, hstrength, by simpa using hp, rfl⟩

/-- Closing all pending operators makes one expression of them and their last operand. -/
theorem PendingSpells.settleAll {ps : List Pending} {v w : List Word} {ℓ : Level} {x : SyntaxTree}
    (hps : PendingSpells ps v) (hx : Derives ℓ w x) (hadmits : Admits ps ℓ.rank) :
    Derives .assignment (v ++ w) (settleAll ps x) := by
  induction ps generalizing v w ℓ x with
  | nil =>
      obtain rfl : v = [] := hps
      exact hx.loosen (Nat.zero_le _)
  | cons p ps ih =>
      obtain ⟨u, u', hps', hspells, hadmits', rfl⟩ := hps
      obtain ⟨ℓ', hrank, hclosed⟩ := hspells.close hx (by simpa using hadmits)
      rw [List.append_assoc]
      exact ih hps' hclosed (hrank ▸ hadmits')

/-- Every pending operator waits for an operand at least as loose as a prefix expression. -/
theorem PendingSpells.admits {ps : List Pending} {v : List Word} (h : PendingSpells ps v) :
    Admits ps 8 := by
  cases ps with
  | nil => simp
  | cons p ps =>
      obtain ⟨_, _, _, hp, _, _⟩ := h
      cases p with
      | infixed level op x =>
          obtain ⟨ℓ, kind, _, hkind, hlevel, _, _⟩ := hp
          obtain ⟨_, _, hrank, _⟩ := infixLevel?_of_mem_operators ℓ kind hkind
          simp only [admits_cons, Pending.operandRank]
          omega
      | prefixed | powered | otherwise | assigned => simp [Pending.operandRank]

/-! ## Brackets and the focus -/

/-- The words of an open bracket, up to where its next operand starts. -/
def Bracket.Spells : Bracket → List Word → Prop
  | .group, ws => ws = [(.lparen, "(")]
  | .call name args, ws => ∃ kind ∈ callableKinds, ∃ v, ListSpells args v ∧
      ws = (kind, name) :: (.lparen, "(") :: v
  | .array items, ws => ∃ v, ListSpells items v ∧ ws = (.lbracket, "[") :: v
  | .entry entries key, ws => ∃ kind ∈ keyKinds, ∃ v, EntriesSpell entries v ∧
      ws = (.lbrace, "\x7b") :: (v ++ [(kind, key), (.colon, ":")])
  | .index owner indices, ws => ∃ u v, Derives .postfixed u owner ∧ ListSpells indices v ∧
      ws = u ++ (.lbracket, "[") :: v
  | .method owner name args, ws => ∃ u v, Derives .postfixed u owner ∧ ListSpells args v ∧
      ws = u ++ (.dot, ".") :: (.name, name) :: (.lparen, "(") :: v
  | .branch condition, ws => ∃ v, Derives .or v condition ∧ ws = v ++ [(.question, "?")]

/-- The rank of the expression that an open bracket is part of. -/
def Bracket.rank : Bracket → Nat
  | .branch _ => 1
  | _ => 8

/-- The words of open brackets and of the operators pending around each. -/
def OuterSpells : List (Bracket × List Pending) → List Word → Prop
  | [], ws => ws = []
  | (b, ps) :: outer, ws => ∃ u v w, OuterSpells outer u ∧ PendingSpells ps v ∧
      Admits ps b.rank ∧ b.Spells w ∧ ws = u ++ (v ++ w)

/-- The words of the focus. -/
def Focus.Spells : Focus → List Word → Prop
  | .operand, ws => ws = []
  | .value x, ws => Derives .postfixed ws x
  | .name text, ws => ws = [(.name, text)]
  | .keyword text, ws => ∃ kind ∈ callableKinds, ws = [(kind, text)]
  | .dot owner, ws => ∃ v, Derives .postfixed v owner ∧ ws = v ++ [(.dot, ".")]
  | .member owner text, ws => ∃ v, Derives .postfixed v owner ∧
      ws = v ++ [(.dot, "."), (.name, text)]
  | .key entries, ws => ∃ v, EntriesSpell entries v ∧ ws = (.lbrace, "\x7b") :: v
  | .colon entries text, ws => ∃ kind ∈ keyKinds, ∃ v, EntriesSpell entries v ∧
      ws = (.lbrace, "\x7b") :: (v ++ [(kind, text)])

theorem Focus.Spells.derives {focus : Focus} {ws : List Word} {x : SyntaxTree}
    (h : focus.Spells ws) (hx : focus.tree? = some x) : Derives .postfixed ws x := by
  cases focus with
  | value y =>
      obtain rfl : y = x := Option.some.inj hx
      exact h
  | name text =>
      obtain rfl : SyntaxTree.symbol text = x := Option.some.inj hx
      obtain rfl : ws = [(.name, text)] := h
      exact .tighter .symbol
  | member owner text =>
      obtain rfl : SyntaxTree.member owner text = x := Option.some.inj hx
      obtain ⟨v, howner, rfl⟩ := h
      exact .member howner
  | operand | keyword | dot | key | colon => cases hx

/-! ## States -/

/-- The words of finished statements, each with a semicolon behind it. -/
def endedWords (items : List Item) : List Word :=
  items.flatMap fun item => item.1 ++ [(.semi, ";")]

/-- The words that have led to a state. -/
def State.Spells (s : State) (ws : List Word) : Prop :=
  ∃ (items : List Item) (u v w : List Word),
    (∀ item ∈ items, Derives .assignment item.1 item.2) ∧ items.map Prod.snd = s.statements ∧
    OuterSpells s.outer u ∧ PendingSpells s.pending v ∧ s.focus.Spells w ∧
    ws = endedWords items ++ (u ++ (v ++ w))

theorem State.initial_spells : State.initial.Spells [] :=
  ⟨[], [], [], [], by simp, rfl, rfl, rfl, rfl, rfl⟩

/-- A step that only changes the focus. -/
theorem State.Spells.refocus {s : State} {ws : List Word} {t : Word} {focus : Focus}
    (h : s.Spells ws) (hfocus : ∀ w, s.focus.Spells w → focus.Spells (w ++ [t])) :
    State.Spells { s with focus := focus } (ws ++ [t]) := by
  obtain ⟨items, u, v, w, hitems, hdone, houter, hpending, hw, rfl⟩ := h
  exact ⟨items, u, v, w ++ [t], hitems, hdone, houter, hpending, hfocus w hw, by simp⟩

/-- A step that makes the focus part of a new bracket. -/
theorem State.Spells.openBracket {s : State} {ws : List Word} {t : Word} {b : Bracket}
    (h : s.Spells ws) (hrank : b.rank = 8) (hb : ∀ w, s.focus.Spells w → b.Spells (w ++ [t])) :
    (s.openBracket b).Spells (ws ++ [t]) := by
  obtain ⟨items, u, v, w, hitems, hdone, houter, hpending, hw, rfl⟩ := h
  refine ⟨items, u ++ (v ++ (w ++ [t])), [], [], hitems, hdone, ?_, rfl, rfl, by simp⟩
  exact ⟨u, v, w ++ [t], houter, hpending, hrank ▸ hpending.admits, hb w hw, rfl⟩

/-- The contents of the innermost bracket, complete: the words in front of them, those of the
bracket and their own. -/
theorem State.Spells.inside {done : List SyntaxTree} {b : Bracket} {ps qs : List Pending}
    {outer : List (Bracket × List Pending)} {focus : Focus} {ws : List Word} {x : SyntaxTree}
    (h : State.Spells ⟨done, (b, ps) :: outer, qs, focus⟩ ws) (hx : focus.tree? = some x) :
    ∃ (items : List Item) (u v w c : List Word),
      (∀ item ∈ items, Derives .assignment item.1 item.2) ∧ items.map Prod.snd = done ∧
      OuterSpells outer u ∧ PendingSpells ps v ∧ Admits ps b.rank ∧ b.Spells w ∧
      Derives .assignment c (settleAll qs x) ∧ ws = endedWords items ++ (u ++ (v ++ (w ++ c))) := by
  obtain ⟨items, _, p, f, hitems, hdone, ⟨u, v, w, houter, hps, hadmits, hb, rfl⟩, hqs, hf, rfl⟩ :=
    h
  have hcontent := hqs.settleAll (hf.derives hx) (hqs.admits.mono (by decide))
  exact ⟨items, u, v, w, p ++ f, hitems, hdone, houter, hps, hadmits, hb, hcontent, by simp⟩

/-- A step that closes the innermost bracket. -/
theorem State.Spells.closeBracket {done : List SyntaxTree} {b : Bracket} {ps qs : List Pending}
    {outer : List (Bracket × List Pending)} {focus : Focus} {ws : List Word} {t : Word}
    {x y : SyntaxTree} (h : State.Spells ⟨done, (b, ps) :: outer, qs, focus⟩ ws)
    (hx : focus.tree? = some x)
    (hy : ∀ w c, b.Spells w → Derives .assignment c (settleAll qs x) →
      Derives .postfixed (w ++ (c ++ [t])) y) :
    State.Spells ⟨done, outer, ps, .value y⟩ (ws ++ [t]) := by
  obtain ⟨items, u, v, w, c, hitems, hdone, houter, hps, _, hb, hc, rfl⟩ := h.inside hx
  exact ⟨items, u, v, w ++ (c ++ [t]), hitems, hdone, houter, hps, hy w c hb hc, by simp⟩

/-- A step that puts the contents of the innermost bracket into it. -/
theorem State.Spells.fillBracket {done : List SyntaxTree} {b b' : Bracket} {ps qs : List Pending}
    {outer : List (Bracket × List Pending)} {focus : Focus} {ws : List Word} {t : Word}
    {x : SyntaxTree} (h : State.Spells ⟨done, (b, ps) :: outer, qs, focus⟩ ws)
    (hx : focus.tree? = some x) (hrank : b'.rank = b.rank)
    (hb' : ∀ w c, b.Spells w → Derives .assignment c (settleAll qs x) →
      b'.Spells (w ++ (c ++ [t]))) :
    State.Spells ⟨done, (b', ps) :: outer, [], .operand⟩ (ws ++ [t]) := by
  obtain ⟨items, u, v, w, c, hitems, hdone, houter, hps, hadmits, hb, hc, rfl⟩ := h.inside hx
  refine ⟨items, u ++ (v ++ (w ++ (c ++ [t]))), [], [], hitems, hdone, ?_, rfl, rfl, by simp⟩
  exact ⟨u, v, w ++ (c ++ [t]), houter, hps, hrank ▸ hadmits, hb' w c hb hc, rfl⟩

/-- The words of a state once an operator has closed what binds more tightly than itself. -/
theorem State.Spells.settled {done : List SyntaxTree} {outer : List (Bracket × List Pending)}
    {ps : List Pending} {focus : Focus} {ws : List Word} {x : SyntaxTree}
    (h : State.Spells ⟨done, outer, ps, focus⟩ ws) (hx : focus.tree? = some x) (strength : Nat)
    (hstrength : strength ≤ 10) :
    ∃ (items : List Item) (u v w : List Word) (ℓ : Level),
      (∀ item ∈ items, Derives .assignment item.1 item.2) ∧ items.map Prod.snd = done ∧
      OuterSpells outer u ∧ PendingSpells (settle strength ps x).1 v ∧
      Derives ℓ w (settle strength ps x).2 ∧ strength ≤ ℓ.rank ∧
      (∀ p ∈ (settle strength ps x).1.head?, p.strength < strength) ∧
      ws = endedWords items ++ (u ++ (v ++ w)) := by
  obtain ⟨items, u, v, w, hitems, hdone, houter, hpending, hw, rfl⟩ := h
  obtain ⟨v', w', ℓ, hps, hx', hℓ, hhead, heq⟩ :=
    hpending.settle (hw.derives hx) (hpending.admits.mono (by decide)) hstrength
  exact ⟨items, u, v', w', ℓ, hitems, hdone, houter, hps, hx', hℓ, hhead, by rw [heq]⟩

/-- A step that leaves an operator pending behind an operand. -/
theorem State.Spells.pend {done : List SyntaxTree} {outer : List (Bracket × List Pending)}
    {ps : List Pending} {focus : Focus} {ws : List Word} {t : Word} {x : SyntaxTree} {p : Pending}
    {strength : Nat} (h : State.Spells ⟨done, outer, ps, focus⟩ ws) (hx : focus.tree? = some x)
    (hstrength : strength ≤ 10)
    (hp : ∀ (ℓ : Level) (w : List Word), strength ≤ ℓ.rank →
      Derives ℓ w (settle strength ps x).2 → p.Spells (w ++ [t]))
    (hadmits : ∀ q : Pending, q.strength < strength → q.operandRank ≤ p.strength) :
    State.Spells ⟨done, outer, p :: (settle strength ps x).1, .operand⟩ (ws ++ [t]) := by
  obtain ⟨items, u, v, w, ℓ, hitems, hdone, houter, hps, hleft, hℓ, hhead, rfl⟩ :=
    h.settled hx strength hstrength
  refine ⟨items, u, v ++ (w ++ [t]), [], hitems, hdone, houter, ?_, rfl, by simp⟩
  exact ⟨v, w ++ [t], hps, hp ℓ w hℓ hleft, fun q hq => hadmits q (hhead q hq), rfl⟩

/-- A step that closes the innermost bracket before anything was read in it. -/
theorem State.Spells.closeEmpty {done : List SyntaxTree} {b : Bracket} {ps : List Pending}
    {outer : List (Bracket × List Pending)} {ws : List Word} {t : Word} {y : SyntaxTree}
    (h : State.Spells ⟨done, (b, ps) :: outer, [], .operand⟩ ws)
    (hy : ∀ w, b.Spells w → Derives .postfixed (w ++ [t]) y) :
    State.Spells ⟨done, outer, ps, .value y⟩ (ws ++ [t]) := by
  obtain ⟨items, _, _, _, hitems, hdone, ⟨u, v, w, houter, hps, _, hb, rfl⟩, rfl, rfl, rfl⟩ := h
  exact ⟨items, u, v, w ++ [t], hitems, hdone, houter, hps, hy w hb, by simp⟩

end FormulaUpgrade.Parser
