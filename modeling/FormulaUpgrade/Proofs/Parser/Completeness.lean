import FormulaUpgrade.Proofs.Parser.Reading

/-! # The parser reads every formula of the grammar -/

namespace FormulaUpgrade.Parser

open Token Grammar

/-! ## Lists in brackets -/

/-- A bracket around a list: a comma puts an operand at the end of the list, and the closing word
makes a value of it. -/
structure ListBracket (bracket : List SyntaxTree → Bracket) (closing : Word)
    (tree : List SyntaxTree → SyntaxTree) : Prop where
  comma : ∀ {done outer ps qs focus x items}, Focus.tree? focus = some x →
    State.read ⟨done, (bracket items, ps) :: outer, qs, focus⟩ (.comma, ",") =
      some ⟨done, (bracket (items ++ [settleAll qs x]), ps) :: outer, [], .operand⟩
  close : ∀ {done outer ps qs focus x items}, Focus.tree? focus = some x →
    State.read ⟨done, (bracket items, ps) :: outer, qs, focus⟩ closing =
      some ⟨done, outer, ps, .value (tree (items ++ [settleAll qs x]))⟩

theorem listBracket_call (name : String) :
    ListBracket (.call name) (.rparen, ")") (.call name) :=
  ⟨fun h => State.read_of_tree? h (by decide), fun h => State.read_of_tree? h (by decide)⟩

theorem listBracket_method (owner : SyntaxTree) (name : String) :
    ListBracket (.method owner name) (.rparen, ")") (.method owner name) :=
  ⟨fun h => State.read_of_tree? h (by decide), fun h => State.read_of_tree? h (by decide)⟩

theorem listBracket_array : ListBracket .array (.rbracket, "]") .array :=
  ⟨fun h => State.read_of_tree? h (by decide), fun h => State.read_of_tree? h (by decide)⟩

theorem listBracket_index (owner : SyntaxTree) :
    ListBracket (.index owner) (.rbracket, "]") (.index owner) :=
  ⟨fun h => State.read_of_tree? h (by decide), fun h => State.read_of_tree? h (by decide)⟩

/-- Operands between commas, up to the closing word. -/
theorem ListBracket.feed_items {bracket : List SyntaxTree → Bracket} {closing : Word}
    {tree : List SyntaxTree → SyntaxTree} (hb : ListBracket bracket closing tree)
    {items : List Item} (hne : items ≠ []) (hitems : ∀ item ∈ items, ReadsAs 0 item.1 item.2)
    (done : List SyntaxTree) (outer : List (Bracket × List Pending)) (ps : List Pending)
    (front : List SyntaxTree) :
    feed ⟨done, (bracket front, ps) :: outer, [], .operand⟩
        (commaWords (items.map Prod.fst) ++ [closing]) =
      some ⟨done, outer, ps, .value (tree (front ++ items.map Prod.snd))⟩ := by
  induction items generalizing front with
  | nil => exact absurd rfl hne
  | cons item rest ih =>
      obtain ⟨qs, focus, x, hfeed, hx, htree, _, _⟩ :=
        hitems item (by simp) done ((bracket front, ps) :: outer) [] (by simp)
      rw [List.append_nil] at hfeed
      cases rest with
      | nil =>
          rw [List.map_cons, List.map_nil, commaWords_singleton, feed_append, hfeed,
            Option.bind_some, feed_cons, hb.close hx, htree]
          simp
      | cons next rest =>
          have hrest := ih (by simp) (fun i hi => hitems i (by simp [hi])) (front ++ [item.2])
          rw [List.map_cons] at hrest
          rw [List.map_cons, List.map_cons, commaWords_cons_cons, List.append_assoc,
            List.cons_append, feed_append, hfeed, Option.bind_some, feed_cons, hb.comma hx, htree,
            Option.bind_some, hrest]
          simp

/-- Brackets that may also close without any operand. -/
theorem ListBracket.feed_all {bracket : List SyntaxTree → Bracket} {closing : Word}
    {tree : List SyntaxTree → SyntaxTree} (hb : ListBracket bracket closing tree)
    {items : List Item} (hitems : ∀ item ∈ items, ReadsAs 0 item.1 item.2)
    (done : List SyntaxTree) (outer : List (Bracket × List Pending)) (ps : List Pending)
    (hempty : State.read ⟨done, (bracket [], ps) :: outer, [], .operand⟩ closing =
      some ⟨done, outer, ps, .value (tree [])⟩) :
    feed ⟨done, (bracket [], ps) :: outer, [], .operand⟩
        (commaWords (items.map Prod.fst) ++ [closing]) =
      some ⟨done, outer, ps, .value (tree (items.map Prod.snd))⟩ := by
  cases items with
  | nil => simp [hempty]
  | cons item rest => simpa using hb.feed_items (by simp) hitems done outer ps []

theorem ReadsAs.call {rank : Nat} {kind : Kind} {items : List Item} (name : String)
    (hkind : kind ∈ callableKinds) (hitems : ∀ item ∈ items, ReadsAs 0 item.1 item.2) :
    ReadsAs rank
      ((kind, name) :: (.lparen, "(") :: (commaWords (items.map Prod.fst) ++ [(.rparen, ")")]))
      (.call name (items.map Prod.snd)) := by
  apply ReadsAs.of_value
  intro done outer ps
  have hopen : feed ⟨done, outer, ps, .operand⟩ [(kind, name), (.lparen, "(")] =
      some ⟨done, (.call name [], ps) :: outer, [], .operand⟩ := by
    simp only [callableKinds, List.mem_cons, List.not_mem_nil, or_false] at hkind
    rcases hkind with rfl | rfl | rfl | rfl | rfl <;> rfl
  refine ⟨.value (.call name (items.map Prod.snd)), ?_, rfl⟩
  change feed _
    ([(kind, name), (.lparen, "(")] ++ (commaWords (items.map Prod.fst) ++ [(.rparen, ")")])) = _
  rw [feed_append, hopen, Option.bind_some]
  exact (listBracket_call name).feed_all hitems done outer ps rfl

theorem ReadsAs.array {rank : Nat} {items : List Item}
    (hitems : ∀ item ∈ items, ReadsAs 0 item.1 item.2) :
    ReadsAs rank ((.lbracket, "[") :: (commaWords (items.map Prod.fst) ++ [(.rbracket, "]")]))
      (.array (items.map Prod.snd)) := by
  apply ReadsAs.of_value
  intro done outer ps
  refine ⟨.value (.array (items.map Prod.snd)), ?_, rfl⟩
  exact listBracket_array.feed_all hitems done outer ps rfl

theorem ReadsAs.index {v : List Word} {x : SyntaxTree} {items : List Item} (hx : ReadsAs 10 v x)
    (hne : items ≠ []) (hitems : ∀ item ∈ items, ReadsAs 0 item.1 item.2) :
    ReadsAs 10 (v ++ (.lbracket, "[") :: (commaWords (items.map Prod.fst) ++ [(.rbracket, "]")]))
      (.index x (items.map Prod.snd)) := by
  intro done outer ps hps
  obtain ⟨focus, hfeed, hfocus⟩ := hx.value done outer ps hps
  have hread : State.read ⟨done, outer, ps, focus⟩ (.lbracket, "[") =
      some ⟨done, (.index x [], ps) :: outer, [], .operand⟩ :=
    State.read_of_tree? hfocus (by decide)
  refine ⟨[], .value (.index x (items.map Prod.snd)), _, ?_, rfl, rfl, by simp, fun _ => rfl⟩
  rw [feed_append, hfeed, Option.bind_some, feed_cons, hread, Option.bind_some]
  exact (listBracket_index x).feed_items hne hitems done outer ps []

theorem ReadsAs.member {v : List Word} {x : SyntaxTree} (name : String) (hx : ReadsAs 10 v x) :
    ReadsAs 10 (v ++ [(.dot, "."), (.name, name)]) (.member x name) := by
  intro done outer ps hps
  obtain ⟨focus, hfeed, hfocus⟩ := hx.value done outer ps hps
  have hread : State.read ⟨done, outer, ps, focus⟩ (.dot, ".") =
      some ⟨done, outer, ps, .dot x⟩ := State.read_of_tree? hfocus (by decide)
  refine ⟨[], .member x name, _, ?_, rfl, rfl, by simp, fun _ => rfl⟩
  rw [feed_append, hfeed, Option.bind_some, feed_cons, hread]
  rfl

theorem ReadsAs.method {v : List Word} {x : SyntaxTree} {items : List Item} (name : String)
    (hx : ReadsAs 10 v x) (hitems : ∀ item ∈ items, ReadsAs 0 item.1 item.2) :
    ReadsAs 10
      (v ++ (.dot, ".") :: (.name, name) :: (.lparen, "(") ::
        (commaWords (items.map Prod.fst) ++ [(.rparen, ")")]))
      (.method x name (items.map Prod.snd)) := by
  intro done outer ps hps
  obtain ⟨focus, hfeed, hfocus⟩ := hx.value done outer ps hps
  have hread : State.read ⟨done, outer, ps, focus⟩ (.dot, ".") =
      some ⟨done, outer, ps, .dot x⟩ := State.read_of_tree? hfocus (by decide)
  refine ⟨[], .value (.method x name (items.map Prod.snd)), _, ?_, rfl, rfl, by simp, fun _ => rfl⟩
  rw [feed_append, hfeed, Option.bind_some, feed_cons, hread]
  exact (listBracket_method x name).feed_all hitems done outer ps rfl

theorem ReadsAs.paren {rank : Nat} {w : List Word} {x : SyntaxTree} (hx : ReadsAs 0 w x) :
    ReadsAs rank ((.lparen, "(") :: (w ++ [(.rparen, ")")])) (.paren x) := by
  apply ReadsAs.of_value
  intro done outer ps
  obtain ⟨qs, focus, y, hfeed, hy, rfl, _, _⟩ := hx done ((.group, ps) :: outer) [] (by simp)
  have hopen : State.read ⟨done, outer, ps, .operand⟩ (.lparen, "(") =
      some ⟨done, (.group, ps) :: outer, [], .operand⟩ := rfl
  have hclose : State.read ⟨done, (.group, ps) :: outer, qs, focus⟩ (.rparen, ")") =
      some ⟨done, outer, ps, .value (.paren (settleAll qs y))⟩ :=
    State.read_of_tree? hy (by decide)
  refine ⟨.value (.paren (settleAll qs y)), ?_, rfl⟩
  rw [List.append_nil] at hfeed
  rw [feed_cons, hopen, Option.bind_some, feed_append, hfeed, Option.bind_some, feed_cons, hclose]
  rfl

/-! ## Objects -/

/-- Entries between commas, up to the closing brace. -/
theorem feed_entries {entries : List (Word × Item)} (hne : entries ≠ [])
    (hkeys : ∀ entry ∈ entries, entry.1.1 ∈ keyKinds)
    (hentries : ∀ entry ∈ entries, ReadsAs 0 entry.2.1 entry.2.2) (done : List SyntaxTree)
    (outer : List (Bracket × List Pending)) (ps : List Pending)
    (front : List (String × SyntaxTree)) :
    feed ⟨done, outer, ps, .key front⟩
        (commaWords (entries.map entryWords) ++ [(.rbrace, "\x7d")]) =
      some ⟨done, outer, ps, .value (.object (front ++ entries.map entryTree))⟩ := by
  induction entries generalizing front with
  | nil => exact absurd rfl hne
  | cons entry rest ih =>
      obtain ⟨⟨kind, key⟩, words, tree⟩ := entry
      obtain ⟨qs, focus, x, hfeed, hx, rfl, _, _⟩ :=
        hentries _ (List.mem_cons_self ..) done ((.entry front key, ps) :: outer) [] (by simp)
      rw [List.append_nil] at hfeed
      have hkey : feed ⟨done, outer, ps, .key front⟩ [(kind, key), (.colon, ":")] =
          some ⟨done, (.entry front key, ps) :: outer, [], .operand⟩ := by
        have hkind : kind ∈ keyKinds := hkeys _ (List.mem_cons_self ..)
        simp only [keyKinds, List.mem_cons, List.not_mem_nil, or_false] at hkind
        rcases hkind with rfl | rfl <;> rfl
      have hwords (tail : List Word) :
          feed ⟨done, outer, ps, .key front⟩
              (entryWords ((kind, key), words, settleAll qs x) ++ tail) =
            feed ⟨done, (.entry front key, ps) :: outer, qs, focus⟩ tail := by
        rw [show entryWords ((kind, key), words, settleAll qs x) ++ tail =
          [(kind, key), (.colon, ":")] ++ (words ++ tail) from rfl, feed_append, hkey,
          Option.bind_some, feed_append, hfeed, Option.bind_some]
      cases rest with
      | nil =>
          have hclose : State.read ⟨done, (.entry front key, ps) :: outer, qs, focus⟩
              (.rbrace, "\x7d") =
              some ⟨done, outer, ps, .value (.object (front ++ [(key, settleAll qs x)]))⟩ :=
            State.read_of_tree? hx (by decide)
          rw [List.map_cons, List.map_nil, commaWords_singleton, hwords, feed_cons, hclose]
          rfl
      | cons next rest =>
          have hcomma :
              State.read ⟨done, (.entry front key, ps) :: outer, qs, focus⟩ (.comma, ",") =
              some ⟨done, outer, ps, .key (front ++ [(key, settleAll qs x)])⟩ :=
            State.read_of_tree? hx (by decide)
          have hrest := ih (by simp) (fun e he => hkeys e (by simp [he]))
            (fun e he => hentries e (by simp [he])) (front ++ [(key, settleAll qs x)])
          rw [List.map_cons] at hrest
          rw [List.map_cons, List.map_cons, commaWords_cons_cons, List.append_assoc, hwords,
            List.cons_append, feed_cons, hcomma, Option.bind_some, hrest]
          simp [entryTree]

theorem ReadsAs.object {rank : Nat} {entries : List (Word × Item)}
    (hkeys : ∀ entry ∈ entries, entry.1.1 ∈ keyKinds)
    (hentries : ∀ entry ∈ entries, ReadsAs 0 entry.2.1 entry.2.2) :
    ReadsAs rank ((.lbrace, "\x7b") :: (commaWords (entries.map entryWords) ++ [(.rbrace, "\x7d")]))
      (.object (entries.map entryTree)) := by
  apply ReadsAs.of_value
  intro done outer ps
  refine ⟨.value (.object (entries.map entryTree)), ?_, rfl⟩
  cases entries with
  | nil => rfl
  | cons entry rest => exact feed_entries (by simp) hkeys hentries done outer ps []

/-! ## Every expression -/

theorem readsAs_of_derives {ℓ : Level} {ws : List Word} {t : SyntaxTree} (h : Derives ℓ ws t) :
    ReadsAs ℓ.rank ws t := by
  induction h with
  | tighter _ ih => exact ih.loosen (Level.rank_le_rank_next _)
  | assignment _ _ hx hy => exact hx.assignment hy
  | conditional _ _ _ hc hx hy => exact hc.conditional hx hy
  | infixed hkind _ _ hx hy => exact hx.infixed _ hkind hy
  | prefixed hkind _ hx => exact hx.prefixed _ hkind
  | power _ _ hx hy => exact hx.power hy
  | index _ hne _ hx hitems => exact hx.index hne hitems
  | member _ hx => exact hx.member _
  | method _ _ hx hitems => exact hx.method _ hitems
  | number | string | symbol => exact ReadsAs.of_value fun _ _ _ => ⟨_, rfl, rfl⟩
  | paren _ hx => exact hx.paren
  | call hkind _ hitems => exact ReadsAs.call _ hkind hitems
  | array _ hitems => exact ReadsAs.array hitems
  | object hkeys _ hentries => exact ReadsAs.object hkeys hentries

/-! ## Formulas -/

/-- Statements between semicolons leave the last of them in focus. -/
theorem feed_statements {items : List Item} (hne : items ≠ [])
    (hitems : ∀ item ∈ items, Derives .assignment item.1 item.2) (done : List SyntaxTree) :
    ∃ front qs focus x, feed ⟨done, [], [], .operand⟩ (statementWords items) =
      some ⟨done ++ front, [], qs, focus⟩ ∧ focus.tree? = some x ∧
      front ++ [settleAll qs x] = items.map Prod.snd := by
  induction items generalizing done with
  | nil => exact absurd rfl hne
  | cons item rest ih =>
      obtain ⟨qs, focus, x, hfeed, hx, htree, _, _⟩ :=
        readsAs_of_derives (hitems item (by simp)) done [] [] (by simp)
      rw [List.append_nil] at hfeed
      cases rest with
      | nil => exact ⟨[], qs, focus, x, by simpa using hfeed, hx, by simp [htree]⟩
      | cons next rest =>
          obtain ⟨front, rs, last, y, hfeed', hy, hfront⟩ :=
            ih (by simp) (fun i hi => hitems i (by simp [hi])) (done ++ [item.2])
          have hsemi : State.read ⟨done, [], qs, focus⟩ (.semi, ";") =
              some ⟨done ++ [settleAll qs x], [], [], .operand⟩ :=
            State.read_of_tree? hx (by decide)
          refine ⟨item.2 :: front, rs, last, y, ?_, hy, by simpa using hfront⟩
          rw [statementWords_cons_cons, feed_append, hfeed, Option.bind_some, feed_cons, hsemi,
            htree, Option.bind_some, hfeed']
          simp

/-- The words of a formula are read to their end, and its tree comes of them. -/
theorem feed_of_sentence {ws : List Word} {t : SyntaxTree} (h : Sentence ws t) :
    ∃ s, feed .initial ws = some s ∧ s.finish? = some t := by
  cases h with
  | @statements items hne hitems =>
      obtain ⟨front, qs, focus, x, hfeed, hx, hfront⟩ := feed_statements hne hitems []
      refine ⟨_, hfeed, State.finish?_of_statements? ?_⟩
      simp [State.statements?, State.value?_eq_tree?, hx, hfront]
  | @ended items hne hitems =>
      obtain ⟨front, qs, focus, x, hfeed, hx, hfront⟩ := feed_statements hne hitems []
      have hsemi : State.read ⟨[] ++ front, [], qs, focus⟩ (.semi, ";") =
          some ⟨[] ++ front ++ [settleAll qs x], [], [], .operand⟩ :=
        State.read_of_tree? hx (by decide)
      rw [List.nil_append, hfront] at hsemi
      refine ⟨⟨items.map Prod.snd, [], [], .operand⟩, ?_, State.finish?_of_statements? ?_⟩
      · rw [State.initial, feed_append, hfeed, Option.bind_some, feed_cons, List.nil_append, hsemi]
        rfl
      · cases items with
        | nil => exact absurd rfl hne
        | cons item rest => rfl

end FormulaUpgrade.Parser
