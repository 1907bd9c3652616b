import FormulaUpgrade.Proofs.Parser.Grammar

/-! # How the parser reads expressions

Reading an expression leaves behind the operators that may still go on with what follows. They hold
their operands at least as tightly as the level of the expression, so whatever ends the expression
closes them, and closing them gives its tree.
-/

namespace FormulaUpgrade.Parser

open Token Grammar

/-! ## Words in place of tokens -/

/-- One word, read as a token. -/
def State.read (s : State) (w : Word) : Option State :=
  s.step ⟨w.1, w.2, 0⟩

theorem State.step_eq_read (s : State) (t : Token) : s.step t = s.read t.word :=
  rfl

/-- Reads words one by one. -/
def feed : State → List Word → Option State
  | s, [] => some s
  | s, w :: ws => (s.read w).bind fun s => feed s ws

@[simp] theorem feed_nil (s : State) : feed s [] = some s :=
  rfl

@[simp] theorem feed_cons (s : State) (w : Word) (ws : List Word) :
    feed s (w :: ws) = (s.read w).bind fun s => feed s ws :=
  rfl

theorem feed_append (s : State) (v w : List Word) :
    feed s (v ++ w) = (feed s v).bind fun s => feed s w := by
  induction v generalizing s with
  | nil => rfl
  | cons a v ih => cases h : s.read a <;> simp [h, ih]

theorem run_eq_ok_iff (s s' : State) (ts : List Token) :
    run s ts = .ok s' ↔ feed s (ts.map Token.word) = some s' := by
  induction ts generalizing s with
  | nil => simp [run]
  | cons t ts ih =>
      rw [run, List.map_cons, feed_cons, ← State.step_eq_read]
      cases h : s.step t with
      | none => simp
      | some next => simp [ih]

/-! ## The operand in focus -/

/-- The operand that a focus stands for, if it is complete. -/
def Focus.tree? : Focus → Option SyntaxTree
  | .value x => some x
  | .name text => some (.symbol text)
  | .member owner text => some (.member owner text)
  | _ => none

theorem State.value?_eq_tree? (s : State) : s.value? = s.focus.tree? := by
  unfold State.value? Focus.tree?
  cases s.focus <;> rfl

/-- Behind a complete operand, every word but an opening parenthesis is read alike. -/
theorem State.read_of_tree? {s : State} {w : Word} {x : SyntaxTree} (h : s.focus.tree? = some x)
    (hw : w.1 ≠ .lparen) : s.read w = s.stepValue x ⟨w.1, w.2, 0⟩ := by
  unfold Focus.tree? at h
  unfold State.read State.step
  split at h <;> simp_all

theorem State.finish?_of_statements? {s : State} {xs : List SyntaxTree}
    (h : s.statements? = some xs) : s.finish? = some (statementTree xs) := by
  unfold State.finish? statementTree
  rw [h]
  match xs with
  | [] | [_] | _ :: _ :: _ => rfl

/-! ## Closing pending operators -/

/-- The rank of the right operand that a pending operator waits for. -/
def Pending.operandRank : Pending → Nat
  | .assigned _ => 0
  | .otherwise .. => 1
  | .infixed level .. => level + 3
  | .prefixed _ | .powered _ => 8

/-- The innermost of the pending operators waits for operands of this rank. -/
def Admits (ps : List Pending) (rank : Nat) : Prop :=
  ∀ p ∈ ps.head?, p.operandRank ≤ rank

@[simp] theorem admits_nil (rank : Nat) : Admits [] rank := by
  simp [Admits]

@[simp] theorem admits_cons (p : Pending) (ps : List Pending) (rank : Nat) :
    Admits (p :: ps) rank ↔ p.operandRank ≤ rank := by
  simp [Admits]

theorem Admits.mono {ps : List Pending} {m n : Nat} (h : Admits ps m) (hmn : m ≤ n) :
    Admits ps n :=
  fun p hp => Nat.le_trans (h p hp) hmn

@[simp] theorem settleAll_nil (x : SyntaxTree) : settleAll [] x = x :=
  rfl

theorem settleAll_append (ps qs : List Pending) (x : SyntaxTree) :
    settleAll (ps ++ qs) x = settleAll qs (settleAll ps x) :=
  List.foldl_append

@[simp] theorem settleAll_singleton (p : Pending) (x : SyntaxTree) : settleAll [p] x = p.close x :=
  rfl

/-- An operator closes what binds more tightly and stops at what does not. -/
theorem settle_append {strength : Nat} {qs ps : List Pending}
    (hqs : ∀ q ∈ qs, strength ≤ q.strength) (hps : ∀ p ∈ ps.head?, p.strength < strength)
    (x : SyntaxTree) : settle strength (qs ++ ps) x = (ps, settleAll qs x) := by
  induction qs generalizing x with
  | nil =>
      cases ps with
      | nil => rfl
      | cons p ps =>
          have hp : p.strength < strength := hps p rfl
          simp [settle, Nat.not_le.mpr hp]
  | cons q qs ih =>
      have hq : strength ≤ q.strength := hqs q (by simp)
      rw [List.cons_append, settle, if_pos hq, ih (fun p hp => hqs p (by simp [hp]))]
      rfl

/-! ## Expressions -/

/-- The words of an expression, read where an operand must come, lead to its tree once the operators
left behind are closed. -/
def ReadsAs (rank : Nat) (ws : List Word) (t : SyntaxTree) : Prop :=
  ∀ done outer ps, Admits ps rank → ∃ qs focus x,
    feed ⟨done, outer, ps, .operand⟩ ws = some ⟨done, outer, qs ++ ps, focus⟩ ∧
    focus.tree? = some x ∧ settleAll qs x = t ∧ (∀ q ∈ qs, min rank 8 ≤ q.strength) ∧
    (10 ≤ rank → qs = [])

theorem ReadsAs.loosen {m n : Nat} {ws : List Word} {t : SyntaxTree} (h : ReadsAs n ws t)
    (hmn : m ≤ n) : ReadsAs m ws t := by
  intro done outer ps hps
  obtain ⟨qs, focus, x, hfeed, hx, ht, hqs, hnil⟩ := h done outer ps (hps.mono hmn)
  refine ⟨qs, focus, x, hfeed, hx, ht, ?_, fun hm => hnil (Nat.le_trans hm hmn)⟩
  intro q hq
  have := hqs q hq
  omega

/-- An expression that ends in a single step leaves no operators behind. -/
theorem ReadsAs.of_value {rank : Nat} {ws : List Word} {t : SyntaxTree}
    (h : ∀ done outer ps, ∃ focus,
      feed ⟨done, outer, ps, .operand⟩ ws = some ⟨done, outer, ps, focus⟩ ∧
        focus.tree? = some t) : ReadsAs rank ws t := by
  intro done outer ps _
  obtain ⟨focus, hfeed, ht⟩ := h done outer ps
  exact ⟨[], focus, t, by simpa using hfeed, ht, rfl, by simp, fun _ => rfl⟩

/-- A postfix expression is complete as soon as it is read. -/
theorem ReadsAs.value {ws : List Word} {t : SyntaxTree} (h : ReadsAs 10 ws t)
    (done : List SyntaxTree) (outer : List (Bracket × List Pending)) (ps : List Pending)
    (hps : Admits ps 10) : ∃ focus,
      feed ⟨done, outer, ps, .operand⟩ ws = some ⟨done, outer, ps, focus⟩ ∧
        focus.tree? = some t := by
  obtain ⟨qs, focus, x, hfeed, hx, ht, _, hnil⟩ := h done outer ps hps
  obtain rfl := hnil (Nat.le_refl 10)
  exact ⟨focus, by simpa using hfeed, by rw [hx, ← ht]; rfl⟩

/-! ### Operators -/

theorem infixLevel?_of_mem_operators (ℓ : Level) : ∀ kind ∈ ℓ.operators,
    infixLevel? kind = some (ℓ.rank - 2) ∧ 2 ≤ ℓ.rank ∧ ℓ.rank ≤ 7 ∧ ℓ.next.rank = ℓ.rank + 1 := by
  cases ℓ <;> decide

theorem State.read_infixed {s : State} {x : SyntaxTree} {kind : Kind} {level : Nat} (op : String)
    (hx : s.focus.tree? = some x) (hlevel : infixLevel? kind = some level) :
    s.read (kind, op) = some ⟨s.statements, s.outer,
      .infixed level op (settle (level + 2) s.pending x).2 :: (settle (level + 2) s.pending x).1,
      .operand⟩ := by
  have hkind : kind ≠ .lparen := by
    rintro rfl
    simp [infixLevel?] at hlevel
  rw [State.read_of_tree? hx hkind]
  simp [State.stepValue, hlevel]

theorem ReadsAs.infixed {ℓ : Level} {kind : Kind} {v w : List Word} {x y : SyntaxTree}
    (op : String) (hkind : kind ∈ ℓ.operators) (hx : ReadsAs ℓ.rank v x)
    (hy : ReadsAs ℓ.next.rank w y) :
    ReadsAs ℓ.rank (v ++ (kind, op) :: w) (.operator op [x, y]) := by
  intro done outer ps hps
  obtain ⟨hlevel, hlow, hhigh, hnext⟩ := infixLevel?_of_mem_operators ℓ kind hkind
  obtain ⟨qs, focus, left, hfeed, hleft, rfl, hqs, _⟩ := hx done outer ps hps
  have hsettle : settle (ℓ.rank - 2 + 2) (qs ++ ps) left = (ps, settleAll qs left) := by
    apply settle_append
    · intro q hq
      have := hqs q hq
      omega
    · -- An operator that waits for this level is looser than the level's own operators.
      intro p hp
      have := hps p hp
      cases p <;> simp only [Pending.operandRank, Pending.strength] at this ⊢ <;> omega
  let p := Pending.infixed (ℓ.rank - 2) op (settleAll qs left)
  have hp : p.operandRank ≤ ℓ.next.rank := by
    simp only [p, Pending.operandRank]
    omega
  obtain ⟨rs, last, right, hfeed', hright, rfl, hrs, _⟩ :=
    hy done outer (p :: ps) (by simpa using hp)
  refine ⟨rs ++ [p], last, right, ?_, hright, by simp [settleAll_append, p, Pending.close], ?_,
    by omega⟩
  · have hread := State.read_infixed (s := ⟨done, outer, qs ++ ps, focus⟩) op hleft hlevel
    rw [feed_append, hfeed, Option.bind_some, feed_cons, hread, hsettle, Option.bind_some, hfeed']
    simp
  · intro q hq
    rcases List.mem_append.mp hq with hq | hq
    · have := hrs q hq
      omega
    · obtain rfl := List.mem_singleton.mp hq
      simp only [p, Pending.strength]
      omega

theorem State.read_prefixed (done : List SyntaxTree) (outer : List (Bracket × List Pending))
    (ps : List Pending) {kind : Kind} (op : String) (hkind : kind ∈ prefixKinds) :
    State.read ⟨done, outer, ps, .operand⟩ (kind, op) =
      some ⟨done, outer, .prefixed op :: ps, .operand⟩ := by
  simp only [prefixKinds, List.mem_cons, List.not_mem_nil, or_false] at hkind
  rcases hkind with rfl | rfl | rfl | rfl <;> rfl

theorem ReadsAs.prefixed {kind : Kind} {w : List Word} {x : SyntaxTree} (op : String)
    (hkind : kind ∈ prefixKinds) (hx : ReadsAs 8 w x) :
    ReadsAs 8 ((kind, op) :: w) (.operator op [x]) := by
  intro done outer ps _
  obtain ⟨qs, focus, y, hfeed, hy, rfl, hqs, _⟩ :=
    hx done outer (.prefixed op :: ps) (by simp [Pending.operandRank])
  refine ⟨qs ++ [.prefixed op], focus, y, ?_, hy, by simp [settleAll_append, Pending.close], ?_,
    by omega⟩
  · rw [feed_cons, State.read_prefixed done outer ps op hkind, Option.bind_some, hfeed]
    simp
  · intro q hq
    rcases List.mem_append.mp hq with hq | hq
    · exact hqs q hq
    · obtain rfl := List.mem_singleton.mp hq
      simp [Pending.strength]

theorem ReadsAs.power {v w : List Word} {x y : SyntaxTree} (hx : ReadsAs 10 v x)
    (hy : ReadsAs 8 w y) : ReadsAs 9 (v ++ (.pow, "^") :: w) (.operator "^" [x, y]) := by
  intro done outer ps hps
  obtain ⟨focus, hfeed, hbase⟩ := hx.value done outer ps (hps.mono (by omega))
  obtain ⟨qs, last, z, hfeed', hz, rfl, hqs, _⟩ :=
    hy done outer (.powered x :: ps) (by simp [Pending.operandRank])
  refine ⟨qs ++ [.powered x], last, z, ?_, hz, by simp [settleAll_append, Pending.close], ?_,
    by omega⟩
  · have hread : State.read ⟨done, outer, ps, focus⟩ (.pow, "^") =
        some ⟨done, outer, .powered x :: ps, .operand⟩ := State.read_of_tree? hbase (by decide)
    rw [feed_append, hfeed, Option.bind_some, feed_cons, hread, Option.bind_some, hfeed']
    simp
  · intro q hq
    rcases List.mem_append.mp hq with hq | hq
    · have := hqs q hq
      omega
    · obtain rfl := List.mem_singleton.mp hq
      simp [Pending.strength]

theorem ReadsAs.assignment {v w : List Word} {x y : SyntaxTree} (hx : ReadsAs 1 v x)
    (hy : ReadsAs 0 w y) : ReadsAs 0 (v ++ (.assign, "=") :: w) (.assignment x y) := by
  intro done outer ps hps
  obtain ⟨qs, focus, target, hfeed, htarget, rfl, hqs, _⟩ := hx done outer ps (hps.mono (by omega))
  have hsettle : settle 1 (qs ++ ps) target = (ps, settleAll qs target) := by
    apply settle_append
    · intro q hq
      have := hqs q hq
      omega
    · intro p hp
      have := hps p hp
      cases p <;> simp [Pending.operandRank, Pending.strength] at this ⊢
  obtain ⟨rs, last, z, hfeed', hz, rfl, _, _⟩ :=
    hy done outer (.assigned (settleAll qs target) :: ps) (by simp [Pending.operandRank])
  refine ⟨rs ++ [.assigned (settleAll qs target)], last, z, ?_, hz,
    by simp [settleAll_append, Pending.close], by simp, by omega⟩
  have hread : State.read ⟨done, outer, qs ++ ps, focus⟩ (.assign, "=") =
      some ⟨done, outer, .assigned (settle 1 (qs ++ ps) target).2 :: (settle 1 (qs ++ ps) target).1,
        .operand⟩ := State.read_of_tree? htarget (by decide)
  rw [feed_append, hfeed, Option.bind_some, feed_cons, hread, hsettle, Option.bind_some, hfeed']
  simp

theorem ReadsAs.conditional {u v w : List Word} {c x y : SyntaxTree} (hc : ReadsAs 2 u c)
    (hx : ReadsAs 0 v x) (hy : ReadsAs 1 w y) :
    ReadsAs 1 (u ++ (.question, "?") :: (v ++ (.colon, ":") :: w)) (.conditional c x y) := by
  intro done outer ps hps
  obtain ⟨qs, focus, condition, hfeed, hcondition, rfl, hqs, _⟩ :=
    hc done outer ps (hps.mono (by omega))
  have hsettle : settle 2 (qs ++ ps) condition = (ps, settleAll qs condition) := by
    apply settle_append
    · intro q hq
      have := hqs q hq
      omega
    · intro p hp
      have := hps p hp
      cases p <;> simp [Pending.operandRank, Pending.strength] at this ⊢
  -- The first branch is read inside a bracket of its own, which the colon closes.
  let branch := (Bracket.branch (settleAll qs condition), ps)
  obtain ⟨rs, inner, z, hfeed', hz, rfl, _, _⟩ := hx done (branch :: outer) [] (by simp)
  let p := Pending.otherwise (settleAll qs condition) (settleAll rs z)
  obtain ⟨ts, last, a, hfeed'', ha, rfl, hts, _⟩ :=
    hy done outer (p :: ps) (by simp [p, Pending.operandRank])
  refine ⟨ts ++ [p], last, a, ?_, ha, by simp [settleAll_append, p, Pending.close], ?_, by omega⟩
  · have hquestion : State.read ⟨done, outer, qs ++ ps, focus⟩ (.question, "?") =
        some ⟨done,
          (.branch (settle 2 (qs ++ ps) condition).2, (settle 2 (qs ++ ps) condition).1) ::
          outer, [], .operand⟩ := State.read_of_tree? hcondition (by decide)
    have hcolon : State.read ⟨done, branch :: outer, rs ++ [], inner⟩ (.colon, ":") =
        some ⟨done, outer, .otherwise (settleAll qs condition) (settleAll (rs ++ []) z) :: ps,
          .operand⟩ := State.read_of_tree? hz (by decide)
    rw [feed_append, hfeed, Option.bind_some, feed_cons, hquestion, hsettle, Option.bind_some,
      feed_append, hfeed', Option.bind_some, feed_cons, hcolon, List.append_nil, Option.bind_some,
      hfeed'']
    simp
  · intro q hq
    rcases List.mem_append.mp hq with hq | hq
    · exact hts q hq
    · obtain rfl := List.mem_singleton.mp hq
      simp [p, Pending.strength]

end FormulaUpgrade.Parser
