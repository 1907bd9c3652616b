/-! # Patterns of characters

A pattern matches certain texts. At the head of a longer text there may be several ways to match it,
and they are tried in a fixed order: the first alternative before the second, and one more round of a
repetition before its end. The first way that succeeds decides where the match ends.
-/

namespace FormulaUpgrade

inductive Pattern where
  | empty
  | one (accepts : Char → Bool)
  | seq (first second : Pattern)
  | alt (first second : Pattern)
  | many (repeated : Pattern)

namespace Pattern

/-! ## Texts that match as a whole -/

inductive Matches : Pattern → List Char → Prop where
  | empty : Matches .empty []
  | one {accepts c} : accepts c → Matches (.one accepts) [c]
  | seq {a b t u} : Matches a t → Matches b u → Matches (.seq a b) (t ++ u)
  | left {a b t} : Matches a t → Matches (.alt a b) t
  | right {a b t} : Matches b t → Matches (.alt a b) t
  | stop {a} : Matches (.many a) []
  | again {a t u} : Matches a t → Matches (.many a) u → Matches (.many a) (t ++ u)

@[simp] theorem matches_empty_iff {t : List Char} : Matches .empty t ↔ t = [] := by
  constructor
  · intro h
    cases h
    rfl
  · rintro rfl
    exact .empty

@[simp] theorem matches_one_iff {accepts : Char → Bool} {t : List Char} :
    Matches (.one accepts) t ↔ ∃ c, accepts c ∧ t = [c] := by
  constructor
  · intro h
    cases h with
    | one hc => exact ⟨_, hc, rfl⟩
  · rintro ⟨c, hc, rfl⟩
    exact .one hc

theorem matches_seq_iff {a b : Pattern} {t : List Char} :
    Matches (.seq a b) t ↔ ∃ u v, Matches a u ∧ Matches b v ∧ t = u ++ v := by
  constructor
  · intro h
    cases h with
    | seq hu hv => exact ⟨_, _, hu, hv, rfl⟩
  · rintro ⟨u, v, hu, hv, rfl⟩
    exact .seq hu hv

@[simp] theorem matches_seq_one_nil {accepts : Char → Bool} {b : Pattern} :
    ¬Matches (.seq (.one accepts) b) [] := by
  simp [matches_seq_iff]

@[simp] theorem matches_seq_one_cons {accepts : Char → Bool} {b : Pattern} {c : Char}
    {t : List Char} : Matches (.seq (.one accepts) b) (c :: t) ↔ accepts c ∧ Matches b t := by
  rw [matches_seq_iff]
  constructor
  · rintro ⟨u, v, hu, hv, heq⟩
    obtain ⟨d, hd, rfl⟩ := matches_one_iff.mp hu
    cases heq
    exact ⟨hd, hv⟩
  · rintro ⟨hc, ht⟩
    exact ⟨[c], t, .one hc, ht, rfl⟩

@[simp] theorem matches_alt_iff {a b : Pattern} {t : List Char} :
    Matches (.alt a b) t ↔ Matches a t ∨ Matches b t := by
  constructor
  · intro h
    cases h with
    | left h => exact .inl h
    | right h => exact .inr h
  · intro h
    cases h with
    | inl h => exact .left h
    | inr h => exact .right h

/-- A repeated character class matches the texts of its characters. -/
@[simp] theorem matches_many_one_iff {accepts : Char → Bool} {t : List Char} :
    Matches (.many (.one accepts)) t ↔ ∀ c ∈ t, accepts c := by
  constructor
  · intro h
    generalize hp : Pattern.many (.one accepts) = p at h
    induction h with
    | again hround _ _ ih =>
        cases hp
        obtain ⟨c, hc, rfl⟩ := matches_one_iff.mp hround
        simpa using ⟨hc, ih rfl⟩
    | stop => simp
    | _ => cases hp
  · intro h
    induction t with
    | nil => exact .stop
    | cons c t ih =>
        rw [List.forall_mem_cons] at h
        exact .again (.one h.1) (ih h.2)

/-! ## Ways to match the head of a text -/

/-- A text in two parts: what is matched, and what follows it. -/
abbrev Split := List Char × List Char

/-- Puts characters in front of the matched part. -/
def Split.prepend (front : List Char) (s : Split) : Split :=
  (front ++ s.1, s.2)

/-- The ways to go round, from the most rounds to none. A round has to get on in the text. -/
def rounds (round : List Char → List Split) (cs : List Char) : List Split :=
  ((round cs).flatMap fun s =>
    if _h : s.2.length < cs.length then (rounds round s.2).map (Split.prepend s.1) else []) ++
    [([], cs)]
termination_by cs.length

/-- The ways to match the head of a text, in the order in which they are tried. -/
def splits : Pattern → List Char → List Split
  | .empty, cs => [([], cs)]
  | .one _, [] => []
  | .one accepts, c :: cs => if accepts c then [([c], cs)] else []
  | .seq a b, cs => (a.splits cs).flatMap fun s => (b.splits s.2).map (Split.prepend s.1)
  | .alt a b, cs => a.splits cs ++ b.splits cs
  | .many a, cs => rounds a.splits cs

/-- The way that is taken. -/
def first? (p : Pattern) (cs : List Char) : Option Split :=
  (p.splits cs).head?

@[simp] theorem splits_one_cons (accepts : Char → Bool) (c : Char) (cs : List Char) :
    (one accepts).splits (c :: cs) = if accepts c then [([c], cs)] else [] :=
  rfl

@[simp] theorem splits_one_nil (accepts : Char → Bool) : (one accepts).splits [] = [] :=
  rfl

@[simp] theorem splits_alt (a b : Pattern) (cs : List Char) :
    (alt a b).splits cs = a.splits cs ++ b.splits cs :=
  rfl

@[simp] theorem splits_seq_one_cons (accepts : Char → Bool) (b : Pattern) (c : Char)
    (cs : List Char) : (seq (one accepts) b).splits (c :: cs) =
      if accepts c then (b.splits cs).map (Split.prepend [c]) else [] := by
  by_cases hc : accepts c <;> simp [splits, hc]

@[simp] theorem splits_seq_one_nil (accepts : Char → Bool) (b : Pattern) :
    (seq (one accepts) b).splits [] = [] :=
  rfl

theorem splits_many (a : Pattern) (cs : List Char) :
    (many a).splits cs = ((a.splits cs).flatMap fun s =>
      if s.2.length < cs.length then ((many a).splits s.2).map (Split.prepend s.1) else []) ++
      [([], cs)] := by
  rw [splits, rounds]
  rfl

/-- What stands behind a repetition is tried after one more round, and then at once. -/
theorem splits_seq_many (a b : Pattern) (cs : List Char) :
    (seq (many a) b).splits cs = ((a.splits cs).flatMap fun s =>
      if s.2.length < cs.length then ((seq (many a) b).splits s.2).map (Split.prepend s.1) else []) ++
      b.splits cs := by
  have hnil : Split.prepend [] = id := rfl
  have happend (t u : List Char) : Split.prepend t ∘ Split.prepend u = Split.prepend (t ++ u) := by
    funext s
    simp [Split.prepend]
  rw [splits, splits_many, List.flatMap_append, List.flatMap_assoc]
  congr 1
  · congr 1
    funext s
    split
    · simp only [splits, List.flatMap_map, List.map_flatMap, List.map_map, happend]
      rfl
    · rfl
  · simp [hnil]

/-- A round that goes one way only. -/
theorem splits_seq_many_of_single {a b : Pattern} {cs t r : List Char} (h : a.splits cs = [(t, r)])
    (hlt : r.length < cs.length) : (seq (many a) b).splits cs =
      ((seq (many a) b).splits r).map (Split.prepend t) ++ b.splits cs := by
  rw [splits_seq_many, h, List.flatMap_cons, List.flatMap_nil, List.append_nil, if_pos hlt]

theorem splits_seq_many_of_nil {a b : Pattern} {cs : List Char} (h : a.splits cs = []) :
    (seq (many a) b).splits cs = b.splits cs := by
  rw [splits_seq_many, h, List.flatMap_nil, List.nil_append]

/-- A round that matches something gets on in the text. -/
theorem mem_splits_many_of_round {a : Pattern} {cs t u v r : List Char} (ht : (t, v) ∈ a.splits cs)
    (happend : t ++ v = cs) (hne : t ≠ []) (hu : (u, r) ∈ (many a).splits v) :
    (t ++ u, r) ∈ (many a).splits cs := by
  have hlt : v.length < cs.length := by
    have := List.length_pos_iff.mpr hne
    simp only [← happend, List.length_append]
    omega
  rw [splits_many]
  apply List.mem_append_left
  refine List.mem_flatMap.mpr ⟨(t, v), ht, ?_⟩
  rw [if_pos hlt]
  exact List.mem_map.mpr ⟨(u, r), hu, rfl⟩

theorem matches_of_mem_splits_many {a : Pattern}
    (ha : ∀ cs t r, (t, r) ∈ a.splits cs → a.Matches t ∧ t ++ r = cs) (cs t r : List Char)
    (h : (t, r) ∈ (many a).splits cs) : (many a).Matches t ∧ t ++ r = cs := by
  induction hn : cs.length using Nat.strongRecOn generalizing cs t r with
  | _ n ih =>
      rw [splits_many, List.mem_append, List.mem_flatMap] at h
      rcases h with ⟨⟨u, v⟩, hround, hrest⟩ | hstop
      · obtain ⟨hu, happend⟩ := ha cs u v hround
        split at hrest
        next hlt =>
          obtain ⟨⟨w, r'⟩, hw, heq⟩ := List.mem_map.mp hrest
          cases heq
          obtain ⟨hmatches, rfl⟩ := ih v.length (hn ▸ hlt) v w r' hw rfl
          exact ⟨.again hu hmatches, by simp [← happend]⟩
        next => cases hrest
      · cases List.mem_singleton.mp hstop
        exact ⟨.stop, rfl⟩

theorem mem_splits_many_of_matches {a : Pattern}
    (ha : ∀ t r, a.Matches t → (t, r) ∈ a.splits (t ++ r)) {t : List Char}
    (h : (many a).Matches t) (r : List Char) : (t, r) ∈ (many a).splits (t ++ r) := by
  generalize hp : Pattern.many a = p at h
  induction h with
  | stop =>
      cases hp
      rw [splits_many]
      simp
  | @again _ t u ht _ _ ih =>
      cases hp
      by_cases hne : t = []
      · simpa [hne] using ih rfl
      · have hround := ha t (u ++ r) ht
        rw [← List.append_assoc] at hround
        exact mem_splits_many_of_round hround (by simp) hne (ih rfl)
  | _ => cases hp

/-- The ways to match the head of a text are its splits behind a text that matches. -/
theorem mem_splits_iff {p : Pattern} {cs t r : List Char} :
    (t, r) ∈ p.splits cs ↔ p.Matches t ∧ t ++ r = cs := by
  induction p generalizing cs t r with
  | empty =>
      simp only [splits, List.mem_singleton, Prod.mk.injEq, matches_empty_iff]
      grind
  | one accepts =>
      cases cs with
      | nil =>
          simp only [splits, List.not_mem_nil, matches_one_iff]
          grind
      | cons c cs =>
          by_cases hc : accepts c
          · simp only [splits, if_pos hc, List.mem_singleton, Prod.mk.injEq, matches_one_iff]
            grind
          · simp only [splits, if_neg hc, List.not_mem_nil, matches_one_iff]
            grind
  | seq a b iha ihb =>
      simp only [splits, List.mem_flatMap, List.mem_map, Prod.exists, Split.prepend,
        Prod.mk.injEq, matches_seq_iff, iha, ihb]
      constructor
      · rintro ⟨u, v, ⟨hu, rfl⟩, w, r', ⟨hw, rfl⟩, rfl, rfl⟩
        exact ⟨⟨u, w, hu, hw, rfl⟩, by simp⟩
      · rintro ⟨⟨u, w, hu, hw, rfl⟩, rfl⟩
        exact ⟨u, w ++ r, ⟨hu, by simp⟩, w, r, ⟨hw, rfl⟩, rfl, rfl⟩
  | alt a b iha ihb =>
      simp only [splits, List.mem_append, matches_alt_iff, iha, ihb, or_and_right]
  | many a ih =>
      constructor
      · apply matches_of_mem_splits_many
        intro cs t r h
        exact ih.mp h
      · rintro ⟨h, rfl⟩
        apply mem_splits_many_of_matches _ h
        intro t r ht
        exact ih.mpr ⟨ht, rfl⟩

/-- There is a way to match the head of a text exactly if some text in front matches. -/
theorem first?_eq_none_iff {p : Pattern} {cs : List Char} :
    p.first? cs = none ↔ ∀ t, t <+: cs → ¬p.Matches t := by
  rw [first?, List.head?_eq_none_iff, List.eq_nil_iff_forall_not_mem]
  constructor
  · rintro h t ⟨r, rfl⟩ ht
    exact h (t, r) (mem_splits_iff.mpr ⟨ht, rfl⟩)
  · rintro h ⟨t, r⟩ hmem
    obtain ⟨ht, rfl⟩ := mem_splits_iff.mp hmem
    exact h t (List.prefix_append t r) ht

theorem matches_of_first? {p : Pattern} {cs t r : List Char} (h : p.first? cs = some (t, r)) :
    p.Matches t ∧ t ++ r = cs :=
  mem_splits_iff.mp (List.mem_of_head? h)

/-! ## The way that is taken -/

@[simp] theorem first?_empty (cs : List Char) : empty.first? cs = some ([], cs) :=
  rfl

theorem first?_alt (a b : Pattern) (cs : List Char) :
    (alt a b).first? cs = (a.first? cs).or (b.first? cs) := by
  simp only [first?, splits, List.head?_append]

theorem first?_seq (a b : Pattern) (cs : List Char) :
    (seq a b).first? cs =
      (a.splits cs).findSome? fun s => (b.first? s.2).map (Split.prepend s.1) := by
  simp only [first?, splits, List.head?_flatMap, List.head?_map]

/-- The second part is matched behind the way that the first part takes, unless it fails there. -/
theorem first?_seq_of_first? {a b : Pattern} {cs : List Char} {s t : Split}
    (ha : a.first? cs = some s) (hb : b.first? s.2 = some t) :
    (seq a b).first? cs = some (t.prepend s.1) := by
  obtain ⟨rest, hsplits⟩ := List.head?_eq_some_iff.mp ha
  rw [first?_seq, hsplits]
  simp [hb]

theorem first?_seq_of_none {a b : Pattern} {cs : List Char} (ha : a.first? cs = none) :
    (seq a b).first? cs = none := by
  have hsplits : a.splits cs = [] := List.head?_eq_none_iff.mp ha
  rw [first?_seq, hsplits]
  rfl

/-- Behind a single character there is nothing to come back to. -/
@[simp] theorem first?_seq_one_cons (accepts : Char → Bool) (b : Pattern) (c : Char)
    (cs : List Char) : (seq (one accepts) b).first? (c :: cs) =
      if accepts c then (b.first? cs).map (Split.prepend [c]) else none := by
  by_cases hc : accepts c <;> simp [first?, hc]

@[simp] theorem first?_seq_one_nil (accepts : Char → Bool) (b : Pattern) :
    (seq (one accepts) b).first? [] = none :=
  rfl

/-! ## Common patterns -/

def char (c : Char) : Pattern :=
  .one (· == c)

/-- The pattern, or else nothing. -/
def opt (a : Pattern) : Pattern :=
  .alt a .empty

/-- The pattern at least once. -/
def plus (a : Pattern) : Pattern :=
  .seq a (.many a)

/-- Exactly the given characters. -/
def literal : List Char → Pattern
  | [] => .empty
  | c :: cs => .seq (char c) (literal cs)

@[simp] theorem matches_char_iff {c : Char} {t : List Char} : (char c).Matches t ↔ t = [c] := by
  simp [char]

@[simp] theorem matches_opt_iff {a : Pattern} {t : List Char} :
    (opt a).Matches t ↔ a.Matches t ∨ t = [] := by
  simp [opt]

@[simp] theorem matches_plus_one_iff {accepts : Char → Bool} {t : List Char} :
    (plus (one accepts)).Matches t ↔ t ≠ [] ∧ ∀ c ∈ t, accepts c := by
  cases t with
  | nil => simp [plus]
  | cons c t => simp [plus]

theorem first?_opt (a : Pattern) (cs : List Char) :
    (opt a).first? cs = some ((a.first? cs).getD ([], cs)) := by
  rw [opt, first?_alt, first?_empty]
  cases a.first? cs <;> rfl

/-- A repeated character class takes all of its characters that it can get. -/
@[simp] theorem first?_many_one (accepts : Char → Bool) (cs : List Char) :
    (many (one accepts)).first? cs = some (cs.takeWhile accepts, cs.dropWhile accepts) := by
  induction cs with
  | nil =>
      rw [first?, splits_many]
      rfl
  | cons c cs ih =>
      rw [first?, splits_many, splits]
      by_cases hc : accepts c
      · obtain ⟨rest, hrest⟩ := List.head?_eq_some_iff.mp ih
        simp [hc, hrest, Split.prepend]
      · simp [hc]

@[simp] theorem first?_plus_one (accepts : Char → Bool) (cs : List Char) :
    (plus (one accepts)).first? cs =
      if cs.takeWhile accepts = [] then none
      else some (cs.takeWhile accepts, cs.dropWhile accepts) := by
  cases cs with
  | nil => simp [plus]
  | cons c cs => by_cases hc : accepts c <;> simp [plus, hc, Split.prepend]

@[simp] theorem first?_literal (text cs : List Char) :
    (literal text).first? cs =
      if text.isPrefixOf cs then some (text, cs.drop text.length) else none := by
  induction text generalizing cs with
  | nil => simp [literal]
  | cons c text ih =>
      cases cs with
      | nil => simp [literal, char]
      | cons d cs =>
          by_cases hc : d = c
          · subst hc
            simp only [literal, char, first?_seq_one_cons, ih]
            by_cases h : text.isPrefixOf cs <;> simp [h, Split.prepend]
          · have hne : c ≠ d := Ne.symm hc
            simp [literal, char, hc, hne]

@[simp] theorem matches_literal_iff {text t : List Char} : (literal text).Matches t ↔ t = text := by
  induction text generalizing t with
  | nil => simp [literal]
  | cons c text ih => cases t <;> simp [literal, char, ih]

end Pattern

end FormulaUpgrade
