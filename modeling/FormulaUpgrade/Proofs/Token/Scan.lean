import FormulaUpgrade.Proofs.Token.Classes

/-! # Scanning loses nothing

The tokens of a text and the ignored characters between them make up the text, as far as it is read.
Reading stops only in front of a character that no token starts with.
-/

namespace FormulaUpgrade.Lexer

open Token Lexeme

/-- How far a text is read: to its fault, or else to its end. -/
def Scan.reach (scan : Scan) (cs : List Char) : Nat :=
  match scan.fault with
  | none => cs.length
  | some fault => fault.index

/-- What a scan of the characters of a text from an index on has found. -/
structure Scan.Covers (scan : Scan) (cs : List Char) (pos : Nat) : Prop where
  reached : pos ≤ scan.reach cs ∧ scan.reach cs ≤ cs.length
  bounds : ∀ t ∈ scan.tokens, pos ≤ t.start ∧ t.start < t.stop ∧ t.stop ≤ scan.reach cs
  ordered : scan.tokens.Pairwise fun t u => t.stop ≤ u.start
  value : ∀ t ∈ scan.tokens, t.text.toList = cs.extract t.start t.stop
  /-- A character that is read and is in no token is ignored. -/
  gaps : ∀ i, pos ≤ i → i < scan.reach cs →
    (∃ t ∈ scan.tokens, t.start ≤ i ∧ i < t.stop) ∨ ∃ c, cs[i]? = some c ∧ isIgnored c
  classified : ∀ t ∈ scan.tokens,
    Classified (cs.drop t.start) t.kind t.text.toList (cs.drop t.stop)
  /-- No token starts at a fault. -/
  fault : ∀ f ∈ scan.fault, cs[f.index]? = some f.char ∧ ¬isIgnored f.char ∧
    ∀ entry ∈ tokenPatterns, ∀ text, text <+: cs.drop f.index → ¬entry.2.Matches text

namespace Scan.Covers

variable {cs : List Char} {scan : Scan} {pos : Nat}

theorem finished : Covers ⟨[], none⟩ cs cs.length := by
  refine ⟨by simp [Scan.reach], by simp, .nil, by simp, ?_, by simp, by simp⟩
  intro i hpos hreach
  simp only [Scan.reach] at hreach
  omega

theorem stuck {c : Char} {rest : List Char} (hcs : cs.drop pos = c :: rest) (hc : ¬isIgnored c)
    (hnone : lexeme? (c :: rest) = none) : Covers ⟨[], some ⟨c, pos⟩⟩ cs pos := by
  have hlength := congrArg List.length hcs
  simp only [List.length_drop, List.length_cons] at hlength
  refine ⟨by simp only [Scan.reach]; omega, by simp, .nil, by simp, ?_, by simp, ?_⟩
  · intro i hpos hreach
    simp only [Scan.reach] at hreach
    omega
  · intro f hf
    cases hf
    refine ⟨by simpa using congrArg List.head? hcs, hc, ?_⟩
    rw [hcs]
    exact lexeme?_eq_none_iff.mp hnone

theorem skip {c : Char} {rest : List Char} (h : Covers scan cs (pos + 1))
    (hcs : cs.drop pos = c :: rest) (hc : isIgnored c) : Covers scan cs pos := by
  have hreached := h.reached
  refine ⟨by omega, ?_, h.ordered, h.value, ?_, h.classified, h.fault⟩
  · intro t ht
    have := h.bounds t ht
    omega
  · intro i hpos hreach
    by_cases hi : i = pos
    · subst hi
      exact .inr ⟨c, by simpa using congrArg List.head? hcs, hc⟩
    · exact h.gaps i (by omega) hreach

theorem token {kind : Kind} {text rest : List Char} (h : Covers scan cs (pos + text.length))
    (hcs : cs.drop pos = text ++ rest) (htext : lexeme? (text ++ rest) = some (kind, text, rest)) :
    Covers ⟨⟨kind, String.ofList text, pos⟩ :: scan.tokens, scan.fault⟩ cs pos := by
  have hne := List.length_pos_iff.mpr (lexeme?_split htext).2
  have hreached := h.reached
  have hstop : (Token.mk kind (String.ofList text) pos).stop = pos + text.length := by
    simp [Token.stop]
  have hreach : Scan.reach ⟨⟨kind, String.ofList text, pos⟩ :: scan.tokens, scan.fault⟩ cs =
      scan.reach cs := rfl
  refine ⟨by omega, ?_, ?_, ?_, ?_, ?_, h.fault⟩
  · rw [List.forall_mem_cons, hstop]
    refine ⟨by dsimp only; omega, ?_⟩
    intro t ht
    have := h.bounds t ht
    omega
  · refine List.pairwise_cons.mpr ⟨?_, h.ordered⟩
    intro t ht
    have := h.bounds t ht
    omega
  · rw [List.forall_mem_cons, hstop]
    exact ⟨by simp [List.extract, hcs], h.value⟩
  · intro i hpos hi
    by_cases hin : i < pos + text.length
    · exact .inl ⟨_, List.mem_cons_self, hpos, hstop ▸ hin⟩
    · rcases h.gaps i (by omega) hi with ⟨t, ht, hrange⟩ | hignored
      · exact .inl ⟨t, List.mem_cons_of_mem _ ht, hrange⟩
      · exact .inr hignored
  · rw [List.forall_mem_cons, hstop]
    refine ⟨?_, h.classified⟩
    simpa [hcs, ← List.drop_drop] using lexeme?_eq_some_iff.mp htext

end Scan.Covers

theorem covers_scanFrom {pos : Nat} {cs rest : List Char} (hpos : pos ≤ cs.length)
    (hrest : cs.drop pos = rest) : (scanFrom pos rest).Covers cs pos := by
  fun_induction scanFrom pos rest with
  | case1 pos =>
      have hlength := congrArg List.length hrest
      simp only [List.length_drop, List.length_nil] at hlength
      obtain rfl : pos = cs.length := by omega
      exact .finished
  | case2 pos c rest hc ih =>
      have hlength := congrArg List.length hrest
      simp only [List.length_drop, List.length_cons] at hlength
      have hnext : cs.drop (pos + 1) = rest := by
        rw [← List.drop_drop, hrest, List.drop_one, List.tail_cons]
      exact (ih (by omega) hnext).skip hrest hc
  | case3 pos c rest hc hnone => exact .stuck hrest hc hnone
  | case4 pos c rest hc kind text tail hsome scan ih =>
      have hsplit := (lexeme?_split hsome).1
      rw [← hsplit] at hrest hsome
      have hlength := congrArg List.length hrest
      simp only [List.length_drop, List.length_append] at hlength
      have hnext : cs.drop (pos + text.length) = tail := by
        rw [← List.drop_drop, hrest, List.drop_left]
      exact (ih (by omega) hnext).token hrest hsome

/-- The tokens of a text, and the ignored characters between them, cover the text up to its fault or
to its end. -/
theorem scan_covers (s : String) : (scan s).Covers s.toList 0 :=
  covers_scanFrom (Nat.zero_le _) rfl

end FormulaUpgrade.Lexer
