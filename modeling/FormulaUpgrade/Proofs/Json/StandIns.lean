import FormulaUpgrade.Proofs.StringLiteral.Value

/-! # Stand-ins tell surrogates apart

A text holds surrogates by stand-ins from a block that nothing read mentions. Whatever a string stands
for is mentioned by the text that it is read from, so its code points can be read off the text again.
-/

namespace FormulaUpgrade

theorem Text.hexValue?_lt {c : Char} {n : Nat} (h : hexValue? c = some n) : n < 16 := by
  revert h
  fun_cases hexValue? c with
  | case1 hc =>
      have hle : c.toNat ≤ 0x39 := hc.2
      rintro ⟨⟩
      omega
  | case2 _ hc =>
      have hle : c.toNat ≤ 0x66 := hc.2
      rintro ⟨⟩
      omega
  | case3 _ _ hc =>
      have hle : c.toNat ≤ 0x46 := hc.2
      rintro ⟨⟩
      omega
  | case4 => exact nofun

/-! ## Blocks -/

namespace Text.Block

variable {block : Block}

theorem avoids_iff {first last : Nat} :
    block.avoids (first, last) ↔ last < block.start ∨ block.start + 0x800 ≤ first := by
  simp [avoids]

theorem avoids_of_isSurrogate {n : Nat} (h : Json.isSurrogate n) : block.avoids (n, n) := by
  have hvalid := block.valid
  simp [Json.isSurrogate, Json.isHighSurrogate, Json.isLowSurrogate] at h
  rw [avoids_iff]
  omega

theorem isFree_cons {c : Char} {cs : List Char} (h : block.isFree (c :: cs)) :
    block.avoids (c.toNat, c.toNat) ∧
      (∀ unit, Json.leadingUnit? (c :: cs) = some unit → block.avoids (Json.unitRange unit)) ∧
      block.isFree cs := by
  rw [isFree, Bool.and_eq_true, Bool.and_eq_true] at h
  refine ⟨h.1.1, fun unit hunit => ?_, h.2⟩
  simpa [hunit] using h.1.2

theorem isFree_of_isSuffix {text cs : List Char} (hfree : block.isFree text) (h : cs <:+ text) :
    block.isFree cs := by
  induction text with
  | nil =>
      obtain rfl := List.suffix_nil.mp h
      exact hfree
  | cons c text ih =>
      obtain rfl | h := List.suffix_cons_iff.mp h
      · exact hfree
      · exact ih (isFree_cons hfree).2.2 h

/-- Candidates hold no ASCII characters. -/
theorem start_of_mem_candidates (h : block ∈ candidates) : 0x80 ≤ block.start := by
  have hall : ∀ block ∈ candidates, 0x80 ≤ block.start := by decide +kernel
  exact hall block h

/-- Unless a text mentions all candidates, it does not mention the one that is chosen for it. -/
theorem unmentioned_isFree {text : List Char} (h : ∃ block ∈ candidates, block.isFree text) :
    (unmentioned text).isFree text ∧ 0x80 ≤ (unmentioned text).start := by
  obtain ⟨block, hfind⟩ := Option.isSome_iff_exists.mp (List.find?_isSome.mpr h)
  rw [unmentioned, hfind]
  have hfree : block.isFree text := by simpa using List.find?_some hfind
  exact ⟨hfree, start_of_mem_candidates (List.mem_of_find?_eq_some hfind)⟩

end Text.Block

namespace Json

open Text Block

variable {block : Block}

/-! ## Code units -/

theorem escaped?_lt {c e : Char} (h : escaped? c = some e) : e.toNat < 0x80 := by
  unfold escaped? at h
  split at h <;> cases h <;> decide

theorem exists_of_consUnit_eq_ok {unit : Nat} {read : Except (Problem × Nat) StringUnits}
    {units : List Nat} {rest : Nat × List Char} (h : consUnit unit read = .ok (units, rest)) :
    ∃ more, read = .ok (more, rest) ∧ units = unit :: more := by
  cases read with
  | error e => cases h
  | ok read =>
      obtain ⟨more, _⟩ := read
      cases h
      exact ⟨more, rfl, rfl⟩

theorem codeUnit?_lt {h₁ h₂ h₃ h₄ : Char} {unit : Nat} (h : codeUnit? h₁ h₂ h₃ h₄ = some unit) :
    unit < 0x10000 := by
  unfold codeUnit? at h
  split at h
  next a b c d h₁ h₂ h₃ h₄ =>
    have := Text.hexValue?_lt h₁
    have := Text.hexValue?_lt h₂
    have := Text.hexValue?_lt h₃
    have := Text.hexValue?_lt h₄
    obtain rfl := Option.some.inj h
    omega
  next => cases h

/-- No code point that the code unit may stand for, or be part of, is in the block. -/
def Apart (block : Block) (unit : Nat) : Prop :=
  unit < 0x110000 ∧ block.avoids (unitRange unit)

theorem apart_toNat {c : Char} (h : block.avoids (c.toNat, c.toNat)) : Apart block c.toNat := by
  have hchar : isHighSurrogate c.toNat = false := by
    have := isSurrogate_toNat c
    simp_all [isSurrogate]
  refine ⟨Text.Utf8.lt_of_isValidChar c.valid, ?_⟩
  rwa [unitRange, hchar, if_neg Bool.false_ne_true]

/-- A text mentions every code unit of a string in it. -/
theorem apart_of_stringUnits {strict : Bool} {opening pos : Nat} {cs : List Char}
    {units : List Nat} {rest : Nat × List Char} (hstart : 0x80 ≤ block.start)
    (hfree : block.isFree cs) (h : stringUnits strict opening pos cs = .ok (units, rest)) :
    ∀ unit ∈ units, Apart block unit := by
  fun_induction stringUnits strict opening pos cs generalizing units with
  | case1 | case3 | case4 | case5 | case8 | case9 => cases h
  | case2 pos h₁ h₂ h₃ h₄ cs unit _ hunit ih =>
      obtain ⟨more, hmore, rfl⟩ := exists_of_consUnit_eq_ok h
      have hdigits : block.isFree (h₁ :: h₂ :: h₃ :: h₄ :: cs) :=
        isFree_of_isSuffix hfree ⟨['\\', 'u'], rfl⟩
      have hcs : block.isFree cs := isFree_of_isSuffix hdigits ⟨[h₁, h₂, h₃, h₄], rfl⟩
      have hlt := codeUnit?_lt hunit
      have havoids := (isFree_cons hdigits).2.1 unit hunit
      exact List.forall_mem_cons.mpr ⟨⟨by omega, havoids⟩, ih hcs hmore⟩
  | case6 pos c cs _ _ e he ih =>
      obtain ⟨more, hmore, rfl⟩ := exists_of_consUnit_eq_ok h
      have hcs : block.isFree cs := isFree_of_isSuffix hfree ⟨['\\', c], rfl⟩
      have hlt := escaped?_lt he
      have havoids : block.avoids (e.toNat, e.toNat) := avoids_iff.mpr (.inl (by omega))
      exact List.forall_mem_cons.mpr ⟨apart_toNat havoids, ih hcs hmore⟩
  | case7 =>
      obtain ⟨rfl, -⟩ := Prod.mk.inj (Except.ok.inj h)
      simp
  | case10 pos c cs _ _ _ _ _ ih =>
      obtain ⟨more, hmore, rfl⟩ := exists_of_consUnit_eq_ok h
      obtain ⟨havoids, -, hcs⟩ := isFree_cons hfree
      exact List.forall_mem_cons.mpr ⟨apart_toNat havoids, ih hcs hmore⟩

/-! ## Code points -/

theorem Apart.avoids {unit : Nat} (h : Apart block unit) : block.avoids (unit, unit) := by
  by_cases hhigh : isHighSurrogate unit
  · exact avoids_of_isSurrogate (by simp [isSurrogate, hhigh])
  · have hrange := h.2
    rwa [unitRange, if_neg hhigh] at hrange

theorem Apart.joinSurrogates {high low : Nat} (h : Apart block high)
    (hpair : isHighSurrogate high && isLowSurrogate low) :
    joinSurrogates high low < 0x110000 ∧
      block.avoids (joinSurrogates high low, joinSurrogates high low) := by
  have hrange := h.2
  simp only [Bool.and_eq_true] at hpair
  rw [unitRange, if_pos hpair.1, avoids_iff] at hrange
  simp only [isHighSurrogate, isLowSurrogate, Bool.and_eq_true, decide_eq_true_eq] at hpair
  rw [avoids_iff]
  unfold Json.joinSurrogates at *
  omega

theorem apart_pointsOfUnits {units : List Nat} (h : ∀ unit ∈ units, Apart block unit) :
    ∀ point ∈ pointsOfUnits units, point < 0x110000 ∧ block.avoids (point, point) := by
  fun_induction pointsOfUnits units with
  | case1 => simp
  | case2 unit => simpa using ⟨(h unit (by simp)).1, (h unit (by simp)).avoids⟩
  | case3 high low units hpair ih =>
      simp only [List.forall_mem_cons] at h ⊢
      exact ⟨h.1.joinSurrogates hpair, ih h.2.2⟩
  | case4 high low units _ ih =>
      rw [List.forall_mem_cons] at h ⊢
      exact ⟨⟨h.1.1, h.1.avoids⟩, ih h.2⟩

/-- The code points of a string can be read off its text, if stand-ins are chosen that the text around
it does not mention. That is possible unless all candidates are mentioned. -/
theorem points_stringBody (text : List Char)
    (h : ∃ block ∈ candidates, block.isFree text) (nestingLimit jsonNestingLimit : Nat) :
    let _ : Host := ⟨nestingLimit, jsonNestingLimit, .unmentioned text⟩
    ∀ cs, cs <:+ text → ∀ strict opening body rest,
      stringBody strict opening cs = .ok (body, rest) →
        stringPoints strict opening cs = .ok (Text.points body, rest) := by
  intro host cs hcs strict opening body rest hbody
  obtain ⟨hfree, hstart⟩ := unmentioned_isFree h
  rw [stringBody] at hbody
  rw [stringPoints] at hbody ⊢
  cases hunits : stringUnits strict opening (opening + 1) cs with
  | error e => simp [hunits] at hbody
  | ok read =>
      obtain ⟨units, rest⟩ := read
      simp only [hunits, Except.ok.injEq, Prod.mk.injEq] at hbody ⊢
      obtain ⟨rfl, rfl⟩ := hbody
      have hapart := apart_pointsOfUnits
        (apart_of_stringUnits hstart (isFree_of_isSuffix hfree hcs) hunits)
      rw [StringLiteral.points_textOfPoints (fun p hp => (hapart p hp).1)
        fun p hp => (hapart p hp).2]
      exact ⟨rfl, rfl⟩

end Json

end FormulaUpgrade
