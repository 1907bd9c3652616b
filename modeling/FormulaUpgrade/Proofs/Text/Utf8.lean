import Mathlib.Algebra.Group.Nat.Defs
import FormulaUpgrade.Text.Utf8

/-! # Decoding accepts exactly the encodings

The library's `String.utf8EncodeChar` writes a character as bytes. The decoder reads one byte at a
time, so one lemma says what a pending character still waits for, and one which first bytes announce
which characters.
-/

namespace FormulaUpgrade.Text.Utf8

open String (utf8EncodeChar)

/-! ## The bytes behind the first -/

/-- The last bytes of a character of several bytes, six bits in each. -/
def lastBytes (v : Nat) : Nat → List UInt8
  | 0 => []
  | n + 1 => UInt8.ofNat (v / 64 ^ n % 64 + 0x80) :: lastBytes v n

@[simp] theorem length_lastBytes (v n : Nat) : (lastBytes v n).length = n := by
  induction n with
  | zero => rfl
  | succ n ih => rw [lastBytes, List.length_cons, ih]

theorem eq_lastByte_iff {b : UInt8} {v n : Nat} :
    b = UInt8.ofNat (v / 64 ^ n % 64 + 0x80) ↔ b.toNat = v / 64 ^ n % 64 + 0x80 := by
  rw [← UInt8.toNat_inj, UInt8.toNat_ofNat']
  omega

/-- Bytes that complete a code whose higher bits are known, and what is decoded behind them. -/
def Completes (pos n high : Nat) (bs : List UInt8) (cs : List Char) : Prop :=
  ∃ v rest cs', v / 64 ^ n = high ∧ bs = lastBytes v n ++ rest ∧ cs = Char.ofNat v :: cs' ∧
    decodeFrom (pos + n) none rest = .ok cs'

theorem completes_zero {pos v : Nat} {bs : List UInt8} {cs : List Char} :
    Completes pos 0 v bs cs ↔ (Char.ofNat v :: ·) <$> decodeFrom pos none bs = .ok cs := by
  cases h : decodeFrom pos none bs <;> simp [Completes, lastBytes, h, Functor.map, Except.map, eq_comm]

theorem not_completes_nil {pos n high : Nat} {cs : List Char} :
    ¬Completes pos (n + 1) high [] cs := by
  simp [Completes, lastBytes]

theorem completes_succ {pos n high : Nat} {b : UInt8} {bs : List UInt8} {cs : List Char} :
    Completes pos (n + 1) high (b :: bs) cs ↔ (0x80 ≤ b.toNat ∧ b.toNat ≤ 0xBF) ∧
      Completes (pos + 1) n (high * 64 + (b.toNat - 0x80)) bs cs := by
  have hdiv (v : Nat) : v / 64 ^ (n + 1) = v / 64 ^ n / 64 := by
    rw [Nat.pow_succ, Nat.div_div_eq_div_mul]
  have hpos : pos + (n + 1) = pos + 1 + n := by omega
  simp only [Completes, lastBytes, List.cons_append, List.cons.injEq, eq_lastByte_iff, hdiv, hpos]
  constructor
  · rintro ⟨v, rest, cs', hhigh, ⟨hb, hbs⟩, hcs⟩
    refine ⟨by omega, v, rest, cs', by omega, hbs, hcs⟩
  · rintro ⟨hb, v, rest, cs', hhigh, hbs, hcs⟩
    refine ⟨v, rest, cs', by omega, ⟨by omega, hbs⟩, hcs⟩

theorem Completes.head_range {pos n high : Nat} {bs : List UInt8} {cs : List Char}
    (h : Completes pos (n + 1) high bs cs) : ∀ b ∈ bs.head?, 0x80 ≤ b.toNat ∧ b.toNat ≤ 0xBF := by
  cases bs with
  | nil => simp
  | cons b bs => simpa using (completes_succ.mp h).1

/-- What a pending character waits for: bytes that complete its code, the next one in the allowed
range. -/
theorem decodeFrom_pending_iff {p : Pending} {n : Nat} (howed : p.owed = n + 1)
    (hlow : 0x80 ≤ p.low) (hhigh : p.high ≤ 0xBF) (pos : Nat) (bs : List UInt8) (cs : List Char) :
    decodeFrom pos (some p) bs = .ok cs ↔ (∀ b ∈ bs.head?, p.low ≤ b.toNat ∧ b.toNat ≤ p.high) ∧
      Completes pos (n + 1) p.value bs cs := by
  induction n generalizing p pos bs with
  | zero =>
      cases bs with
      | nil => simp [decodeFrom, not_completes_nil]
      | cons b bs =>
          rw [decodeFrom, completes_succ, completes_zero]
          by_cases hb : p.low ≤ b.toNat ∧ b.toNat ≤ p.high
          · have hrange : 0x80 ≤ b.toNat ∧ b.toNat ≤ 0xBF := by omega
            simp [hb, howed, hrange]
          · simp [hb]
  | succ n ih =>
      cases bs with
      | nil => simp [decodeFrom, not_completes_nil]
      | cons b bs =>
          rw [decodeFrom, completes_succ]
          by_cases hb : p.low ≤ b.toNat ∧ b.toNat ≤ p.high
          · have hrange : 0x80 ≤ b.toNat ∧ b.toNat ≤ 0xBF := by omega
            have howed' : ¬p.owed ≤ 1 := by omega
            rw [if_pos hb]
            simp only [howed', if_false]
            rw [ih (by simp [howed]) (by simp) (by simp)]
            simpa [hb, hrange] using Completes.head_range
          · simp [hb]

/-! ## The first byte -/

/-- A byte opens the encoding of a code that has `n` bytes behind it. -/
def Opens (b v n : Nat) : Prop :=
  v.isValidChar ∧
    (n = 1 ∧ 0x80 ≤ v ∧ v < 0x800 ∧ b = v / 64 + 0xC0 ∨
      n = 2 ∧ 0x800 ≤ v ∧ v < 0x10000 ∧ b = v / 64 ^ 2 + 0xE0 ∨
      n = 3 ∧ 0x10000 ≤ v ∧ b = v / 64 ^ 3 + 0xF0)

theorem Opens.ge {b v n : Nat} (h : Opens b v n) : 0x80 ≤ b := by
  unfold Opens at h
  omega

theorem toNat_ofNat {v : Nat} (h : v.isValidChar) : (Char.ofNat v).toNat = v := by
  rw [Char.ofNat, dif_pos h]
  rfl

/-- What the first bytes announce. Only those at the ends of a kind restrict the second byte, and the
one that would lead to surrogates. -/
theorem lead_eq_more_iff {b n low high value : Nat} : lead b = .more n low high value ↔
    n = 1 ∧ 0xC2 ≤ b ∧ b < 0xE0 ∧ low = 0x80 ∧ high = 0xBF ∧ b = value + 0xC0 ∨
    n = 2 ∧ 0xE0 ≤ b ∧ b < 0xF0 ∧ low = (if b = 0xE0 then 0xA0 else 0x80) ∧
      high = (if b = 0xED then 0x9F else 0xBF) ∧ b = value + 0xE0 ∨
    n = 3 ∧ 0xF0 ≤ b ∧ b < 0xF5 ∧ low = (if b = 0xF0 then 0x90 else 0x80) ∧
      high = (if b = 0xF4 then 0x8F else 0xBF) ∧ b = value + 0xF0 := by
  unfold lead
  by_cases hb : b < 0xF0
  · grind
  · grind

theorem lead_eq_whole_iff {b : Nat} : lead b = .whole ↔ b < 0x80 := by
  unfold lead
  grind

theorem lead_bounds {b n low high value : Nat} (h : lead b = .more n low high value) :
    n ≠ 0 ∧ 0x80 ≤ low ∧ high ≤ 0xBF := by
  have := lead_eq_more_iff.mp h
  grind

theorem opens_of_lead {b v n low high : Nat} (h : lead b = .more (n + 1) low high (v / 64 ^ (n + 1)))
    (hlow : low ≤ v / 64 ^ n % 64 + 0x80) (hhigh : v / 64 ^ n % 64 + 0x80 ≤ high) :
    Opens b v (n + 1) := by
  unfold Opens Nat.isValidChar
  obtain ⟨hn, h⟩ | ⟨hn, h⟩ | ⟨hn, h⟩ := lead_eq_more_iff.mp h
  · obtain rfl : n = 0 := by omega
    omega
  · obtain rfl : n = 1 := by omega
    grind
  · obtain rfl : n = 2 := by omega
    grind

theorem lead_of_opens {b v n : Nat} (h : Opens b v (n + 1)) :
    ∃ low high, lead b = .more (n + 1) low high (v / 64 ^ (n + 1)) ∧
      low ≤ v / 64 ^ n % 64 + 0x80 ∧ v / 64 ^ n % 64 + 0x80 ≤ high := by
  simp only [lead_eq_more_iff]
  unfold Opens Nat.isValidChar at h
  obtain ⟨hv, ⟨hn, h⟩ | ⟨hn, h⟩ | ⟨hn, h⟩⟩ := h
  · obtain rfl : n = 0 := by omega
    refine ⟨0x80, 0xBF, .inl ⟨rfl, ?_⟩, ?_⟩ <;> omega
  · obtain rfl : n = 1 := by omega
    refine ⟨if b = 0xE0 then 0xA0 else 0x80, if b = 0xED then 0x9F else 0xBF, by grind, ?_, ?_⟩
    · split <;> omega
    · split <;> omega
  · obtain rfl : n = 2 := by omega
    refine ⟨if b = 0xF0 then 0x90 else 0x80, if b = 0xF4 then 0x8F else 0xBF, by grind, ?_, ?_⟩
    · split <;> omega
    · split <;> omega

theorem lt_of_isValidChar {v : Nat} (h : v.isValidChar) : v < 0x110000 := by
  unfold Nat.isValidChar at h
  omega

theorem utf8EncodeChar_of_lt {c : Char} (h : c.toNat < 0x80) :
    utf8EncodeChar c = [UInt8.ofNat c.toNat] :=
  if_pos (Nat.le_of_lt_succ h)

theorem utf8EncodeChar_of_opens {c : Char} {b : UInt8} {n : Nat} (h : Opens b.toNat c.toNat n) :
    utf8EncodeChar c = b :: lastBytes c.toNat n := by
  have hval : c.val.toNat = c.toNat := rfl
  have hlt := lt_of_isValidChar h.1
  rw [← UInt8.ofNat_toNat (x := b), utf8EncodeChar]
  simp only [hval]
  obtain ⟨-, ⟨rfl, hlow, hhigh, hb⟩ | ⟨rfl, hlow, hhigh, hb⟩ | ⟨rfl, hlow, hb⟩⟩ := h
  · rw [if_neg (by omega), if_pos (by omega), hb, Nat.mod_eq_of_lt (by omega : c.toNat / 64 < 32)]
    simp [lastBytes]
  · rw [if_neg (by omega), if_neg (by omega), if_pos (by omega), hb,
      Nat.mod_eq_of_lt (by omega : c.toNat / 4096 < 16)]
    simp [lastBytes]
  · rw [if_neg (by omega), if_neg (by omega), if_neg (by omega), hb,
      Nat.mod_eq_of_lt (by omega : c.toNat / 262144 < 8)]
    simp [lastBytes]

/-- A character is written as one byte, or as a byte that opens its code. -/
theorem exists_opens {c : Char} (h : 0x80 ≤ c.toNat) :
    ∃ (b : UInt8) (n : Nat), Opens b.toNat c.toNat (n + 1) := by
  have hvalid : c.toNat.isValidChar := c.valid
  have hlt := lt_of_isValidChar hvalid
  by_cases htwo : c.toNat < 0x800
  · refine ⟨UInt8.ofNat (c.toNat / 64 + 0xC0), 0, hvalid, .inl ⟨rfl, h, htwo, ?_⟩⟩
    rw [UInt8.toNat_ofNat']
    omega
  · by_cases hthree : c.toNat < 0x10000
    · refine ⟨UInt8.ofNat (c.toNat / 64 ^ 2 + 0xE0), 1, hvalid, .inr (.inl ⟨rfl, ?_, hthree, ?_⟩)⟩
      · omega
      · rw [UInt8.toNat_ofNat']
        omega
    · refine ⟨UInt8.ofNat (c.toNat / 64 ^ 3 + 0xF0), 2, hvalid, .inr (.inr ⟨rfl, ?_, ?_⟩)⟩
      · omega
      · rw [UInt8.toNat_ofNat']
        omega

/-! ## Whole texts -/

theorem head_lastBytes {v n low high : Nat} {rest : List UInt8} :
    (∀ b ∈ (lastBytes v (n + 1) ++ rest).head?, low ≤ b.toNat ∧ b.toNat ≤ high) ↔
      low ≤ v / 64 ^ n % 64 + 0x80 ∧ v / 64 ^ n % 64 + 0x80 ≤ high := by
  simp [lastBytes, Nat.mod_eq_of_lt (by omega : v / 64 ^ n % 64 + 0x80 < 256)]

/-- A byte that is a whole character. -/
theorem decodeFrom_of_lt {b : UInt8} (h : b.toNat < 0x80) (pos : Nat) (bs : List UInt8) :
    decodeFrom pos none (b :: bs) =
      (Char.ofNat b.toNat :: ·) <$> decodeFrom (pos + 1) none bs := by
  rw [decodeFrom, lead_eq_whole_iff.mpr h]

/-- Any other byte is accepted if it opens a code that the bytes behind it complete. -/
theorem decodeFrom_of_ge {b : UInt8} (h : ¬b.toNat < 0x80) {pos : Nat} {bs : List UInt8}
    {cs : List Char} : decodeFrom pos none (b :: bs) = .ok cs ↔
      ∃ v n rest cs', Opens b.toNat v (n + 1) ∧ bs = lastBytes v (n + 1) ++ rest ∧
        cs = Char.ofNat v :: cs' ∧ decodeFrom (pos + 1 + (n + 1)) none rest = .ok cs' := by
  rw [decodeFrom]
  constructor
  · intro hok
    cases hlead : lead b.toNat with
    | whole => exact absurd (lead_eq_whole_iff.mp hlead) h
    | invalid => simp [hlead] at hok
    | more owed low high value =>
        simp only [hlead] at hok
        obtain ⟨howed, hlow, hhigh⟩ := lead_bounds hlead
        obtain ⟨n, rfl⟩ := Nat.exists_eq_succ_of_ne_zero howed
        rw [decodeFrom_pending_iff rfl hlow hhigh] at hok
        obtain ⟨hrange, v, rest, cs', rfl, rfl, hcs, hrest⟩ := hok
        rw [head_lastBytes] at hrange
        exact ⟨v, n, rest, cs', opens_of_lead hlead hrange.1 hrange.2, rfl, hcs, hrest⟩
  · rintro ⟨v, n, rest, cs', hopens, rfl, hcs, hrest⟩
    obtain ⟨low, high, hlead, hrange⟩ := lead_of_opens hopens
    obtain ⟨-, hlow, hhigh⟩ := lead_bounds hlead
    simp only [hlead]
    rw [decodeFrom_pending_iff rfl hlow hhigh, head_lastBytes]
    exact ⟨hrange, v, rest, cs', rfl, rfl, hcs, hrest⟩

theorem decodeFrom_ok_nil_iff {pos : Nat} {bs : List UInt8} :
    decodeFrom pos none bs = .ok [] ↔ bs = [] := by
  cases bs with
  | nil => simp [decodeFrom]
  | cons b bs =>
      by_cases hb : b.toNat < 0x80
      · rw [decodeFrom_of_lt hb]
        cases h : decodeFrom (pos + 1) none bs <;> simp [Functor.map, Except.map]
      · simp [decodeFrom_of_ge hb]

/-- Decoding reads the first character off its encoding. -/
theorem decodeFrom_ok_cons_iff {pos : Nat} {bs : List UInt8} {c : Char} {cs : List Char} :
    decodeFrom pos none bs = .ok (c :: cs) ↔ ∃ rest, bs = utf8EncodeChar c ++ rest ∧
      decodeFrom (pos + (utf8EncodeChar c).length) none rest = .ok cs := by
  constructor
  · intro h
    cases bs with
    | nil => simp [decodeFrom] at h
    | cons b bs =>
        by_cases hb : b.toNat < 0x80
        · rw [decodeFrom_of_lt hb, ← completes_zero] at h
          obtain ⟨v, rest, cs', hv, hbs, hcs, hrest⟩ := h
          obtain ⟨rfl, rfl⟩ := List.cons.inj hcs
          obtain rfl : v = b.toNat := by simpa using hv
          have hencode : utf8EncodeChar (Char.ofNat b.toNat) = [b] := by
            have hcode : (Char.ofNat b.toNat).toNat = b.toNat := toNat_ofNat (.inl (by omega))
            rw [utf8EncodeChar_of_lt (by omega), hcode, UInt8.ofNat_toNat]
          exact ⟨rest, by rw [hbs, hencode]; rfl, by rwa [hencode]⟩
        · obtain ⟨v, n, rest, cs', hopens, rfl, hcs, hrest⟩ := (decodeFrom_of_ge hb).mp h
          obtain ⟨rfl, rfl⟩ := List.cons.inj hcs
          have hcode : (Char.ofNat v).toNat = v := toNat_ofNat hopens.1
          have hencode := utf8EncodeChar_of_opens (hcode ▸ hopens)
          rw [hcode] at hencode
          refine ⟨rest, by rw [hencode]; rfl, ?_⟩
          rwa [hencode, List.length_cons, length_lastBytes, Nat.add_comm (n + 1), ← Nat.add_assoc]
  · rintro ⟨rest, rfl, h⟩
    by_cases hc : c.toNat < 0x80
    · have hcode : (UInt8.ofNat c.toNat).toNat = c.toNat := by
        rw [UInt8.toNat_ofNat']
        omega
      rw [utf8EncodeChar_of_lt hc] at h ⊢
      rw [List.singleton_append, decodeFrom_of_lt (by omega), hcode, Char.ofNat_toNat]
      exact congrArg ((c :: ·) <$> ·) h
    · obtain ⟨b, n, hopens⟩ := exists_opens (Nat.le_of_not_lt hc)
      rw [utf8EncodeChar_of_opens hopens] at h ⊢
      rw [List.cons_append, decodeFrom_of_ge (Nat.not_lt.mpr hopens.ge)]
      refine ⟨c.toNat, n, rest, cs, hopens, rfl, by rw [Char.ofNat_toNat], ?_⟩
      rwa [List.length_cons, length_lastBytes, Nat.add_comm (n + 1), ← Nat.add_assoc] at h

/-- Bytes are decoded to a text exactly if they are its encoding. -/
theorem decode_eq_ok_iff {bytes : List UInt8} {cs : List Char} :
    decode bytes = .ok cs ↔ bytes = cs.flatMap utf8EncodeChar := by
  suffices h : ∀ pos, decodeFrom pos none bytes = .ok cs ↔ bytes = cs.flatMap utf8EncodeChar from
    h 0
  induction cs generalizing bytes with
  | nil => simp [decodeFrom_ok_nil_iff]
  | cons c cs ih => simp [decodeFrom_ok_cons_iff, ih]

theorem isValidUTF8_iff {bytes : List UInt8} :
    bytes.toByteArray.IsValidUTF8 ↔ ∃ cs, decode bytes = .ok cs := by
  simp only [decode_eq_ok_iff]
  constructor
  · rintro ⟨cs, h⟩
    exact ⟨cs, List.toByteArray_inj.mp h⟩
  · rintro ⟨cs, h⟩
    exact ⟨cs, congrArg List.toByteArray h⟩

end FormulaUpgrade.Text.Utf8
