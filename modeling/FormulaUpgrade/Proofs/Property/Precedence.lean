import FormulaUpgrade.Proofs.Property.Declarations
import Mathlib.Data.List.Induction

/-! # Which declaration of a name counts

A name that is declared several times keeps its first place and its last value. So a wrong type in a
pair is noticed exactly if no later pair is for the same name, while a pair that cannot be split is
noticed wherever it stands.
-/

namespace FormulaUpgrade

/-! ## Paired lists -/

section

variable {α β : Type} {R : α → β → Prop}

/-- Paired lists are split at the same place. -/
theorem forall₂_split {front back : List α} {bs : List β} {a : α}
    (h : List.Forall₂ R (front ++ a :: back) bs) :
    ∃ front' b back', bs = front' ++ b :: back' ∧ R a b ∧ List.Forall₂ R back back' := by
  induction front generalizing bs with
  | nil =>
      obtain ⟨b, back', hab, hback, rfl⟩ := List.forall₂_cons_left_iff.mp h
      exact ⟨[], b, back', rfl, hab, hback⟩
  | cons first front ih =>
      obtain ⟨b, rest, -, hrest, rfl⟩ := List.forall₂_cons_left_iff.mp h
      obtain ⟨front', b', back', rfl, hb', hback⟩ := ih hrest
      exact ⟨b :: front', b', back', rfl, hb', hback⟩

theorem forall₂_exists_of_mem {as : List α} {bs : List β} {a : α}
    (h : List.Forall₂ R as bs) (ha : a ∈ as) : ∃ b ∈ bs, R a b := by
  obtain ⟨front, back, rfl⟩ := List.append_of_mem ha
  obtain ⟨front', b, back', rfl, hab, -⟩ := forall₂_split h
  exact ⟨b, by simp, hab⟩

end

/-! ## Tables -/

namespace Table

variable {κ α : Type} [DecidableEq κ]

/-- The value of the last entry for a key. -/
def lastValue? (entries : List (κ × α)) (key : κ) : Option α :=
  (entries.reverse.find? fun entry => entry.1 = key).map Prod.snd

theorem lastValue?_append (front back : List (κ × α)) (key : κ) :
    lastValue? (front ++ back) key = (lastValue? back key).or (lastValue? front key) := by
  rw [lastValue?, lastValue?, lastValue?, List.reverse_append, List.find?_append, Option.map_or]

theorem lastValue?_cons (entry : κ × α) (entries : List (κ × α)) (key : κ) :
    lastValue? (entry :: entries) key =
      (lastValue? entries key).or (if entry.1 = key then some entry.2 else none) := by
  rw [← List.singleton_append, lastValue?_append]
  by_cases h : entry.1 = key <;> simp [lastValue?, h]

theorem lastValue?_eq_some_iff {entries : List (κ × α)} {key : κ} {value : α} :
    lastValue? entries key = some value ↔
      ∃ front back, entries = front ++ (key, value) :: back ∧ ∀ entry ∈ back, entry.1 ≠ key := by
  rw [lastValue?, Option.map_eq_some_iff]
  constructor
  · rintro ⟨⟨k, v⟩, hfind, rfl⟩
    obtain ⟨hk, back, front, hentries, hback⟩ := List.find?_eq_some_iff_append.mp hfind
    obtain rfl : k = key := by simpa using hk
    refine ⟨front.reverse, back.reverse, ?_, fun entry hentry => ?_⟩
    · rw [← List.reverse_reverse entries, hentries]
      simp
    · simpa using hback entry (List.mem_reverse.mp hentry)
  · rintro ⟨front, back, rfl, hback⟩
    refine ⟨(key, value), List.find?_eq_some_iff_append.mpr ⟨by simp, ?_⟩, rfl⟩
    refine ⟨back.reverse, front.reverse, by simp, fun entry hentry => ?_⟩
    simpa using hback entry (List.mem_reverse.mp hentry)

/-- Of entries that are written one after the other, the last one for a key stays. -/
theorem get?_ofList (entries : List (κ × α)) (key : κ) :
    (ofList entries).get? key = lastValue? entries key := by
  induction entries with
  | nil => rfl
  | cons entry rest ih =>
      rw [ofList_cons, get?_insertAll, ih, lastValue?_cons, get?_insert, get?_empty]
      simp only [eq_comm]

theorem keys_write (key : κ) (value : α) (entries : List (κ × α)) :
    (write key value entries).map Prod.fst =
      if key ∈ entries.map Prod.fst then entries.map Prod.fst
      else entries.map Prod.fst ++ [key] := by
  induction entries with
  | nil => rfl
  | cons entry rest ih =>
      by_cases h : entry.1 = key
      · simp [write, h]
      · rw [write, if_neg h, List.map_cons, ih]
        by_cases hrest : key ∈ rest.map Prod.fst <;> simp [hrest, Ne.symm h]

theorem eraseDups_concat (keys : List κ) (key : κ) :
    (keys ++ [key]).eraseDups = if key ∈ keys then keys.eraseDups else keys.eraseDups ++ [key] := by
  rw [List.eraseDups_append, List.cons_removeAll]
  by_cases h : key ∈ keys <;> simp [h, List.removeAll, List.eraseDups_cons]

/-- What comes later may have been rid of its repetitions before. -/
theorem eraseDups_append_eraseDups (front back : List κ) :
    (front ++ back.eraseDups).eraseDups = (front ++ back).eraseDups := by
  induction back using List.reverseRecOn with
  | nil => rfl
  | append_singleton back key ih =>
      rw [← List.append_assoc, eraseDups_concat, eraseDups_concat, ← ih]
      by_cases h : key ∈ back
      · simp [h, ih]
      · rw [if_neg h, ← List.append_assoc, eraseDups_concat]
        simp [List.mem_eraseDups]

/-- Every key gets its place when it is written first. -/
theorem keys_insertAll {t : Table κ α} {front : List κ} (h : t.keys = front.eraseDups)
    (entries : List (κ × α)) :
    (t.insertAll entries).keys = (front ++ entries.map Prod.fst).eraseDups := by
  induction entries generalizing t front with
  | nil => simpa [insertAll] using h
  | cons entry rest ih =>
      have hinsert : (t.insert entry.1 entry.2).keys = (front ++ [entry.1]).eraseDups := by
        have hwrite := keys_write entry.1 entry.2 t.entries
        rw [← keys, h] at hwrite
        rw [eraseDups_concat, keys, insert, hwrite]
        simp only [List.mem_eraseDups]
      rw [insertAll_cons, ih hinsert, List.append_assoc]
      rfl

theorem keys_ofList (entries : List (κ × α)) :
    (ofList entries).keys = (entries.map Prod.fst).eraseDups := by
  have hempty : (empty : Table κ α).keys = [].eraseDups := rfl
  rw [ofList, keys_insertAll hempty, List.nil_append]

end Table

namespace Property

/-! ## Declarations -/

theorem Types.keys_of_ofDeclared {entries : List (String × Json.Value)} {types : Types}
    (h : Types.ofDeclared (.ofList entries) = .ok types) :
    types.keys = (entries.map Prod.fst).eraseDups := by
  obtain ⟨t, hdeclared, rfl⟩ := exists_of_ofDeclared h
  have hkeys : t.keys = (entries.map Prod.fst).eraseDups := by
    rw [← Table.keys_ofList, hdeclared, Types.declared, Table.keys, Table.keys, Table.map,
      List.map_map]
    rfl
  rw [Table.keys_ofList, ← Table.keys, hkeys]
  exact Table.eraseDups_append_eraseDups [] _

theorem Declared.valid_ofList_iff {entries : List (String × Json.Value)} :
    Declared.Valid (.ofList entries) ↔ ∀ name value, Table.lastValue? entries name = some value →
      ∃ kind : Kind, value = .string kind.tag := by
  constructor
  · intro h name value hvalue
    rw [← Table.get?_ofList] at hvalue
    exact h (name, value) (Table.mem_of_get? hvalue)
  · rintro h ⟨name, value⟩ hentry
    have hvalue := Table.get?_of_mem hentry
    rw [Table.get?_ofList] at hvalue
    exact h name value hvalue

/-! ## Pairs -/

/-- A pair is cut at its last `=`. -/
def CutsInto (pair name tag : String) : Prop :=
  pair = name ++ "=" ++ tag ∧ '=' ∉ tag.toList

/-- A pair without `=`, or without a name in front of the last one. -/
def Malformed (pair : String) : Prop :=
  '=' ∉ pair.toList ∨ ∃ tag, CutsInto pair "" tag

/-- A pair for a name. -/
def Names (pair name : String) : Prop :=
  ∃ tag, CutsInto pair name tag

/-- A pair for a name with something else than a tag behind the last `=`. -/
def Mistypes (pair name : String) : Prop :=
  ∃ tag, CutsInto pair name tag ∧ Text.trim tag ∉ Kind.tags

theorem cutsInto_iff {pair name tag : String} :
    CutsInto pair name tag ↔ splitPair? pair.toList = some (name.toList, tag.toList) := by
  rw [splitPair?_eq_some_iff, CutsInto, ← String.toList_inj]
  simp

theorem CutsInto.unique {pair name tag name' tag' : String} (h : CutsInto pair name tag)
    (h' : CutsInto pair name' tag') : name = name' ∧ tag = tag' := by
  rw [cutsInto_iff] at h h'
  simpa [String.toList_inj] using h.symm.trans h'

theorem notMem_of_splitPair?_eq_none {cs : List Char} (h : splitPair? cs = none) : '=' ∉ cs := by
  intro hmem
  rw [splitPair?] at h
  cases hrest : cs.reverse.dropWhile (· ≠ '=') with
  | cons c front =>
      rw [hrest] at h
      cases h
  | nil =>
      have hkept := List.takeWhile_append_dropWhile (p := (· ≠ '=')) (l := cs.reverse)
      rw [hrest, List.append_nil] at hkept
      have hne := List.all_eq_true.mp List.all_takeWhile '=' (hkept ▸ List.mem_reverse.mpr hmem)
      simp at hne

theorem spellsEntry_iff {pair : String} {entry : String × Json.Value} :
    SpellsEntry pair entry ↔
      ∃ name tag, CutsInto pair name tag ∧ name ≠ "" ∧ entry = (name, .string (Text.trim tag)) := by
  constructor
  · rintro @⟨name, tag, hname, htag⟩
    refine ⟨String.ofList name, String.ofList tag, ⟨?_, by simpa⟩, by simpa, ?_⟩
    · rw [← String.toList_inj]
      simp
    · rw [Text.trim, String.toList_ofList]
  · rintro ⟨name, tag, hcut, hname, rfl⟩
    rw [← readPair_eq_ok_iff, readPair, cutsInto_iff.mp hcut]
    cases hcs : name.toList with
    | nil => exact absurd (String.toList_eq_nil_iff.mp hcs) hname
    | cons c cs => simp [← hcs, Text.trim]

theorem malformed_iff {pair : String} : Malformed pair ↔ ¬∃ entry, SpellsEntry pair entry := by
  constructor
  · rintro hmalformed ⟨entry, hentry⟩
    obtain ⟨name, tag, hcut, hname, -⟩ := spellsEntry_iff.mp hentry
    obtain hmem | ⟨tag', hcut'⟩ := hmalformed
    · rw [hcut.1] at hmem
      simp at hmem
    · exact hname (hcut.unique hcut').1
  · intro hentry
    cases hsplit : splitPair? pair.toList with
    | none => exact .inl (notMem_of_splitPair?_eq_none hsplit)
    | some split =>
        have hcut : CutsInto pair (String.ofList split.1) (String.ofList split.2) := by
          simp [cutsInto_iff, hsplit]
        by_cases hname : String.ofList split.1 = ""
        · exact .inr ⟨_, hname ▸ hcut⟩
        · exact absurd ⟨_, spellsEntry_iff.mpr ⟨_, _, hcut, hname, rfl⟩⟩ hentry

theorem mem_tags_iff {text : String} : text ∈ Kind.tags ↔ ∃ kind : Kind, text = kind.tag := by
  rw [Kind.tags, List.mem_map]
  constructor
  · rintro ⟨kind, -, rfl⟩
    exact ⟨kind, rfl⟩
  · rintro ⟨kind, rfl⟩
    exact ⟨kind, by cases kind <;> decide, rfl⟩

theorem exists_entries {pairs : List String} (h : ∀ pair ∈ pairs, ∃ entry, SpellsEntry pair entry) :
    ∃ entries, List.Forall₂ SpellsEntry pairs entries := by
  induction pairs with
  | nil => exact ⟨[], .nil⟩
  | cons pair rest ih =>
      obtain ⟨⟨entry, hentry⟩, hrest⟩ := List.forall_mem_cons.mp h
      obtain ⟨entries, hentries⟩ := ih hrest
      exact ⟨entry :: entries, .cons hentry hentries⟩

theorem SpellsEntry.names_iff {pair name : String} {entry : String × Json.Value}
    (h : SpellsEntry pair entry) : Names pair name ↔ entry.1 = name := by
  obtain ⟨name', tag, hcut, -, rfl⟩ := spellsEntry_iff.mp h
  constructor
  · rintro ⟨tag', hcut'⟩
    exact (hcut.unique hcut').1
  · rintro rfl
    exact ⟨tag, hcut⟩

theorem SpellsEntry.mistypes_iff {pair name : String} {entry : String × Json.Value}
    (h : SpellsEntry pair entry) :
    Mistypes pair name ↔ entry.1 = name ∧ ¬∃ kind : Kind, entry.2 = .string kind.tag := by
  obtain ⟨name', tag, hcut, -, rfl⟩ := spellsEntry_iff.mp h
  simp only [Json.Value.string.injEq, ← mem_tags_iff]
  constructor
  · rintro ⟨tag', hcut', htag⟩
    obtain ⟨rfl, rfl⟩ := hcut.unique hcut'
    exact ⟨rfl, htag⟩
  · rintro ⟨rfl, htag⟩
    exact ⟨tag, hcut, htag⟩

/-- Declarations from pairs are valid unless the last pair for some name has a wrong type. -/
theorem not_valid_iff_of_spelled {pairs : List String} {entries : List (String × Json.Value)}
    (h : List.Forall₂ SpellsEntry pairs entries) :
    ¬Declared.Valid (.ofList entries) ↔
      ∃ front pair back name, pairs = front ++ pair :: back ∧ Mistypes pair name ∧
        ∀ later ∈ back, ¬Names later name := by
  simp only [Declared.valid_ofList_iff, not_forall, Table.lastValue?_eq_some_iff]
  -- The last entry for a name comes from the last pair for it, since pairs and entries match one by one.
  constructor
  · rintro ⟨name, value, ⟨front, back, rfl, hback⟩, hvalue⟩
    have hflip : List.Forall₂ (flip SpellsEntry) (front ++ (name, value) :: back) pairs := h.flip
    obtain ⟨front', pair, back', rfl, hpair, hrest⟩ := forall₂_split hflip
    refine ⟨front', pair, back', name, rfl, (SpellsEntry.mistypes_iff hpair).mpr ⟨rfl, hvalue⟩, ?_⟩
    intro later hlater hnames
    obtain ⟨entry, hentry, hspells⟩ := forall₂_exists_of_mem hrest.flip hlater
    exact hback entry hentry (hspells.names_iff.mp hnames)
  · rintro ⟨front, pair, back, name, rfl, hmistypes, hback⟩
    obtain ⟨front', ⟨name', value⟩, back', rfl, hpair, hrest⟩ := forall₂_split h
    obtain ⟨rfl, hvalue⟩ := hpair.mistypes_iff.mp hmistypes
    refine ⟨name', value, ⟨front', back', rfl, fun entry hentry hname => ?_⟩, hvalue⟩
    have hflip : List.Forall₂ (flip SpellsEntry) back' back := hrest.flip
    obtain ⟨later, hlater, hspells⟩ := forall₂_exists_of_mem hflip hentry
    exact hback later hlater ((SpellsEntry.names_iff hspells).mpr hname)

/-- Pairs are refused exactly if one of them is malformed, or one has a wrong type and is the last
for its name. -/
theorem ofPairs_fails_iff (pairs : List String) :
    (∃ e, Types.ofPairs pairs = .error e) ↔
      (∃ pair ∈ pairs, Malformed pair) ∨
      ∃ front pair back name, pairs = front ++ pair :: back ∧ Mistypes pair name ∧
        ∀ later ∈ back, ¬Names later name := by
  by_cases hmalformed : ∃ pair ∈ pairs, Malformed pair
  · obtain ⟨pair, hmem, hpair⟩ := hmalformed
    obtain ⟨e, he⟩ := exists_readPairs_error hmem (malformed_iff.mp hpair)
    exact iff_of_true ⟨e, by rw [Types.ofPairs, he]⟩ (.inl ⟨pair, hmem, hpair⟩)
  -- Once all pairs have been split, it is up to the types that are left.
  · have hspelled : ∀ pair ∈ pairs, ∃ entry, SpellsEntry pair entry := by
      intro pair hmem
      by_contra hpair
      exact hmalformed ⟨pair, hmem, malformed_iff.mpr hpair⟩
    obtain ⟨entries, hentries⟩ := exists_entries hspelled
    have hpairs : Types.ofPairs pairs = Types.ofDeclared (.ofList entries) := by
      rw [Types.ofPairs, readPairs_eq_ok_iff.mpr hentries]
    rw [or_iff_right hmalformed, ← not_valid_iff_of_spelled hentries, ← exists_ofDeclared_iff, hpairs]
    cases Types.ofDeclared (.ofList entries) <;> simp

/-- A wrong type that a later pair hides is not noticed, whatever is said of single pairs. -/
theorem ofPairs_accepts_hidden_mistype :
    ¬∀ pairs, (∃ e, Types.ofPairs pairs = .error e) ↔
      ∃ pair ∈ pairs, Malformed pair ∨ ∃ name, Mistypes pair name := by
  intro h
  have hmistypes : Mistypes "A=bogus" "A" := ⟨"bogus", ⟨by decide, by decide⟩, by decide⟩
  obtain ⟨e, he⟩ := (h ["A=bogus", "A=person"]).mpr ⟨_, by decide, .inr ⟨_, hmistypes⟩⟩
  have hok : Types.ofPairs ["A=bogus", "A=person"] = .ok (.ofList [("A", .person)]) := by rfl
  rw [hok] at he
  cases he

end Property

end FormulaUpgrade
