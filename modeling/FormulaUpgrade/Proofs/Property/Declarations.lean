import FormulaUpgrade.Proofs.Conversion.Dependence
import Mathlib.Data.List.Forall2

/-! # What declarations are accepted, and what they declare

Declarations come as entries of an object or as pairs, and are accepted if every name is left with the
tag of a kind. Entries are written into a table one after the other, so the last one for a name counts.
-/

namespace FormulaUpgrade

/-! ## Tables -/

namespace Table

variable {κ α β : Type} [DecidableEq κ]

@[simp] theorem get?_empty (key : κ) : (empty : Table κ α).get? key = none :=
  rfl

theorem insertAll_cons (t : Table κ α) (key : κ) (value : α) (entries : List (κ × α)) :
    t.insertAll ((key, value) :: entries) = (t.insert key value).insertAll entries :=
  rfl

theorem ofList_cons (key : κ) (value : α) (entries : List (κ × α)) :
    ofList ((key, value) :: entries) = (empty.insert key value).insertAll entries :=
  rfl

theorem ofList_append (front back : List (κ × α)) :
    ofList (front ++ back) = (ofList front).insertAll back := by
  rw [ofList, insertAll, List.foldl_append]
  rfl

/-- Entries that are written later hide what a table had. -/
theorem get?_insertAll (t : Table κ α) (entries : List (κ × α)) (key : κ) :
    (t.insertAll entries).get? key = ((ofList entries).get? key).or (t.get? key) := by
  induction entries generalizing t with
  | nil => simp [insertAll, ofList]
  | cons entry rest ih =>
      obtain ⟨k, v⟩ := entry
      rw [insertAll_cons, ofList_cons, ih, ih (empty.insert k v), Option.or_assoc, get?_insert,
        get?_insert]
      by_cases hk : key = k <;> simp [hk]

/-- Writing the entries of a table one after the other gives what it has. -/
theorem get?_ofList_entries (t : Table κ α) (key : κ) : (ofList t.entries).get? key = t.get? key := by
  obtain ⟨entries, hnodup⟩ := t
  induction entries with
  | nil => rfl
  | cons entry rest ih =>
      obtain ⟨k, v⟩ := entry
      obtain ⟨hk, hrest⟩ := List.nodup_cons.mp hnodup
      rw [ofList_cons, get?_insertAll, ih hrest, get?_insert, get?_empty, get?, get?]
      by_cases heq : key = k
      · subst heq
        have hfind : rest.find? (fun entry => entry.1 = key) = none := by
          simpa using fun a b hmem heq => hk (List.mem_map.mpr ⟨(a, b), hmem, heq⟩)
        simp [hfind]
      · simp [heq, Ne.symm heq]

theorem get?_update (t u : Table κ α) (key : κ) :
    (t.update u).get? key = (u.get? key).or (t.get? key) := by
  rw [update, get?_insertAll, get?_ofList_entries]

theorem get?_map (f : α → β) (t : Table κ α) (key : κ) :
    (t.map f).get? key = (t.get? key).map f := by
  rw [get?, get?, map, List.find?_map, Option.map_map, Option.map_map]
  rfl

theorem get?_of_mem {t : Table κ α} {key : κ} {value : α} (h : (key, value) ∈ t.entries) :
    t.get? key = some value := by
  obtain ⟨entries, hnodup⟩ := t
  induction entries with
  | nil => cases h
  | cons entry rest ih =>
      obtain ⟨hfresh, hrest⟩ := List.nodup_cons.mp hnodup
      obtain rfl | hmem := List.mem_cons.mp h
      · simp [get?]
      · have hne : entry.1 ≠ key := fun heq => hfresh (heq ▸ List.mem_map_of_mem hmem)
        rw [get?, List.find?_cons_of_neg (by simpa using hne)]
        exact ih hrest hmem

theorem mem_of_get? {t : Table κ α} {key : κ} {value : α} (h : t.get? key = some value) :
    (key, value) ∈ t.entries := by
  obtain ⟨entry, hfind, rfl⟩ := Option.map_eq_some_iff.mp h
  obtain rfl : entry.1 = key := by simpa using List.find?_some hfind
  exact List.mem_of_find?_eq_some hfind

end Table

namespace Property

/-! ## Entries -/

theorem checkType_eq_ok_iff {name : String} {value : Json.Value} {kind : Kind} :
    checkType name value = .ok kind ↔ value = .string kind.tag := by
  constructor
  · intro h
    cases value with
    | string text =>
        rw [checkType, Kind.ofValue] at h
        cases htag : Kind.ofTag? text with
        | none => simp [htag] at h
        | some k =>
            obtain rfl : k = kind := by simpa [htag] using h
            have htext : k.tag = text := by simpa using List.find?_some htag
            rw [htext]
    | null | bool | int | float | array | object => cases h
  · rintro rfl
    simp [checkType, Kind.ofValue, Kind.ofTag?_tag]

/-- Entries that declare kinds by their tags. -/
def tagEntries (kinds : List (String × Kind)) : List (String × Json.Value) :=
  kinds.map fun (name, kind) => (name, .string kind.tag)

theorem checkEntries_tagEntries (kinds : List (String × Kind)) :
    checkEntries (tagEntries kinds) = .ok kinds := by
  induction kinds with
  | nil => rfl
  | cons entry rest ih =>
      obtain ⟨name, kind⟩ := entry
      have hcheck : checkType name (.string kind.tag) = .ok kind := checkType_eq_ok_iff.mpr rfl
      rw [tagEntries, List.map_cons, checkEntries, hcheck]
      rw [tagEntries] at ih
      simp only [ih]

theorem eq_tagEntries_of_checkEntries {entries : List (String × Json.Value)}
    {kinds : List (String × Kind)} (h : checkEntries entries = .ok kinds) :
    entries = tagEntries kinds := by
  induction entries generalizing kinds with
  | nil =>
      obtain rfl : [] = kinds := Except.ok.inj h
      rfl
  | cons entry rest ih =>
      obtain ⟨name, value⟩ := entry
      rw [checkEntries] at h
      cases hcheck : checkType name value with
      | error e => simp [hcheck] at h
      | ok kind =>
          cases hrest : checkEntries rest with
          | error e => simp [hcheck, hrest] at h
          | ok tail =>
              obtain rfl : (name, kind) :: tail = kinds := by simpa [hcheck, hrest] using h
              rw [ih hrest, checkType_eq_ok_iff.mp hcheck]
              rfl

theorem exists_of_ofDeclared {d : Declared} {types : Types} (h : Types.ofDeclared d = .ok types) :
    ∃ t : Types, d = t.declared ∧ types = .ofList t.entries := by
  rw [Types.ofDeclared] at h
  cases hcheck : checkEntries d.entries with
  | error e => simp [hcheck] at h
  | ok kinds =>
      have hentries := eq_tagEntries_of_checkEntries hcheck
      have hkeys : d.entries.map Prod.fst = kinds.map Prod.fst := by
        rw [hentries, tagEntries, List.map_map]
        rfl
      refine ⟨⟨kinds, hkeys ▸ d.nodup_keys⟩, ?_, by simpa [hcheck, eq_comm] using h⟩
      obtain ⟨entries, hnodup⟩ := d
      subst hentries
      rfl

theorem exists_tagEntries {entries : List (String × Json.Value)}
    (h : ∀ entry ∈ entries, ∃ kind : Kind, entry.2 = .string kind.tag) :
    ∃ kinds, entries = tagEntries kinds := by
  induction entries with
  | nil => exact ⟨[], rfl⟩
  | cons entry rest ih =>
      obtain ⟨name, value⟩ := entry
      obtain ⟨⟨kind, hkind⟩, hrest⟩ := List.forall_mem_cons.mp h
      obtain rfl : value = .string kind.tag := hkind
      obtain ⟨kinds, rfl⟩ := ih hrest
      exact ⟨(name, kind) :: kinds, rfl⟩

/-- Declarations are accepted exactly if they are valid. -/
theorem exists_ofDeclared_iff {d : Declared} :
    (∃ types, Types.ofDeclared d = .ok types) ↔ d.Valid := by
  constructor
  · rintro ⟨types, h⟩
    obtain ⟨t, rfl, -⟩ := exists_of_ofDeclared h
    exact Declared.valid_declared t
  · intro h
    obtain ⟨kinds, hkinds⟩ := exists_tagEntries h
    exact ⟨.ofList kinds, by rw [Types.ofDeclared, hkinds, checkEntries_tagEntries]⟩

/-- Types that say what declarations say, by name. -/
def Types.Agrees (types : Types) (d : Declared) : Prop :=
  ∀ name, d.get? name = types.declared.get? name

theorem Types.agrees_of_ofDeclared {d : Declared} {types : Types}
    (h : Types.ofDeclared d = .ok types) : types.Agrees d := by
  intro name
  obtain ⟨t, rfl, rfl⟩ := exists_of_ofDeclared h
  rw [Types.declared, Types.declared, Table.get?_map, Table.get?_map, Table.get?_ofList_entries]

/-- Types written over others agree with the later declarations behind the earlier ones. -/
theorem Types.Agrees.update {types types' : Types} {front back : List (String × Json.Value)}
    (h : types.Agrees (.ofList front)) (h' : types'.Agrees (.ofList back)) :
    Types.Agrees (types.update types') (.ofList (front ++ back)) := by
  intro name
  rw [Table.ofList_append, Table.get?_insertAll, h, h', Types.declared, Types.declared,
    Types.declared, Table.get?_map, Table.get?_map, Table.get?_map, Table.get?_update, Option.map_or]

/-! ## Pairs -/

/-- A pair `NAME=TYPE` and the entry that it stands for. The name is all in front of the last `=`. -/
inductive SpellsEntry : String → String × Json.Value → Prop where
  | intro {name tag : List Char} : name ≠ [] → '=' ∉ tag →
      SpellsEntry (String.ofList (name ++ '=' :: tag))
        (String.ofList name, .string (String.ofList (Text.trimChars tag)))

theorem splitPair?_eq_some_iff {cs name tag : List Char} :
    splitPair? cs = some (name, tag) ↔ cs = name ++ '=' :: tag ∧ '=' ∉ tag := by
  constructor
  · intro h
    rw [splitPair?] at h
    cases hrest : cs.reverse.dropWhile (· ≠ '=') with
    | nil =>
        rw [hrest] at h
        cases h
    | cons c front =>
        rw [hrest] at h
        obtain ⟨rfl, rfl⟩ := Prod.mk.inj (Option.some.inj h)
        obtain rfl : c = '=' := by
          have hstop := List.head?_dropWhile_not (fun c => decide (c ≠ '=')) cs.reverse
          rw [hrest] at hstop
          simpa using hstop
        refine ⟨List.reverse_injective ?_, ?_⟩
        · rw [List.reverse_append, List.reverse_cons, List.reverse_reverse, List.reverse_reverse,
            List.append_assoc, List.singleton_append, ← hrest, List.takeWhile_append_dropWhile]
        · intro hmem
          have hkept := List.all_eq_true.mp List.all_takeWhile '=' (List.mem_reverse.mp hmem)
          simp at hkept
  · rintro ⟨rfl, htag⟩
    have hkeep : ∀ c ∈ tag.reverse, decide (c ≠ '=') = true := by
      intro c hc
      rw [decide_eq_true_iff]
      rintro rfl
      exact htag (List.mem_reverse.mp hc)
    rw [splitPair?, List.reverse_append, List.reverse_cons, List.append_assoc,
      List.dropWhile_append_of_pos hkeep, List.takeWhile_append_of_pos hkeep]
    simp

theorem readPair_eq_ok_iff {pair : String} {entry : String × Json.Value} :
    readPair pair = .ok entry ↔ SpellsEntry pair entry := by
  constructor
  · intro h
    rw [readPair] at h
    cases hsplit : splitPair? pair.toList with
    | none => simp [hsplit] at h
    | some split =>
        obtain ⟨name, tag⟩ := split
        obtain ⟨hpair, htag⟩ := splitPair?_eq_some_iff.mp hsplit
        obtain rfl : pair = String.ofList (name ++ '=' :: tag) := by
          rw [← hpair, String.ofList_toList]
        rw [hsplit] at h
        cases name with
        | nil => cases h
        | cons c name =>
            obtain rfl := Except.ok.inj h
            exact .intro (List.cons_ne_nil c name) htag
  · intro h
    cases h with
    | @intro name tag hname htag =>
        have hsplit : splitPair? (name ++ '=' :: tag) = some (name, tag) :=
          splitPair?_eq_some_iff.mpr ⟨rfl, htag⟩
        rw [readPair, String.toList_ofList, hsplit]
        cases name with
        | nil => exact absurd rfl hname
        | cons c name => rfl

theorem readPairs_eq_ok_iff {pairs : List String} {entries : List (String × Json.Value)} :
    readPairs pairs = .ok entries ↔ List.Forall₂ SpellsEntry pairs entries := by
  induction pairs generalizing entries with
  | nil => simp [readPairs, eq_comm]
  | cons pair rest ih =>
      rw [readPairs, List.forall₂_cons_left_iff]
      simp only [← readPair_eq_ok_iff, ← ih]
      cases readPair pair with
      | error e => simp
      | ok entry => cases readPairs rest <;> simp [eq_comm]

theorem exists_readPairs_error {pairs : List String} {pair : String} (hmem : pair ∈ pairs)
    (h : ¬∃ entry, SpellsEntry pair entry) : ∃ e, readPairs pairs = .error e := by
  cases hread : readPairs pairs with
  | error e => exact ⟨e, rfl⟩
  | ok entries =>
      rw [readPairs_eq_ok_iff] at hread
      exfalso
      induction hread with
      | nil => cases hmem
      | cons hentry _ ih =>
          obtain rfl | hmem := List.mem_cons.mp hmem
          · exact h ⟨_, hentry⟩
          · exact ih hmem

end Property

/-! ## Conversions -/

open Property

theorem Property.Types.Agrees.valid {types : Types} {d : Declared} (h : types.Agrees d) :
    d.Valid := by
  rintro ⟨name, value⟩ hentry
  have hvalue : types.declared.get? name = some value := by
    rw [← h, Table.get?_of_mem hentry]
  exact Declared.valid_declared types _ (Table.mem_of_get? hvalue)

/-- A conversion asks for declarations by name only. -/
theorem Property.Types.Agrees.convert_eq [Host] {types : Types} {d : Declared} (h : types.Agrees d)
    (s : String) : Conversion.convert types.declared s = Conversion.convert d s := by
  have hkind : types.declared.kind = d.kind := by
    funext name
    rw [Declared.kind, Declared.kind, Declared.resolve, Declared.resolve, h]
  rw [Conversion.convert_eq, Conversion.convert_eq, Formula.parse_eq_withKinds h.valid,
    Formula.parse_eq_withKinds (Declared.valid_declared types), hkind]

end FormulaUpgrade
