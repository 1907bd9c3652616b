import FormulaUpgrade.Proofs.CommandLine.Exit
import FormulaUpgrade.Proofs.Property.Precedence

/-! # Which types a run works with

Types come from the members of an object in a file and from pairs behind it. The last pair for a name
counts, then the last member for it; names are listed as they come up, those of the file first.
-/

namespace FormulaUpgrade.CommandLine

open Property

/-- The members in the mapping file. There are none without a file. -/
def FileMembers [Host] (find : Path → Found) : Option Given → List (String × Json.Value) → Prop
  | none, members => members = []
  | some given, members => (find (.ofString given.shown)).HoldsObject members

/-- The kind that counts for a name: that of the last pair for it, or else that of the last member for
it, or else `other`. -/
def Counts (members pairs : List (String × Json.Value)) (name : String) (kind : Kind) : Prop :=
  match (Table.lastValue? pairs name).or (Table.lastValue? members name) with
  | some value => value = .string kind.tag
  | none => kind = .other

/-! ## What was loaded -/

theorem ofDeclared_of_loadFile [Host] {world : World} {mapping : Option Given}
    {members : List (String × Json.Value)} {types : Types}
    (hfile : FileMembers world.find mapping members)
    (h : (loadFile world mapping).1 = .ok types) :
    Types.ofDeclared (.ofList members) = .ok types := by
  cases mapping with
  | none =>
      obtain rfl : members = [] := hfile
      obtain rfl : Table.empty = types := Except.ok.inj h
      rfl
  | some given =>
      obtain ⟨cs, htext, hread⟩ := hfile
      simp only [loadFile, typesOfFound_of_holdsText htext, typesOfText, hread] at h
      cases hmembers : Types.ofDeclared (.ofList members) with
      | error e => simp [hmembers, Except.mapError] at h
      | ok loaded => simpa [hmembers, Except.mapError] using h

theorem ofDeclared_of_loadPairs [Host] {given : List Given} {types : Types}
    (h : loadPairs given = .ok types) :
    ∃ texts entries, given = texts.map .text ∧ List.Forall₂ SpellsEntry texts entries ∧
      Types.ofDeclared (.ofList entries) = .ok types := by
  obtain ⟨entries, texts, rfl, hentries, hvalid⟩ | ⟨exit, hends⟩ := pairsDeclare_or_ends given
  · refine ⟨texts, entries, rfl, hentries, ?_⟩
    rw [loadPairs, leadingTexts_texts] at h
    simp only [Types.ofPairs, readPairs_eq_ok_iff.mpr hentries] at h
    cases htypes : Types.ofDeclared (.ofList entries) with
    | error e => simp [htypes] at h
    | ok loaded => simpa [htypes] using h
  · obtain ⟨e, he, -⟩ := hends.loadPairs
    rw [he] at h
    cases h

theorem exists_of_loadTypes [Host] {settings : Settings} {world : World} {types : Types}
    (h : (loadTypes world settings).1 = .ok types) :
    ∃ fromFile fromPairs, (loadFile world settings.mapping).1 = .ok fromFile ∧
      loadPairs settings.types = .ok fromPairs ∧ types = fromFile.update fromPairs := by
  rw [loadTypes_fst] at h
  cases hfile : (loadFile world settings.mapping).1 with
  | error e =>
      rw [hfile] at h
      cases h
  | ok fromFile =>
      cases hpairs : loadPairs settings.types with
      | error e =>
          rw [hfile, hpairs] at h
          cases h
      | ok fromPairs =>
          rw [hfile, hpairs] at h
          exact ⟨fromFile, fromPairs, rfl, rfl, (Except.ok.inj h).symm⟩

/-! ## What counts -/

theorem counts_of_agrees {types : Types} {members pairs : List (String × Json.Value)}
    (h : types.Agrees (.ofList (members ++ pairs))) (name : String) :
    ∃ kind, types.declared.resolve name = .ok kind ∧ Counts members pairs name kind := by
  have hget := h name
  rw [Table.get?_ofList, Table.lastValue?_append] at hget
  cases hvalue : types.declared.get? name with
  | none =>
      refine ⟨.other, by rw [Declared.resolve, hvalue], ?_⟩
      rw [Counts, hget, hvalue]
  | some value =>
      obtain ⟨kind, hkind⟩ := Declared.valid_declared types _ (Table.mem_of_get? hvalue)
      obtain rfl : value = .string kind.tag := hkind
      refine ⟨kind, ?_, ?_⟩
      · rw [Declared.resolve, hvalue]
        simp [Kind.ofValue, Kind.ofTag?_tag]
      · rw [Counts, hget, hvalue]

/-- Of all declarations for a name the last one counts, and names keep the order in which they come
up first. -/
theorem loadTypes_last_wins [Host] (world : World) (settings : Settings)
    (members : List (String × Json.Value)) (types : Types)
    (hfile : FileMembers world.find settings.mapping members)
    (hload : (loadTypes world settings).1 = .ok types) :
    ∃ texts pairs, settings.types = texts.map .text ∧ List.Forall₂ SpellsEntry texts pairs ∧
      (∀ name, ∃ kind, types.declared.resolve name = .ok kind ∧ Counts members pairs name kind) ∧
      types.keys = (members.map Prod.fst ++ pairs.map Prod.fst).eraseDups := by
  obtain ⟨fromFile, fromPairs, hloadFile, hloadPairs, rfl⟩ := exists_of_loadTypes hload
  have hmembers := ofDeclared_of_loadFile hfile hloadFile
  obtain ⟨texts, pairs, htexts, hspelled, hpairs⟩ := ofDeclared_of_loadPairs hloadPairs
  have hagrees := (Types.agrees_of_ofDeclared hmembers).update (Types.agrees_of_ofDeclared hpairs)
  have hkeys := Types.keys_of_ofDeclared hpairs
  refine ⟨texts, pairs, htexts, hspelled, counts_of_agrees hagrees, ?_⟩
  rw [Table.update, Table.keys_insertAll (Types.keys_of_ofDeclared hmembers), ← Table.keys, hkeys,
    Table.eraseDups_append_eraseDups]

attribute [local instance] Host.usual

/-- A member and a pair are hidden by later ones, the member with a type that is no text. -/
theorem loadTypes_last_wins_overlap :
    let text := "\x7b\"A\":1,\"B\":\"id\",\"A\":\"person\"\x7d"
    let files := FileTree.ofList
      [(.ofString "m.json", .file (text.toList.flatMap String.utf8EncodeChar))]
    let settings : Settings :=
      { mapping := some (.text "m.json"),
        types := [.text "B=rollup", .text "A=B=file", .text "B= other "] }
    let world : World := ⟨files.find, .interrupted, .strict, 990, 990⟩
    ∃ members types, FileMembers world.find settings.mapping members ∧
      (loadTypes world settings).1 = .ok types ∧
      types.declared.resolve "A" = .ok .person ∧ types.declared.resolve "B" = .ok .other ∧
      types.keys = ["A", "B", "A=B"] := by
  let members : List (String × Json.Value) :=
    [("A", .int (.ofDigits false ['1'] (List.forall_mem_singleton.mpr rfl) (by decide))),
      ("B", .string "id"), ("A", .string "person")]
  let entries : List (String × Json.Value) :=
    [("B", .string "rollup"), ("A=B", .string "file"), ("B", .string "other")]
  have hread : Json.read (Text.unifyLineEnds
      "\x7b\"A\":1,\"B\":\"id\",\"A\":\"person\"\x7d".toList) = .ok (.object members) := by
    with_unfolding_all rfl
  intro text files settings world
  have hfound : files.find (.ofString "m.json") =
      .file (text.toList.flatMap String.utf8EncodeChar) := by
    decide +kernel
  have hfile : FileMembers world.find settings.mapping members := ⟨text.toList, hfound, hread⟩
  have hentries : readPairs ["B=rollup", "A=B=file", "B= other "] = .ok entries := by rfl
  have hmembersValid : Declared.Valid (.ofList members) :=
    exists_ofDeclared_iff.mp ⟨.ofList [("A", .person), ("B", .id)], by rfl⟩
  have hentriesValid : Declared.Valid (.ofList entries) :=
    exists_ofDeclared_iff.mp ⟨.ofList [("B", .other), ("A=B", .file)], by rfl⟩
  have hdeclares : Declares world.find settings (.ofList (members ++ entries)) :=
    .intro ⟨hfile, hmembersValid⟩ ⟨_, rfl, readPairs_eq_ok_iff.mp hentries, hentriesValid⟩
  obtain ⟨types, hload, -⟩ := hdeclares.loadTypes
  obtain ⟨texts, pairs, htexts, hspelled, hcounts, hkeys⟩ :=
    loadTypes_last_wins world settings members types hfile hload
  obtain rfl : ["B=rollup", "A=B=file", "B= other "] = texts :=
    List.map_injective_iff.mpr (fun _ _ => Given.text.inj) htexts
  obtain rfl : entries = pairs := by
    rw [← readPairs_eq_ok_iff, hentries] at hspelled
    exact Except.ok.inj hspelled
  refine ⟨members, types, hfile, hload, ?_, ?_, hkeys⟩
  · obtain ⟨kind, hkind, hcounts⟩ := hcounts "A"
    obtain rfl : Kind.person = kind := Kind.tag_injective (Json.Value.string.inj hcounts)
    exact hkind
  · obtain ⟨kind, hkind, hcounts⟩ := hcounts "B"
    obtain rfl : Kind.other = kind := Kind.tag_injective (Json.Value.string.inj hcounts)
    exact hkind

end FormulaUpgrade.CommandLine
