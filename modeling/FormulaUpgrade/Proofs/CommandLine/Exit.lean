import FormulaUpgrade.Proofs.CommandLine.Arguments
import FormulaUpgrade.Proofs.CommandLine.Printing
import FormulaUpgrade.Proofs.Property.Declarations
import FormulaUpgrade.Proofs.Text.Utf8

/-! # How a run ends

Rules say with which exit a run ends, from what stands at the paths, the pairs, the formula and what
the standard output takes. Every run ends as exactly one of them says.
-/

namespace FormulaUpgrade.CommandLine

open Property Conversion

/-! ## Files -/

/-- A file whose bytes encode a text. -/
def Found.HoldsText (found : Found) (cs : List Char) : Prop :=
  found = .file (cs.flatMap String.utf8EncodeChar)

/-- A file with a JSON object. -/
def Found.HoldsObject [Host] (found : Found) (members : List (String × Json.Value)) : Prop :=
  ∃ cs, found.HoldsText cs ∧ Json.read (Text.unifyLineEnds cs) = .ok (.object members)

/-- Failures that come up when a path is looked at, before its file is opened. -/
def unexaminedFailures : List OpenFailure :=
  [.nameTooLong, .unsearchable]

/-- How a mapping file that gives no types ends the run. -/
inductive FileEnds [Host] : Found → Exit → Prop where
  | unopened {failure} : failure ∉ unexaminedFailures → FileEnds (.failure failure) .mappingError
  | nullCharacter : FileEnds .nullCharacter .mappingError
  | malformed {found cs fault} : found.HoldsText cs →
      Json.read (Text.unifyLineEnds cs) = .error (.malformed fault) → FileEnds found .mappingError
  | notObject {found cs value} : found.HoldsText cs →
      Json.read (Text.unifyLineEnds cs) = .ok value → (∀ members, value ≠ .object members) →
      FileEnds found .mappingError
  | invalid {found members} : found.HoldsObject members → ¬Declared.Valid (.ofList members) →
      FileEnds found .mappingError
  -- These two are taken for problems of the formula file.
  | undecodable {bytes} : ¬bytes.toByteArray.IsValidUTF8 → FileEnds (.file bytes) .inputError
  | longInteger {found cs digits} : found.HoldsText cs →
      Json.read (Text.unifyLineEnds cs) = .error (.longInteger digits) → FileEnds found .inputError
  -- These two are not expected at all.
  | unexamined {failure} : failure ∈ unexaminedFailures → FileEnds (.failure failure) .unexpected
  | tooDeep {found cs container} : found.HoldsText cs →
      Json.read (Text.unifyLineEnds cs) = .error (.tooDeep container) → FileEnds found .unexpected

/-- Entries that the mapping file declares. There are none without a file. -/
def FileDeclares [Host] (find : Path → Found) : Option Given → List (String × Json.Value) → Prop
  | none, members => members = []
  | some given, members =>
    (find (.ofString given.shown)).HoldsObject members ∧ Declared.Valid (.ofList members)

/-- How pairs that give no types end the run. -/
inductive PairsEnd : List Given → Exit → Prop where
  | unspelled {texts : List String} {pair back} : (¬∃ entry, SpellsEntry pair entry) →
      PairsEnd (texts.map .text ++ .text pair :: back) .mappingError
  | invalid {texts entries} : List.Forall₂ SpellsEntry texts entries →
      ¬Declared.Valid (.ofList entries) → PairsEnd (texts.map .text) .mappingError
  -- The option was given nothing, and nothing in front of it is wrong.
  | missing {texts entries back} : List.Forall₂ SpellsEntry texts entries →
      PairsEnd (texts.map .text ++ .nothing :: back) .unexpected

/-- Entries that the pairs declare. -/
def PairsDeclare (given : List Given) (entries : List (String × Json.Value)) : Prop :=
  ∃ texts, given = texts.map .text ∧ List.Forall₂ SpellsEntry texts entries ∧
    Declared.Valid (.ofList entries)

/-- The declarations of a run: those of the file and, behind them, those of the pairs. -/
inductive Declares [Host] (find : Path → Found) (settings : Settings) : Declared → Prop where
  | intro {members pairs} : FileDeclares find settings.mapping members →
      PairsDeclare settings.types pairs → Declares find settings (.ofList (members ++ pairs))

/-- The formula of a run. -/
inductive GivesFormula (world : World) (settings : Settings) : String → Prop where
  | argument {given} : settings.formula = some given → GivesFormula world settings given.toText
  | file {given cs} : settings.input = some (.text given) →
      (world.find (.ofString given)).HoldsText cs → GivesFormula world settings (inputText cs)
  | standardInput {input} : settings.formula = none → settings.input = none →
      world.stdin = .text input → GivesFormula world settings (inputText input.toList)

/-- The standard output takes all that is printed of a conversion. -/
def TakesAll [Host] (world : World) (settings : Settings) (d : Declared) (formula : String) : Prop :=
  ∀ text, .ok text ∈ printouts settings d (convert d formula) → world.stdout.Takes text

/-- How a run ends. -/
inductive Ends [Host] (world : World) (settings : Settings) : Exit → Prop where
  | file {given exit} : settings.mapping = some given →
      FileEnds (world.find (.ofString given.shown)) exit → Ends world settings exit
  | pairs {members exit} : FileDeclares world.find settings.mapping members →
      PairsEnd settings.types exit → Ends world settings exit
  | unreadable {d given} : Declares world.find settings d → settings.input = some (.text given) →
      (¬∃ cs, (world.find (.ofString given)).HoldsText cs) → Ends world settings .inputError
  | noPath {d} : Declares world.find settings d → settings.input = some .nothing →
      Ends world settings .unexpected
  -- This, too, is taken for a problem of the formula file.
  | unprinted {d formula} : Declares world.find settings d → GivesFormula world settings formula →
      ¬TakesAll world settings d formula → Ends world settings .inputError
  | issues {d formula} : Declares world.find settings d → GivesFormula world settings formula →
      TakesAll world settings d formula → (convert d formula).issues ≠ [] →
      Ends world settings .conversionErrors
  | converted {d formula} : Declares world.find settings d → GivesFormula world settings formula →
      TakesAll world settings d formula → (convert d formula).issues = [] → Ends world settings .ok

/-! ## Loading a file -/

theorem holdsText_file_iff {bytes : List UInt8} {cs : List Char} :
    (Found.file bytes).HoldsText cs ↔ Text.Utf8.decode bytes = .ok cs := by
  rw [Found.HoldsText, Found.file.injEq, Text.Utf8.decode_eq_ok_iff]

theorem typesOfFound_of_holdsText [Host] {found : Found} {cs : List Char} (h : found.HoldsText cs)
    (path : String) : typesOfFound path found = typesOfText cs := by
  rw [h, typesOfFound, typesOfBytes, Text.Utf8.decode_eq_ok_iff.mpr rfl]

theorem exists_ofDeclared_error {d : Declared} (h : ¬d.Valid) :
    ∃ e, Types.ofDeclared d = .error e := by
  cases hd : Types.ofDeclared d with
  | error e => exact ⟨e, rfl⟩
  | ok types => exact absurd (exists_ofDeclared_iff.mp ⟨types, hd⟩) h

/-- A file that the rules refuse gives no types. -/
theorem FileEnds.typesOfFound [Host] {found : Found} {exit : Exit} (h : FileEnds found exit)
    (path : String) :
    ∃ e, typesOfFound path found = .error e ∧ (LoadError.file e).session.exit = exit := by
  cases h with
  | @unopened failure hfailure =>
      cases failure with
      | nameTooLong | unsearchable => exact absurd hfailure (by decide)
      | missing | denied | notDirectory | isDirectory | loop => exact ⟨_, rfl, rfl⟩
  | nullCharacter => exact ⟨_, rfl, rfl⟩
  | @unexamined failure hfailure =>
      cases failure with
      | nameTooLong | unsearchable => exact ⟨_, rfl, rfl⟩
      | missing | denied | notDirectory | isDirectory | loop => exact absurd hfailure (by decide)
  | @undecodable bytes hinvalid =>
      rw [Text.Utf8.isValidUTF8_iff] at hinvalid
      cases hdecode : Text.Utf8.decode bytes with
      | ok cs => exact absurd ⟨cs, hdecode⟩ hinvalid
      | error fault =>
          refine ⟨.undecodable fault, ?_, rfl⟩
          rw [CommandLine.typesOfFound, typesOfBytes, hdecode]
  | malformed htext hread | longInteger htext hread | tooDeep htext hread =>
      rw [typesOfFound_of_holdsText htext, typesOfText, hread]
      exact ⟨_, rfl, rfl⟩
  | @notObject _ cs value htext hread hvalue =>
      rw [typesOfFound_of_holdsText htext, typesOfText, hread]
      cases value with
      | object members => exact absurd rfl (hvalue members)
      | null | bool | int | float | string | array => exact ⟨_, rfl, rfl⟩
  | invalid hobject hinvalid =>
      obtain ⟨cs, htext, hread⟩ := hobject
      obtain ⟨e, he⟩ := exists_ofDeclared_error hinvalid
      rw [typesOfFound_of_holdsText htext, typesOfText, hread]
      exact ⟨.entry e, by simp [he], rfl⟩

theorem typesOfFound_of_holdsObject [Host] {found : Found} {members : List (String × Json.Value)}
    (h : found.HoldsObject members) (hvalid : Declared.Valid (.ofList members)) (path : String) :
    ∃ types, typesOfFound path found = .ok types ∧ types.Agrees (.ofList members) := by
  obtain ⟨cs, htext, hread⟩ := h
  obtain ⟨types, htypes⟩ := exists_ofDeclared_iff.mpr hvalid
  refine ⟨types, ?_, Types.agrees_of_ofDeclared htypes⟩
  rw [typesOfFound_of_holdsText htext, typesOfText, hread]
  simp [htypes]

/-- A text is an object of valid declarations, or a rule refuses it. -/
theorem Found.HoldsText.declares_or_ends [Host] {found : Found} {cs : List Char} (h : found.HoldsText cs) :
    (∃ members, found.HoldsObject members ∧ Declared.Valid (.ofList members)) ∨
      ∃ exit, FileEnds found exit := by
  cases hread : Json.read (Text.unifyLineEnds cs) with
  | error stop =>
      cases stop with
      | malformed fault => exact .inr ⟨_, .malformed h hread⟩
      | tooDeep container => exact .inr ⟨_, .tooDeep h hread⟩
      | longInteger digits => exact .inr ⟨_, .longInteger h hread⟩
  | ok value =>
      by_cases hobject : ∃ members, value = .object members
      · obtain ⟨members, rfl⟩ := hobject
        by_cases hvalid : Declared.Valid (.ofList members)
        · exact .inl ⟨members, ⟨cs, h, hread⟩, hvalid⟩
        · exact .inr ⟨_, .invalid ⟨cs, h, hread⟩ hvalid⟩
      · exact .inr ⟨_, .notObject h hread (not_exists.mp hobject)⟩

theorem Found.declares_or_ends [Host] (found : Found) :
    (∃ members, found.HoldsObject members ∧ Declared.Valid (.ofList members)) ∨
      ∃ exit, FileEnds found exit := by
  cases found with
  | nullCharacter => exact .inr ⟨_, .nullCharacter⟩
  | failure failure =>
      by_cases hfailure : failure ∈ unexaminedFailures
      · exact .inr ⟨_, .unexamined hfailure⟩
      · exact .inr ⟨_, .unopened hfailure⟩
  | file bytes =>
      by_cases hutf8 : bytes.toByteArray.IsValidUTF8
      · obtain ⟨cs, hdecode⟩ := Text.Utf8.isValidUTF8_iff.mp hutf8
        exact (holdsText_file_iff.mpr hdecode).declares_or_ends
      · exact .inr ⟨_, .undecodable hutf8⟩

theorem fileDeclares_or_ends [Host] (find : Path → Found) (mapping : Option Given) :
    (∃ members, FileDeclares find mapping members) ∨
      ∃ given exit, mapping = some given ∧ FileEnds (find (.ofString given.shown)) exit := by
  cases mapping with
  | none => exact .inl ⟨[], rfl⟩
  | some given =>
      obtain ⟨members, h⟩ | ⟨exit, h⟩ := (find (.ofString given.shown)).declares_or_ends
      · exact .inl ⟨members, h⟩
      · exact .inr ⟨given, exit, rfl, h⟩

variable {world : World} {exit : Exit}

theorem FileDeclares.loadFile [Host] {mapping : Option Given} {members : List (String × Json.Value)}
    (h : FileDeclares world.find mapping members) :
    ∃ types, (loadFile world mapping).1 = .ok types ∧ types.Agrees (.ofList members) := by
  cases mapping with
  | none =>
      obtain rfl : members = [] := h
      exact ⟨.empty, rfl, fun _ => rfl⟩
  | some given =>
      obtain ⟨types, htypes, hagrees⟩ :=
        typesOfFound_of_holdsObject h.1 h.2 (Path.ofString given.shown).text
      exact ⟨types, by rw [CommandLine.loadFile, htypes]; rfl, hagrees⟩

theorem FileEnds.loadFile [Host] {given : Given}
    (h : FileEnds (world.find (.ofString given.shown)) exit) :
    ∃ e, (loadFile world (some given)).1 = .error e ∧ e.session.exit = exit := by
  obtain ⟨e, he, hexit⟩ := h.typesOfFound (Path.ofString given.shown).text
  exact ⟨.file e, by rw [CommandLine.loadFile, he]; rfl, hexit⟩

/-! ## Loading the pairs -/

theorem leadingTexts_append (texts : List String) (given : List Given) :
    leadingTexts (texts.map .text ++ given) =
      (texts ++ (leadingTexts given).1, (leadingTexts given).2) := by
  induction texts with
  | nil => rfl
  | cons text texts ih => rw [List.map_cons, List.cons_append, leadingTexts, ih]; rfl

theorem leadingTexts_texts (texts : List String) :
    leadingTexts (texts.map .text) = (texts, false) := by
  simpa [leadingTexts] using leadingTexts_append texts []

/-- Pairs that the rules refuse give no types. -/
theorem PairsEnd.loadPairs [Host] {given : List Given} (h : PairsEnd given exit) :
    ∃ e, loadPairs given = .error e ∧ e.session.exit = exit := by
  cases h with
  | @unspelled texts pair back hpair =>
      rw [CommandLine.loadPairs, leadingTexts_append, leadingTexts]
      obtain ⟨e, he⟩ := exists_readPairs_error
        (List.mem_append_right texts (List.mem_cons_self (l := (leadingTexts back).1))) hpair
      refine ⟨.pairs e, ?_, rfl⟩
      cases hmissing : (leadingTexts back).2 with
      | false => simp [Types.ofPairs, he]
      | true => simp [he]
  | @invalid texts entries hentries hinvalid =>
      obtain ⟨e, he⟩ := exists_ofDeclared_error hinvalid
      refine ⟨.pairs e, ?_, rfl⟩
      rw [CommandLine.loadPairs, leadingTexts_texts]
      simp [Types.ofPairs, readPairs_eq_ok_iff.mpr hentries, he]
  | @missing texts entries back hentries =>
      refine ⟨.noPair, ?_, rfl⟩
      rw [CommandLine.loadPairs, leadingTexts_append]
      simp [leadingTexts, readPairs_eq_ok_iff.mpr hentries]

theorem PairsDeclare.loadPairs {given : List Given} {entries : List (String × Json.Value)}
    (h : PairsDeclare given entries) :
    ∃ types, loadPairs given = .ok types ∧ types.Agrees (.ofList entries) := by
  obtain ⟨texts, rfl, hentries, hvalid⟩ := h
  obtain ⟨types, htypes⟩ := exists_ofDeclared_iff.mpr hvalid
  refine ⟨types, ?_, Types.agrees_of_ofDeclared htypes⟩
  rw [CommandLine.loadPairs, leadingTexts_texts]
  simp [Types.ofPairs, readPairs_eq_ok_iff.mpr hentries, htypes]

/-- Either every option was given a pair, or one of them is the first that was not. -/
theorem spelled_or_first (given : List Given) :
    (∃ texts entries, given = texts.map .text ∧ List.Forall₂ SpellsEntry texts entries) ∨
    (∃ (texts : List String) (pair : String) (back : List Given),
      given = texts.map .text ++ .text pair :: back ∧ ¬∃ entry, SpellsEntry pair entry) ∨
    ∃ texts entries back, given = texts.map .text ++ .nothing :: back ∧
      List.Forall₂ SpellsEntry texts entries := by
  induction given with
  | nil => exact .inl ⟨[], [], rfl, .nil⟩
  | cons head rest ih =>
      cases head with
      | nothing => exact .inr (.inr ⟨[], [], rest, rfl, .nil⟩)
      | text pair =>
          by_cases hpair : ∃ entry, SpellsEntry pair entry
          · obtain ⟨entry, hentry⟩ := hpair
            obtain ⟨texts, entries, rfl, h⟩ | ⟨texts, bad, back, rfl, h⟩ |
              ⟨texts, entries, back, rfl, h⟩ := ih
            · exact .inl ⟨pair :: texts, entry :: entries, rfl, .cons hentry h⟩
            · exact .inr (.inl ⟨pair :: texts, bad, back, rfl, h⟩)
            · exact .inr (.inr ⟨pair :: texts, entry :: entries, back, rfl, .cons hentry h⟩)
          · exact .inr (.inl ⟨[], pair, rest, rfl, hpair⟩)

/-- Pairs declare entries, or a rule refuses them. -/
theorem pairsDeclare_or_ends (given : List Given) :
    (∃ entries, PairsDeclare given entries) ∨ ∃ exit, PairsEnd given exit := by
  obtain ⟨texts, entries, rfl, h⟩ | ⟨texts, pair, back, rfl, h⟩ | ⟨texts, entries, back, rfl, h⟩ :=
    spelled_or_first given
  · by_cases hvalid : Declared.Valid (.ofList entries)
    · exact .inl ⟨entries, texts, rfl, h, hvalid⟩
    · exact .inr ⟨_, .invalid h hvalid⟩
  · exact .inr ⟨_, .unspelled h⟩
  · exact .inr ⟨_, .missing h⟩

/-! ## Loading all types -/

variable {settings : Settings}

theorem loadTypes_fst [Host] (world : World) (settings : Settings) :
    (loadTypes world settings).1 = (loadFile world settings.mapping).1.bind fun types =>
      (loadPairs settings.types).map types.update := by
  rw [loadTypes]
  rcases loadFile world settings.mapping with ⟨e | types, log⟩
  · rfl
  · cases loadPairs settings.types <;> rfl

theorem Declares.loadTypes [Host] {d : Declared} (h : Declares world.find settings d) :
    ∃ types, (loadTypes world settings).1 = .ok types ∧ types.Agrees d := by
  obtain ⟨hfile, hpairs⟩ := h
  obtain ⟨types, htypes, hagrees⟩ := hfile.loadFile
  obtain ⟨types', htypes', hagrees'⟩ := hpairs.loadPairs
  refine ⟨types.update types', ?_, hagrees.update hagrees'⟩
  rw [loadTypes_fst, htypes, htypes']
  rfl

/-- How a run ends follows from what is loaded. -/
theorem exit_mainSession [Host] (world : World) (settings : Settings) :
    (mainSession settings world).exit =
      match (loadTypes world settings).1 with
      | .error e => e.session.exit
      | .ok types =>
        match loadFormula world settings with
        | .error session => session.exit
        | .ok formula => (convertSession settings world.stdout types formula).exit := by
  rw [mainSession]
  rcases loadTypes world settings with ⟨e | types, log⟩
  · rfl
  · cases loadFormula world settings <;> rfl

/-! ## The formula -/

theorem formulaOfFound_of_holdsText {found : Found} {cs : List Char} (h : found.HoldsText cs)
    (path : String) : formulaOfFound path found = .ok (inputText cs) := by
  rw [h, formulaOfFound, Text.Utf8.decode_eq_ok_iff.mpr rfl]

theorem formulaOfFound_of_not_holdsText {found : Found} (h : ¬∃ cs, found.HoldsText cs)
    (path : String) :
    ∃ e, formulaOfFound path found = .error e ∧ e.session.exit = .inputError := by
  cases found with
  | nullCharacter => exact ⟨_, rfl, rfl⟩
  | failure failure => cases failure <;> exact ⟨_, rfl, rfl⟩
  | file bytes =>
      cases hdecode : Text.Utf8.decode bytes with
      | ok cs => exact absurd ⟨cs, holdsText_file_iff.mpr hdecode⟩ h
      | error fault => exact ⟨.undecodable fault, by rw [formulaOfFound, hdecode], rfl⟩

theorem Settings.Exclusive.formula_eq_none {given : Given} (h : settings.Exclusive)
    (hinput : settings.input = some given) : settings.formula = none := by
  simpa [Settings.Exclusive, hinput] using h

theorem GivesFormula.loadFormula {formula : String} (h : GivesFormula world settings formula)
    (hexclusive : settings.Exclusive) :
    ∃ given, loadFormula world settings = .ok given ∧ given.toText = formula := by
  cases h with
  | @argument given hgiven => exact ⟨given, by rw [CommandLine.loadFormula, hgiven], rfl⟩
  | @file given cs hinput htext =>
      refine ⟨.text (inputText cs), ?_, rfl⟩
      rw [CommandLine.loadFormula, hexclusive.formula_eq_none hinput, hinput]
      simp only [formulaOfFound_of_holdsText htext]
  | @standardInput input hformula hinput hstdin =>
      refine ⟨.text (inputText input.toList), ?_, rfl⟩
      rw [CommandLine.loadFormula, hformula, hinput, hstdin]

/-! ## Printing -/

/-- What is printed depends on declarations by name only. -/
theorem printouts_eq_of_agrees [Host] {types : Types} {d : Declared} (h : types.Agrees d)
    (settings : Settings) (r : Result) :
    printouts settings types.declared r = printouts settings d r := by
  have hresolve : types.declared.resolve = d.resolve := by
    funext name
    rw [Declared.resolve, Declared.resolve, h]
  simp only [printouts, explanation, report, propertySection, shownType, hresolve]

/-- A run that has declarations and a formula ends with what comes of the conversion, if that can be
printed. -/
theorem exit_mainSession_of_givesFormula [Host] {d : Declared} {formula : String}
    (hdeclares : Declares world.find settings d) (hformula : GivesFormula world settings formula)
    (hexclusive : settings.Exclusive) :
    (TakesAll world settings d formula ∧ (mainSession settings world).exit =
      if (convert d formula).ok then .ok else .conversionErrors) ∨
    ¬TakesAll world settings d formula ∧ (mainSession settings world).exit = .inputError := by
  obtain ⟨types, htypes, hagrees⟩ := hdeclares.loadTypes
  obtain ⟨given, hgiven, rfl⟩ := hformula.loadFormula hexclusive
  rw [exit_mainSession, htypes, hgiven]
  obtain ⟨texts, htexts, hends⟩ := convertSession_ends settings world.stdout types given
  rw [hagrees.convert_eq, printouts_eq_of_agrees hagrees] at htexts
  rw [hagrees.convert_eq] at hends
  have htakes : TakesAll world settings d given.toText ↔ ∀ text ∈ texts, world.stdout.Takes text := by
    simp [TakesAll, htexts]
  obtain ⟨hall, hexit, -⟩ | ⟨front, text, back, rfl, -, htext, hexit, -⟩ := hends
  · exact .inl ⟨htakes.mpr hall, hexit⟩
  · exact .inr ⟨fun h => htext (htakes.mp h text (by simp)), hexit⟩

/-! ## Every run -/

/-- A run ends as the rules say. -/
theorem Ends.exit_mainSession [Host] (h : Ends world settings exit)
    (hexclusive : settings.Exclusive) : (mainSession settings world).exit = exit := by
  cases h with
  | file hmapping hends =>
      obtain ⟨e, he, rfl⟩ := hends.loadFile
      rw [CommandLine.exit_mainSession, loadTypes_fst, hmapping, he]
      rfl
  | pairs hfile hends =>
      obtain ⟨types, htypes, -⟩ := hfile.loadFile
      obtain ⟨e, he, rfl⟩ := hends.loadPairs
      rw [CommandLine.exit_mainSession, loadTypes_fst, htypes, he]
      rfl
  | @unreadable d given hdeclares hinput hunreadable =>
      obtain ⟨types, htypes, -⟩ := hdeclares.loadTypes
      obtain ⟨e, he, hexit⟩ :=
        formulaOfFound_of_not_holdsText hunreadable (Path.ofString given).text
      have hformula := hexclusive.formula_eq_none hinput
      rw [CommandLine.exit_mainSession, htypes, loadFormula, hformula, hinput]
      simp only [he, hexit]
  | noPath hdeclares hinput =>
      obtain ⟨types, htypes, -⟩ := hdeclares.loadTypes
      have hformula := hexclusive.formula_eq_none hinput
      rw [CommandLine.exit_mainSession, htypes, loadFormula, hformula, hinput]
      rfl
  | unprinted hdeclares hformula htakes =>
      obtain ⟨h, -⟩ | ⟨-, hexit⟩ := exit_mainSession_of_givesFormula hdeclares hformula hexclusive
      · exact absurd h htakes
      · exact hexit
  | issues hdeclares hformula htakes hissues | converted hdeclares hformula htakes hissues =>
      obtain ⟨-, hexit⟩ | ⟨h, -⟩ := exit_mainSession_of_givesFormula hdeclares hformula hexclusive
      · rw [hexit]
        simp [Result.ok, hissues]
      · exact absurd htakes h

theorem ends_of_givesFormula [Host] {d : Declared} {formula : String}
    (hdeclares : Declares world.find settings d) (hformula : GivesFormula world settings formula) :
    ∃ exit, Ends world settings exit := by
  by_cases htakes : TakesAll world settings d formula
  · by_cases hissues : (convert d formula).issues = []
    · exact ⟨_, .converted hdeclares hformula htakes hissues⟩
    · exact ⟨_, .issues hdeclares hformula htakes hissues⟩
  · exact ⟨_, .unprinted hdeclares hformula htakes⟩

theorem ends_of_declares [Host] {d : Declared} (hdeclares : Declares world.find settings d)
    {input : String} (hstdin : world.stdin = .text input) : ∃ exit, Ends world settings exit := by
  cases hformula : settings.formula with
  | some given => exact ends_of_givesFormula hdeclares (.argument hformula)
  | none =>
      cases hinput : settings.input with
      | none => exact ends_of_givesFormula hdeclares (.standardInput hformula hinput hstdin)
      | some given =>
          cases given with
          | nothing => exact ⟨_, .noPath hdeclares hinput⟩
          | text given =>
              by_cases htext : ∃ cs, (world.find (.ofString given)).HoldsText cs
              · obtain ⟨cs, htext⟩ := htext
                exact ends_of_givesFormula hdeclares (.file hinput htext)
              · exact ⟨_, .unreadable hdeclares hinput htext⟩

/-- The rules say for every run how it ends. -/
theorem exists_ends [Host] (settings : Settings) {input : String}
    (hstdin : world.stdin = .text input) : ∃ exit, Ends world settings exit := by
  obtain ⟨members, hfile⟩ | ⟨given, exit, hmapping, hends⟩ :=
    fileDeclares_or_ends world.find settings.mapping
  · obtain ⟨pairs, hpairs⟩ | ⟨exit, hends⟩ := pairsDeclare_or_ends settings.types
    · exact ends_of_declares ⟨hfile, hpairs⟩ hstdin
    · exact ⟨exit, .pairs hfile hends⟩
  · exact ⟨exit, .file hmapping hends⟩

theorem Exit.code_injective {e e' : Exit} (h : e.code = e'.code) : e = e' := by
  cases e <;> cases e' <;> first | rfl | cases h

/-- Two names that are surrogates without partners are two names, and one has a type that is none. -/
example :
    let text := "\x7b\"\\ud800\": \"bogus\", \"\\ud801\": \"person\"\x7d"
    let files := FileTree.ofList
      [(.ofString "m.json", .file (text.toList.flatMap String.utf8EncodeChar))]
    (run ["-f", "1", "-m", "m.json"] ⟨files.find, .text "", .strict, 990, 990⟩).exit = 2 := by
  decide +kernel

end FormulaUpgrade.CommandLine
