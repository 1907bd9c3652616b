import FormulaUpgrade.Proofs.CommandLine.Arguments
import FormulaUpgrade.Proofs.CommandLine.Printing
import Mathlib.Data.List.Basic

/-! # Diagnostics stay apart from the output

The flags for the log choose which records are written and nothing else: what a run prints and how it
ends are the same under all of them, and a more verbose run writes all records of a less verbose one.
A run that gives up has printed nothing, or the formula without a report that could not be printed.
-/

namespace FormulaUpgrade

/-! ## Levels -/

theorem Log.visible_sublist {level level' : Level} (h : level'.number ≤ level.number)
    (records : List Record) : (visible level records).Sublist (visible level' records) := by
  apply List.monotone_filter_right
  intro r hr
  have hlevel : level.number ≤ r.level.number := by simpa using hr
  simpa using Nat.le_trans h hlevel

namespace CommandLine

open Conversion

namespace Settings

/-- How much is to be written: 0 without a flag, 1 with the flag for verbose output, 2 with the one for
debugging. -/
def verbosity (s : Settings) : Nat :=
  if s.debug then 2 else if s.verbose then 1 else 0

/-- The settings without the flags for the log. -/
def quiet (s : Settings) : Settings :=
  { s with verbose := false, debug := false }

/-- The settings with flags for the log added. -/
def raise (s : Settings) (verbose debug : Bool) : Settings :=
  { s with verbose := s.verbose || verbose, debug := s.debug || debug }

/-- The records that a run writes. -/
def records (s : Settings) (world : World) : List Log.Record :=
  let _ := world.host (s.standIns world)
  Log.visible (.ofFlags s.verbose s.debug) (session s world).log

theorem number_le_of_verbosity_le {s s' : Settings} (h : s.verbosity ≤ s'.verbosity) :
    (Log.Level.ofFlags s'.verbose s'.debug).number ≤ (Log.Level.ofFlags s.verbose s.debug).number := by
  unfold verbosity at h
  revert h
  cases s.verbose <;> cases s.debug <;> cases s'.verbose <;> cases s'.debug <;> decide

end Settings

/-! ## Taking flags -/

namespace Settings

variable (s : Settings) (verbose debug : Bool)

theorem take_raise (option : Switch) :
    (s.raise verbose debug).take option = (s.take option).map fun s => s.raise verbose debug := by
  cases option <;> simp [take, raise, Except.map]

theorem takeValue_raise (value : Given) (option : Switch) :
    (s.raise verbose debug).takeValue value option =
      (s.takeValue value option).map fun s => s.raise verbose debug := by
  cases option with
  | formula => by_cases h : s.input.isSome <;> simp [takeValue, raise, h, Except.map]
  | input => by_cases h : s.formula.isSome <;> simp [takeValue, raise, h, Except.map]
  | mapping | type | help | explain | json | listTypes | verbose | debug => rfl

theorem takeAll_raise (options : List Switch) :
    (s.raise verbose debug).takeAll options =
      (s.takeAll options).map fun s => s.raise verbose debug := by
  induction options generalizing s with
  | nil => rfl
  | cons option options ih =>
      rw [takeAll, takeAll, take_raise]
      cases s.take option with
      | error e => rfl
      | ok next => exact ih next

end Settings

namespace Progress

variable (p : Progress) (verbose debug : Bool)

def raise : Progress :=
  { p with settings := p.settings.raise verbose debug }

theorem addExtra_raise (text : String) :
    (p.raise verbose debug).addExtra text = (p.addExtra text).raise verbose debug :=
  rfl

theorem advance_raise (options : List Switch) :
    (p.raise verbose debug).advance options =
      (p.advance options).map fun p => p.raise verbose debug := by
  simp only [advance, raise, Settings.takeAll_raise]
  cases p.settings.takeAll options <;> rfl

theorem advanceValue_raise (options : List Switch) (option : Switch) (value : Given) :
    (p.raise verbose debug).advanceValue options option value =
      (p.advanceValue options option value).map fun p => p.raise verbose debug := by
  rw [advanceValue, advanceValue, advance_raise]
  cases p.advance options with
  | error e => rfl
  | ok next =>
      simp only [Except.map, raise, Settings.takeValue_raise]
      cases next.settings.takeValue value option <;> rfl

end Progress

/-- Flags that are set before change nothing else that the words ask for. -/
theorem takeWords_raise (p : Progress) (verbose debug : Bool) (ws : List Word) :
    takeWords (p.raise verbose debug) ws =
      (takeWords p ws).map fun p => p.raise verbose debug := by
  -- Both sides go the same way through the words, since no choice of a branch depends on the flags.
  fun_induction takeWords p ws with
  | case1 p => rfl
  | case2 p w ws e hparts => simp [takeWords, hparts, Except.map]
  | case3 p w ws options text hparts e hadvance =>
      simp [takeWords, hparts, Progress.addExtra_raise, Progress.advance_raise, hadvance, Except.map]
  | case4 p w ws options text hparts mid hadvance ih =>
      rw [takeWords, hparts]
      simp only [Progress.addExtra_raise, Progress.advance_raise, hadvance]
      exact ih
  | case5 p w ws options option value hparts e hadvance =>
      simp [takeWords, hparts, Progress.advanceValue_raise, hadvance, Except.map]
  | case6 p w ws options option value hparts mid hadvance ih =>
      rw [takeWords, hparts]
      simp only [Progress.advanceValue_raise, hadvance]
      exact ih
  | case7 p w options option hparts hvalue value ws e hadvance =>
      simp [takeWords, hparts, hvalue, Progress.advanceValue_raise, hadvance, Except.map]
  | case8 p w options option hparts hvalue value ws mid hadvance ih =>
      rw [takeWords, hparts]
      simp only [hvalue, Progress.advanceValue_raise, hadvance, if_true]
      exact ih
  | case9 p w ws options option hparts hvalue hplain =>
      rw [takeWords, hparts]
      simp only [hvalue, if_true]
      cases ws with
      | nil => rfl
      | cons next ws =>
          cases next with
          | plain value => exact absurd rfl (hplain value ws)
          | short | long | unknown => rfl
  | case10 p w ws options option hparts hvalue e hadvance =>
      simp [takeWords, hparts, hvalue, Progress.advance_raise, hadvance, Except.map]
  | case11 p w ws options option hparts hvalue mid hadvance ih =>
      rw [takeWords, hparts]
      simp only [hvalue, Progress.advance_raise, hadvance]
      exact ih

/-- A word for flags in front of arguments adds the flags to what they ask for. -/
theorem parseArguments_flag {text : String} {w : Word} {option : Switch} {verbose debug : Bool}
    (htext : text ≠ "--") (hword : word text = .ok w) (hparts : w.parts = .ok ([], .bare option))
    (hvalue : option.takesValue = false)
    (htake : ({} : Settings).take option = .ok (Settings.raise {} verbose debug))
    (arguments : List String) :
    parseArguments (text :: arguments) =
      (parseArguments arguments).map fun s => s.raise verbose debug := by
  simp only [parseArguments, splitWords, htext, if_false, hword]
  cases splitWords arguments with
  | error e => rfl
  | ok split =>
      obtain ⟨words, behind⟩ := split
      have hstart : (⟨{}, []⟩ : Progress).advance [option] =
          .ok (Progress.raise ⟨{}, []⟩ verbose debug) := by
        simp [Progress.advance, Settings.takeAll, htake, Progress.raise]
      have htakeWords : takeWords ⟨{}, []⟩ (w :: words) =
          (takeWords ⟨{}, []⟩ words).map fun p => p.raise verbose debug := by
        rw [takeWords, hparts]
        simp only [hvalue, List.nil_append, hstart]
        exact takeWords_raise _ verbose debug words
      simp only [htakeWords]
      cases takeWords ⟨{}, []⟩ words with
      | error e => rfl
      | ok p =>
          simp only [Except.map, Progress.raise]
          split <;> rfl

variable {arguments : List String} {settings : Settings}

theorem parseArguments_verbose (h : parseArguments arguments = .ok settings) :
    parseArguments ("-v" :: arguments) = .ok { settings with verbose := true } := by
  have hword : word "-v" = .ok (.short .verbose none) := by decide
  have htake : ({} : Settings).take .verbose = .ok (Settings.raise {} true false) := rfl
  rw [parseArguments_flag (by decide) hword rfl rfl htake, h]
  simp [Except.map, Settings.raise]

theorem parseArguments_debug (h : parseArguments arguments = .ok settings) :
    parseArguments ("--debug" :: arguments) = .ok { settings with debug := true } := by
  have hword : word "--debug" = .ok (.long .debug none) := by decide
  have htake : ({} : Settings).take .debug = .ok (Settings.raise {} false true) := rfl
  rw [parseArguments_flag (by decide) hword rfl rfl htake, h]
  simp [Except.map, Settings.raise]

/-! ## What a run prints -/

theorem LoadError.stdout_session [Host] (e : LoadError) : e.session.stdout = "" := by
  cases e with
  | pairs e => rfl
  | noPair => rfl
  | file e =>
      cases e with
      | unreadable error => cases error <;> rfl
      | notFound | unopened | unexamined | undecodable | notObject | entry => rfl

theorem FormulaError.stdout_session (e : FormulaError) : e.session.stdout = "" := by
  cases e <;> rfl

theorem stdout_of_loadFormula {world : World} {s : Session}
    (h : loadFormula world settings = .error s) : s.stdout = "" := by
  revert h
  fun_cases loadFormula world settings with
  | case1 | case4 | case5 => exact nofun
  | case2 | case6 | case7 =>
      rintro ⟨⟩
      rfl
  | case3 given hinput hformula path e herror =>
      rintro ⟨⟩
      exact e.stdout_session

/-- A run that prints the formula, and gives up over a report that the standard output does not
take. -/
inductive BreaksOff [Host] (settings : Settings) (world : World) : String → Prop where
  | intro {types given text} : settings.listTypes = false → settings.json = false →
      settings.explain = true → (loadTypes world settings).1 = .ok types →
      loadFormula world settings = .ok given →
      report types.declared (convert types.declared given.toText) = .ok text →
      world.stdout.Takes (convert types.declared given.toText).formula → ¬world.stdout.Takes text →
      BreaksOff settings world (convert types.declared given.toText).formula

theorem BreaksOff.session_eq [Host] {world : World} {formula : String}
    (h : BreaksOff settings world formula) :
    (session settings world).exit = .inputError ∧
      (session settings world).stdout = formula ++ "\n\n" := by
  obtain @⟨types, given, text, hlist, hjson, hexplain, htypes, hgiven, hreport, hformula, htext⟩ := h
  have hnonempty : text.isEmpty = false := by
    by_contra hempty
    obtain rfl : text = "" := by simpa using hempty
    exact htext world.stdout.takes_empty
  have hblank := StandardOutput.fault?_eq_none_iff.mpr world.stdout.takes_empty
  rw [← StandardOutput.fault?_eq_none_iff] at hformula htext
  obtain ⟨fault, hfault⟩ := Option.ne_none_iff_exists'.mp htext
  have hprint : printAll world.stdout
      (printouts settings types.declared (convert types.declared given.toText)) =
        ((convert types.declared given.toText).formula ++ "\n\n", some (.unencodable fault)) := by
    simp [printouts, explanation, hjson, hexplain, hreport, hnonempty, printAll, hformula, hblank,
      hfault, String.append_assoc]
  rw [session, if_neg (by simp [hlist]), mainSession]
  rcases hload : loadTypes world settings with ⟨loaded, log⟩
  obtain rfl : loaded = .ok types := by rw [← htypes, hload]
  rw [convert] at hprint
  simp only [hgiven, convertSession, hprint]
  exact ⟨rfl, rfl⟩

/-- A conversion that gave up printed nothing, or only the report could not be printed. -/
theorem convertSession_prints [Host] (settings : Settings) (stdout : StandardOutput)
    (types : Property.Types) (given : Given) :
    let s := convertSession settings stdout types given
    s.stdout = "" ∨ s.exit = .ok ∨ s.exit = .conversionErrors ∨
      settings.json = false ∧ settings.explain = true ∧
        stdout.Takes (convert types.declared given.toText).formula ∧
        ∃ text, report types.declared (convert types.declared given.toText) = .ok text ∧
          ¬stdout.Takes text := by
  intro s
  obtain ⟨texts, htexts, hends⟩ := convertSession_ends settings stdout types given
  obtain ⟨-, hexit, -⟩ | ⟨front, bad, back, rfl, hfront, hbad, -, hstdout⟩ := hends
  · right
    rw [hexit]
    split <;> simp
  · -- Nothing was printed unless other texts stand in front of the one that is not taken.
    cases front with
    | nil => exact .inl hstdout
    | cons first front =>
        obtain ⟨text, hsingle⟩ | ⟨hjson, hexplain, text, hreport, hthree⟩ :=
          printouts_convert settings types.declared types.declared given.toText
        · rw [htexts] at hsingle
          simp at hsingle
        · have hsplit : first :: (front ++ bad :: back) =
              [(convert types.declared given.toText).formula, "", text] := by
            rw [htexts] at hthree
            exact List.map_injective_iff.mpr (fun _ _ => Except.ok.inj) hthree
          obtain ⟨rfl, hrest⟩ := List.cons.inj hsplit
          have hformula := hfront _ List.mem_cons_self
          obtain rfl : bad = text := by
            cases front with
            | nil =>
                obtain ⟨rfl, -⟩ := List.cons.inj hrest
                exact absurd stdout.takes_empty hbad
            | cons second front =>
                cases front with
                | nil => simp_all
                | cons third front => simp at hrest
          exact .inr (.inr (.inr ⟨hjson, hexplain, hformula, bad, hreport, hbad⟩))

/-- A session that gave up printed nothing, or broke off. -/
theorem session_prints [Host] (settings : Settings) (world : World) :
    (session settings world).stdout = "" ∨ (session settings world).exit = .ok ∨
      (session settings world).exit = .conversionErrors ∨
      ∃ formula, BreaksOff settings world formula := by
  by_cases hlist : settings.listTypes
  · exact .inr (.inl (by rw [session, if_pos hlist]))
  · rw [session, if_neg hlist, mainSession]
    rcases hload : loadTypes world settings with ⟨e | types, log⟩
    · exact .inl e.stdout_session
    · cases hformula : loadFormula world settings with
      | error s =>
          have hempty : s.stdout = "" := stdout_of_loadFormula hformula
          exact .inl hempty
      | ok formula =>
          obtain hempty | hok | herrors | ⟨hjson, hexplain, htakes, text, hreport, htext⟩ :=
            convertSession_prints settings world.stdout types formula
          · exact .inl hempty
          · exact .inr (.inl hok)
          · exact .inr (.inr (.inl herrors))
          · exact .inr (.inr (.inr ⟨_, .intro (by simpa using hlist) hjson hexplain
              (by rw [hload]) hformula hreport htakes htext⟩))

theorem run_of_parse (h : parseArguments arguments = .ok settings) (world : World) :
    let _ := world.host (settings.standIns world)
    run arguments world = ⟨(session settings world).exit.code,
      Text.points (session settings world).stdout,
      Text.escapeSurrogates (String.join ((settings.records world).map Log.Record.line))⟩ := by
  rw [run, h]
  rfl

theorem Settings.exists_of_quiet_eq {changed : Settings} (h : changed.quiet = settings.quiet) :
    ∃ verbose debug, changed = { settings with verbose := verbose, debug := debug } := by
  refine ⟨changed.verbose, changed.debug, ?_⟩
  obtain ⟨_, _, _, _, _, _, _, _, _⟩ := changed
  simpa [quiet] using h

end CommandLine

end FormulaUpgrade
