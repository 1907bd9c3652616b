import FormulaUpgrade.CommandLine.Session
import FormulaUpgrade.Proofs.Conversion.Explanation

/-! # What a run prints

The texts for a result are printed one after the other. A strict standard output takes no surrogates:
at the first text with one the run gives up, and what was printed before stays.
-/

namespace FormulaUpgrade

open Property Conversion

theorem Text.encodeFaultFrom?_eq_none_iff [Host] {pos : Nat} {cs : List Char} :
    encodeFaultFrom? pos cs = none ↔ ∀ c ∈ cs, surrogate? c = none := by
  induction cs generalizing pos with
  | nil => simp [encodeFaultFrom?]
  | cons c cs ih =>
      rw [encodeFaultFrom?, List.forall_mem_cons]
      cases hc : surrogate? c with
      | none => simpa using ih
      | some surrogate => simp

namespace CommandLine

/-! ## Texts -/

/-- A strict standard output takes a text without surrogates, a lenient one takes every text. -/
def StandardOutput.Takes [Host] (stdout : StandardOutput) (text : String) : Prop :=
  stdout = .strict → ∀ c ∈ text.toList, Text.surrogate? c = none

theorem StandardOutput.takes_empty [Host] (stdout : StandardOutput) : stdout.Takes "" := by
  simp [Takes]

theorem StandardOutput.fault?_eq_none_iff [Host] {stdout : StandardOutput} {text : String} :
    stdout.fault? text = none ↔ stdout.Takes text := by
  cases stdout with
  | strict => simp [fault?, Takes, Text.encodeFault?, Text.encodeFaultFrom?_eq_none_iff]
  | lenient => simp [fault?, Takes]

/-- Texts on lines of their own. -/
def printed (texts : List String) : String :=
  String.join (texts.map (· ++ "\n"))

theorem printed_cons (text : String) (texts : List String) :
    printed (text :: texts) = text ++ "\n" ++ printed texts := by
  simp [printed]

/-- All texts are printed, or those in front of the first that is not taken. -/
theorem printAll_texts [Host] (stdout : StandardOutput) (texts : List String) :
    ((∀ text ∈ texts, stdout.Takes text) ∧ printAll stdout (texts.map .ok) = (printed texts, none)) ∨
    ∃ front text back fault, texts = front ++ text :: back ∧ (∀ text ∈ front, stdout.Takes text) ∧
      ¬stdout.Takes text ∧ printAll stdout (texts.map .ok) =
        (printed front, some (.unencodable fault)) := by
  induction texts with
  | nil => exact .inl ⟨by simp, rfl⟩
  | cons text texts ih =>
      rw [List.map_cons, printAll]
      cases hfault : stdout.fault? text with
      | some fault =>
          have htext : ¬stdout.Takes text := by simp [← StandardOutput.fault?_eq_none_iff, hfault]
          exact .inr ⟨[], text, texts, fault, rfl, by simp, htext, rfl⟩
      | none =>
          have htext := StandardOutput.fault?_eq_none_iff.mp hfault
          obtain ⟨htexts, hall⟩ | ⟨front, bad, back, fault, rfl, hfront, hbad, hall⟩ := ih
          · refine .inl ⟨List.forall_mem_cons.mpr ⟨htext, htexts⟩, ?_⟩
            simp only [hall, printed_cons]
          · refine .inr ⟨text :: front, bad, back, fault, rfl,
              List.forall_mem_cons.mpr ⟨htext, hfront⟩, hbad, ?_⟩
            simp only [hall, printed_cons]

/-! ## Results -/

theorem exists_report [Host] (declared declared' : Declared) (s : String) :
    ∃ text, report declared' (convert declared s) = .ok text := by
  obtain ⟨explanations, -, hall⟩ := explainAll_of_forall fun change h =>
    explain_of_mem ((explained_convert declared s).changes change h)
  exact ⟨_, by rw [report, hall]⟩

/-- A single text is printed, or the formula and a report with an empty line between them. -/
theorem printouts_convert [Host] (settings : Settings) (declared declared' : Declared) (s : String) :
    (∃ text, printouts settings declared' (convert declared s) = [.ok text]) ∨
    settings.json = false ∧ settings.explain = true ∧
      ∃ text, report declared' (convert declared s) = .ok text ∧
        printouts settings declared' (convert declared s) =
          [.ok (convert declared s).formula, .ok "", .ok text] := by
  obtain ⟨text, hreport⟩ := exists_report declared declared' s
  rw [printouts, explanation, hreport]
  cases settings.json with
  | true => exact .inl ⟨_, rfl⟩
  | false =>
      cases settings.explain with
      | false => exact .inl ⟨_, rfl⟩
      | true =>
          by_cases htext : text.isEmpty
          · exact .inl ⟨(convert declared s).formula, by simp [htext]⟩
          · exact .inr ⟨rfl, rfl, text, rfl, by simp [htext]⟩

theorem exists_printouts [Host] (settings : Settings) (declared declared' : Declared) (s : String) :
    ∃ texts : List String, printouts settings declared' (convert declared s) = texts.map .ok := by
  obtain ⟨text, htext⟩ | ⟨-, -, text, -, htext⟩ := printouts_convert settings declared declared' s
  · exact ⟨[text], htext⟩
  · exact ⟨[_, "", text], htext⟩

/-- The end of a run that has types and a formula. -/
theorem convertSession_ends [Host] (settings : Settings) (stdout : StandardOutput) (types : Types)
    (formula : Given) :
    ∃ texts : List String,
      printouts settings types.declared (convert types.declared formula.toText) = texts.map .ok ∧
      (((∀ text ∈ texts, stdout.Takes text) ∧
        (convertSession settings stdout types formula).exit =
          (if (convert types.declared formula.toText).ok then .ok else .conversionErrors) ∧
        (convertSession settings stdout types formula).stdout = printed texts) ∨
      ∃ front text back, texts = front ++ text :: back ∧ (∀ text ∈ front, stdout.Takes text) ∧
        ¬stdout.Takes text ∧
        (convertSession settings stdout types formula).exit = .inputError ∧
        (convertSession settings stdout types formula).stdout = printed front) := by
  obtain ⟨texts, htexts⟩ := exists_printouts settings types.declared types.declared formula.toText
  refine ⟨texts, htexts, ?_⟩
  rw [convert] at htexts
  obtain ⟨htakes, hall⟩ | ⟨front, text, back, fault, hsplit, hfront, htext, hall⟩ :=
    printAll_texts stdout texts
  · refine .inl ⟨htakes, ?_, ?_⟩ <;> simp only [convertSession, htexts, hall]
    rfl
  · refine .inr ⟨front, text, back, hsplit, hfront, htext, ?_, ?_⟩ <;>
      simp only [convertSession, htexts, hall]
    rfl

end CommandLine

end FormulaUpgrade
