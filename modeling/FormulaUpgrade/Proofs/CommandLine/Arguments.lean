import FormulaUpgrade.CommandLine.Arguments

/-! # A formula and an input file exclude each other -/

namespace FormulaUpgrade.CommandLine

/-- Settings with a formula or with an input file, but not with both. -/
def Settings.Exclusive (s : Settings) : Prop :=
  s.formula = none ∨ s.input = none

namespace Settings.Exclusive

variable {s next : Settings}

theorem take {option : Switch} (h : s.Exclusive) (htake : s.take option = .ok next) :
    next.Exclusive := by
  cases option with
  | help => cases htake
  | explain | json | listTypes | verbose | debug | formula | input | mapping | type =>
      obtain rfl := Except.ok.inj htake
      exact h

theorem takeValue {value : Given} {option : Switch} (h : s.Exclusive)
    (htake : s.takeValue value option = .ok next) : next.Exclusive := by
  cases option with
  | formula =>
      rw [Settings.takeValue] at htake
      split at htake
      · cases htake
      · obtain rfl := Except.ok.inj htake
        exact .inr (by simpa using ‹¬s.input.isSome›)
  | input =>
      rw [Settings.takeValue] at htake
      split at htake
      · cases htake
      · obtain rfl := Except.ok.inj htake
        exact .inl (by simpa using ‹¬s.formula.isSome›)
  | mapping | type | help | explain | json | listTypes | verbose | debug =>
      obtain rfl := Except.ok.inj htake
      exact h

theorem takeAll {options : List Switch} (h : s.Exclusive)
    (htake : s.takeAll options = .ok next) : next.Exclusive := by
  induction options generalizing s with
  | nil =>
      obtain rfl := Except.ok.inj htake
      exact h
  | cons option options ih =>
      rw [Settings.takeAll] at htake
      cases hstep : s.take option with
      | error e => simp [hstep] at htake
      | ok mid =>
          rw [hstep] at htake
          exact ih (h.take hstep) htake

end Settings.Exclusive

variable {p next : Progress}

theorem Progress.advance_exclusive {options : List Switch} (h : p.settings.Exclusive)
    (hadvance : p.advance options = .ok next) : next.settings.Exclusive := by
  rw [advance] at hadvance
  cases htake : p.settings.takeAll options with
  | error e => simp [htake] at hadvance
  | ok s =>
      rw [htake] at hadvance
      obtain rfl := Except.ok.inj hadvance
      exact h.takeAll htake

theorem Progress.advanceValue_exclusive {options : List Switch} {option : Switch} {value : Given}
    (h : p.settings.Exclusive) (hadvance : p.advanceValue options option value = .ok next) :
    next.settings.Exclusive := by
  rw [advanceValue] at hadvance
  cases hmid : p.advance options with
  | error e => simp [hmid] at hadvance
  | ok mid =>
      simp only [hmid] at hadvance
      cases htake : mid.settings.takeValue value option with
      | error e => simp [htake] at hadvance
      | ok s =>
          rw [htake] at hadvance
          obtain rfl := Except.ok.inj hadvance
          exact (advance_exclusive h hmid).takeValue htake

/-- Every word is taken by one of the two steps above, or only adds a text that is no option. -/
theorem takeWords_exclusive {ws : List Word} (h : p.settings.Exclusive)
    (htake : takeWords p ws = .ok next) : next.settings.Exclusive := by
  fun_induction takeWords p ws with
  | case1 p =>
      obtain rfl := Except.ok.inj htake
      exact h
  | case4 p w ws options text hparts mid hmid ih =>
      have hextra : (p.addExtra text).settings.Exclusive := h
      exact ih (Progress.advance_exclusive hextra hmid) htake
  | case6 p w ws options option value hparts mid hmid ih =>
      exact ih (Progress.advanceValue_exclusive h hmid) htake
  | case8 p w options option hparts hvalue value ws mid hmid ih =>
      exact ih (Progress.advanceValue_exclusive h hmid) htake
  | case11 p w ws options option hparts hvalue mid hmid ih =>
      exact ih (Progress.advance_exclusive h hmid) htake
  | case2 | case3 | case5 | case7 | case9 | case10 => cases htake

theorem parseArguments_exclusive {arguments : List String} {s : Settings}
    (h : parseArguments arguments = .ok s) : s.Exclusive := by
  rw [parseArguments] at h
  cases hwords : splitWords arguments with
  | error e => simp [hwords] at h
  | ok split =>
      obtain ⟨words, behind⟩ := split
      simp only [hwords] at h
      cases htake : takeWords ⟨{}, []⟩ words with
      | error e => simp [htake] at h
      | ok p =>
          simp only [htake] at h
          have hexclusive := takeWords_exclusive (.inl rfl) htake
          split at h
          · obtain rfl := Except.ok.inj h
            exact hexclusive
          · cases h

end FormulaUpgrade.CommandLine
