import BarReplay.Proofs.Replay.Failure
import BarReplay.Proofs.Settings.Agreement
import BarReplay.Settings.Ini
import Mathlib.Data.List.DropRight

/-!
# The terms of a run that settings give

The capital of a run is looked at through one reader and taken through another: the check trims what
is written and refuses what is no number, and the terms take the number under the key and fall back
to a standard in silence. For settings in sections the two agree, because what an entry stores has
been trimmed when it was written down (`Ini.trim_of_lookup?`); so the standard is taken only where
nothing is written (`Ini.float_eq_getD`).

Terms that settings give are therefore those that were checked, and with an accepted strategy they
are sound. Whatever is wrong with the settings is seen before the run, and a run can find fault with
nothing but its bars.
-/

namespace BarReplay

/-! ### What is written under a key -/

namespace Text

/-- A text starts with no blank if it is the beginning of one that does not. -/
theorem skipBlank_eq_self_of_prefix {cs ds : List Char} (hhead : ds <+: cs)
    (h : skipBlank cs = cs) : skipBlank ds = ds := by
  rw [skipBlank, List.dropWhile_eq_self_iff] at h ⊢
  intro hlength
  rw [hhead.getElem hlength]
  exact h (Nat.lt_of_lt_of_le hlength hhead.length_le)

/-- A trimmed text has no blanks at either end. -/
theorem trim_trim (cs : List Char) : trim (trim cs) = trim cs := by
  have hstart : skipBlank (trim cs) = trim cs := by
    refine skipBlank_eq_self_of_prefix (List.rdropWhile_prefix isBlank (skipBlank cs)) ?_
    exact List.dropWhile_idempotent isBlank cs
  calc trim (trim cs)
      = (skipBlank (trim cs)).rdropWhile isBlank := rfl
    _ = (trim cs).rdropWhile isBlank := by rw [hstart]
    _ = trim cs := List.rdropWhile_idempotent isBlank (skipBlank cs)

end Text

namespace Settings

/-- The number under a key: the one that is written there, or a default where nothing is. -/
inductive Gives (settings : Settings) (block key : String) (default : Float) : Float → Prop where
  | missing (absent : settings.text? block key = none) : settings.Gives block key default default
  | blank {text : String} (written : settings.text? block key = some text)
      (blank : Text.trim text.toList = []) : settings.Gives block key default default
  | number {text : String} {x : Float} (written : settings.text? block key = some text)
      (reads : Decimal.readFloat? (Text.trim text.toList) = some x) :
      settings.Gives block key default x

variable {settings : Settings} {block key : String}

/-- What passes as a number is the one written. -/
theorem gives_of_optionalFloat {x : Option Float} (h : settings.optionalFloat block key = .ok x)
    (default : Float) : settings.Gives block key default (x.getD default) := by
  unfold optionalFloat at h
  rcases htext : settings.text? block key with - | text <;> simp only [htext] at h
  · obtain rfl := Except.ok.inj h
    exact .missing htext
  rcases htrim : Text.trim text.toList with - | ⟨c, cs⟩ <;> simp only [htrim] at h
  · obtain rfl := Except.ok.inj h
    exact .blank htext htrim
  rcases hread : Decimal.readFloat? (c :: cs) with - | a <;> simp only [hread] at h
  · cases h
  · obtain rfl := Except.ok.inj h
    exact .number htext (htrim ▸ hread)

end Settings

/-! ### Settings in sections -/

namespace Ini

/-- The value of an entry has been trimmed. -/
theorem trim_of_entry {block line : List Char} {e : Entry} (h : entry block line = .ok e) :
    ∀ value ∈ e.value, Text.trim value = value := by
  unfold entry at h
  dsimp only at h
  split at h
  · obtain rfl := Except.ok.inj h
    simp
  · split at h
    · cases h
    · obtain rfl := Except.ok.inj h
      simp [Text.trim_trim]

theorem trim_of_mem_entriesFrom {number : Nat} {block : List Char} {lines : List (List Char)}
    {es : List Entry} (h : entriesFrom number block lines = .ok es) :
    ∀ e ∈ es, ∀ value ∈ e.value, Text.trim value = value := by
  induction lines generalizing number block es with
  | nil =>
    obtain rfl := Except.ok.inj h
    simp
  | cons line rest ih =>
    rw [entriesFrom] at h
    split at h
    · exact ih h
    · split at h
      · exact ih h
      · cases h
    · obtain ⟨e, he, h⟩ := except_bind_eq_ok_iff.1 h
      obtain ⟨more, hmore, h⟩ := except_bind_eq_ok_iff.1 h
      obtain rfl := Except.ok.inj h
      exact List.forall_mem_cons.2
        ⟨trim_of_entry (except_mapError_eq_ok_iff.1 he), ih hmore⟩

/-- What is found under a key has been trimmed. -/
theorem trim_of_lookup? {text : String} {es : List Entry} (h : entries text = .ok es)
    {block key : String} {value : List Char} (hvalue : lookup? es block key = some value) :
    Text.trim value = value := by
  obtain ⟨e, he, hvalue⟩ := Option.bind_eq_some_iff.1 hvalue
  exact trim_of_mem_entriesFrom h e (List.mem_reverse.1 (List.mem_of_find?_eq_some he)) value hvalue

theorem parse_eq_ok_iff {text : String} {settings : Settings} :
    parse text = .ok settings ↔ ∃ es, entries text = .ok es ∧ toSettings es = settings := by
  rw [parse]
  rcases entries text with fault | es <;> simp [Except.map]

theorem readFloat?_nil : Decimal.readFloat? [] = none := by
  decide

/-- The reader that falls back in silence gives what the reader that refuses gives. -/
theorem float_eq_getD {text : String} {settings : Settings} (h : parse text = .ok settings)
    {block key : String} {x : Option Float} (hx : settings.optionalFloat block key = .ok x)
    (default : Float) : settings.float block key default = x.getD default := by
  obtain ⟨es, hes, rfl⟩ := parse_eq_ok_iff.1 h
  have hfloat : (toSettings es).float block key default =
      ((lookup? es block key).bind Decimal.readFloat?).getD default := rfl
  have htext : (toSettings es).text? block key = (lookup? es block key).map String.ofList := rfl
  rw [hfloat]
  rw [Settings.optionalFloat, htext] at hx
  rcases hvalue : lookup? es block key with - | value
  · rw [hvalue] at hx
    obtain rfl := Except.ok.inj hx
    rfl
  · rw [hvalue, Option.map_some] at hx
    dsimp only at hx
    rw [String.toList_ofList, trim_of_lookup? hes hvalue] at hx
    rw [Option.bind_some]
    rcases value with - | ⟨c, cs⟩
    · obtain rfl := Except.ok.inj hx
      rw [readFloat?_nil]
    · dsimp only at hx
      rcases hread : Decimal.readFloat? (c :: cs) with - | a <;> rw [hread] at hx
      · cases hx
      · rw [Except.ok.inj hx]

end Ini

/-! ### Sound terms -/

namespace Settings

variable {settings : Settings} {terms : Terms Float}

/-- The standard capital can be run with. -/
theorem isNonNegative_standardCapital : isNonNegative standardCapital = true := by
  decide +kernel

/-- The terms that settings give were checked: the three numbers are written down as numbers that
are zero or more, or are not written down. -/
theorem terms_eq_ok_iff : settings.terms = .ok terms ↔
    (∃ x, settings.optionalFloat "backtest" "initial_capital" = .ok x ∧
      ∀ a ∈ x, isNonNegative a = true) ∧
    (settings.optionalFloat "backtest" "commission" = .ok terms.commission ∧
      ∀ a ∈ terms.commission, isNonNegative a = true) ∧
    (settings.optionalFloat "backtest" "slippage" = .ok terms.slippage ∧
      ∀ a ∈ terms.slippage, isNonNegative a = true) ∧
    terms.capital = settings.float "backtest" "initial_capital" standardCapital := by
  simp only [Settings.terms, checkTerms, except_bind_eq_ok_iff, Unique.exists_iff,
    PUnit.default_eq_unit, checkNonNegative_eq_ok_iff]
  constructor
  · rintro ⟨⟨hcapital, ⟨c, hc, hc'⟩, l, hl, hl'⟩, commission, hcommission, slippage, hslippage,
      hterms⟩
    obtain rfl := Except.ok.inj hterms
    obtain rfl := Except.ok.inj (hc.symm.trans hcommission)
    obtain rfl := Except.ok.inj (hl.symm.trans hslippage)
    exact ⟨hcapital, ⟨hc, hc'⟩, ⟨hl, hl'⟩, rfl⟩
  · obtain ⟨capital, commission, slippage⟩ := terms
    rintro ⟨hcapital, ⟨hcommission, hc⟩, ⟨hslippage, hs⟩, rfl⟩
    exact ⟨⟨hcapital, ⟨_, hcommission, hc⟩, _, hslippage, hs⟩, _, hcommission, _, hslippage, rfl⟩

/-- Terms that settings give are sound for an accepted strategy if their capital is the number that
was checked. -/
theorem sound_of_terms {x : Option Float} {s : Strategy Float} (h : settings.terms = .ok terms)
    (hx : settings.optionalFloat "backtest" "initial_capital" = .ok x)
    (hcapital : terms.capital = x.getD standardCapital) (hs : s.Accepted) : terms.Sound s := by
  obtain ⟨⟨a, ha, hchecked⟩, ⟨-, hcommission⟩, ⟨-, hslippage⟩, -⟩ := terms_eq_ok_iff.1 h
  obtain rfl : a = x := Except.ok.inj (ha.symm.trans hx)
  refine ⟨?_, ?_, ?_⟩
  · rw [hcapital]
    exact (getD_passes_iff isNonNegative_standardCapital).2 hchecked
  · exact (getD_passes_iff hs.costs.1).2 hcommission
  · exact (getD_passes_iff hs.costs.2).2 hslippage

end Settings

/-- Under sound terms a run succeeds or finds fault with its bars. -/
theorem Strategy.run_of_soundTerms {α : Type} [Arithmetic α] {s : Strategy α} {terms : Terms α}
    (h : terms.Sound s) (bars : List (Bar α)) :
    (∃ o, s.run terms bars = .ok o) ∨ s.run terms bars = .error .noBars ∨
      ∃ i date fault, s.run terms bars = .error (.bar i date fault) := by
  obtain ⟨hcapital, hcommission, hslippage⟩ := Terms.sound_iff.1 h
  rcases hrun : s.run terms bars with e | o
  · right
    cases run_eq_error_iff_firstFlaw.1 hrun with
    | capital bad => exact absurd hcapital bad
    | commission good bad => exact absurd hcommission bad
    | slippage good bad => exact absurd hslippage bad
    | noBars good bad => exact .inl rfl
    | bar good bad first => exact .inr ⟨_, _, _, rfl⟩
  · exact .inl ⟨o, rfl⟩

/-- **Faulty settings are never found in the middle of a run.** Settings in sections that give the
terms of a run give it the capital that is written in them, or the standard where none is; and a run
of an accepted strategy under these terms succeeds, or there are no bars, or one of them is at
fault. -/
theorem Ini.run_blames_bars {text : String} {settings : Settings} {terms : Terms Float}
    {s : Strategy Float} (hsettings : parse text = .ok settings)
    (hterms : settings.terms = .ok terms) (hs : s.Accepted) :
    settings.Gives "backtest" "initial_capital" Settings.standardCapital terms.capital ∧
      ∀ bars : List (Bar Float), (∃ o, s.run terms bars = .ok o) ∨
        s.run terms bars = .error .noBars ∨
        ∃ i date fault, s.run terms bars = .error (.bar i date fault) := by
  obtain ⟨⟨x, hx, -⟩, -, -, hfloat⟩ := Settings.terms_eq_ok_iff.1 hterms
  have hcapital : terms.capital = x.getD Settings.standardCapital :=
    hfloat.trans (float_eq_getD hsettings hx _)
  refine ⟨hcapital ▸ Settings.gives_of_optionalFloat hx _, ?_⟩
  exact Strategy.run_of_soundTerms (Settings.sound_of_terms hterms hx hcapital hs)

namespace Sample

/-- Settings for a run, with a comment and with nothing written for the slippage. -/
def runText : String :=
  "[Backtest]\nInitial_Capital = 2.5e3 ; to start with\nslippage =\n"

/-- What the text says. -/
def runSettings : Settings :=
  Ini.toSettings
    [⟨"backtest".toList, "initial_capital".toList, some "2.5e3".toList⟩,
      ⟨"backtest".toList, "slippage".toList, some []⟩]

/-- A strategy without rules. -/
def restingStrategy : Strategy Float :=
  { name := "Unnamed"
    description := ""
    entryRules := []
    exitRules := []
    stopLoss := none
    takeProfit := none
    fraction := 0.2
    costs := .standard }

end Sample

/-- The sample settings give a capital of 2500, with which a run can fail only for its bars. -/
theorem Ini.sample_run_blames_bars :
    parse Sample.runText = .ok Sample.runSettings ∧
      Sample.runSettings.terms = .ok ⟨2500, none, none⟩ ∧ Sample.restingStrategy.Accepted ∧
      Sample.runSettings.Gives "backtest" "initial_capital" Settings.standardCapital 2500 ∧
      ∀ bars, (∃ o, Sample.restingStrategy.run ⟨2500, none, none⟩ bars = .ok o) ∨
        Sample.restingStrategy.run ⟨2500, none, none⟩ bars = .error .noBars ∨
        ∃ i date fault,
          Sample.restingStrategy.run ⟨2500, none, none⟩ bars = .error (.bar i date fault) := by
  have hsettings : parse Sample.runText = .ok Sample.runSettings := rfl
  have hterms : Sample.runSettings.terms = .ok ⟨2500, none, none⟩ := by
    have hcapital : Sample.runSettings.optionalFloat "backtest" "initial_capital" =
        .ok (some 2500) := by decide +kernel
    have hfloat : Sample.runSettings.float "backtest" "initial_capital" Settings.standardCapital =
        2500 := float_eq_getD hsettings hcapital _
    refine Settings.terms_eq_ok_iff.2
      ⟨⟨some 2500, hcapital, fun a ha ↦ ?_⟩, ⟨rfl, by simp⟩, ⟨rfl, by simp⟩, hfloat.symm⟩
    obtain rfl : 2500 = a := Option.some.inj ha
    decide +kernel
  have hs : Sample.restingStrategy.Accepted := ⟨{}, rfl⟩
  obtain ⟨hgives, hruns⟩ := run_blames_bars hsettings hterms hs
  exact ⟨hsettings, hterms, hs, hgives, hruns⟩

end BarReplay
