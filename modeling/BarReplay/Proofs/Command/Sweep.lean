import BarReplay.Proofs.Command.Sources
import BarReplay.Proofs.Command.Transcript
import BarReplay.Proofs.Replay.Sweep
import BarReplay.Proofs.Table.Rearranging

/-!
# The report files of a sweep

A sweep numbers the reports of the runs that were completed, and not those of the strategies. The
two agree because the runs are completed all together or not at all: the strategies have been
accepted before the first run, and accepted strategies fail in the same way. So the file with number
`i` holds the report on strategy `i`, or there is no file.

A sweep first loads everything (`sweepAll_eq_load`). Until it has, it can fail, but has written
nothing; after that it cannot fail, and its status says whether the runs did (`sweepAll_meets`). So
its status is zero exactly if its files hold what it needs and every run succeeds.
-/

namespace BarReplay.Command

open Job

/-! ### Numbered files -/

theorem getElem?_numbered (path : String) (index i : Nat) (texts : List String) :
    (numbered path index texts)[i]? =
      texts[i]?.map fun text ↦ (path ++ "." ++ toString (index + i), text) := by
  induction texts generalizing index i with
  | nil => rfl
  | cons text rest ih =>
    cases i with
    | zero => rfl
    | succ i =>
      rw [numbered, List.getElem?_cons_succ, ih, List.getElem?_cons_succ]
      rw [Nat.add_assoc, Nat.add_comm 1]

theorem length_numbered (path : String) (index : Nat) (texts : List String) :
    (numbered path index texts).length = texts.length := by
  induction texts generalizing index with
  | nil => rfl
  | cons text rest ih => rw [numbered, List.length_cons, ih, List.length_cons]

/-- The path of a numbered file. -/
theorem fst_of_mem_numbered {path : String} {index : Nat} {texts : List String}
    {f : String × String} (h : f ∈ numbered path index texts) :
    ∃ i, index ≤ i ∧ f.1 = path ++ "." ++ toString i := by
  obtain ⟨i, hi⟩ := List.mem_iff_getElem?.1 h
  rw [getElem?_numbered] at hi
  obtain ⟨text, -, rfl⟩ := Option.map_eq_some_iff.1 hi
  exact ⟨index + i, Nat.le_add_right _ _, rfl⟩

/-- No two numbered files have the same path. -/
theorem nodup_numbered (path : String) (index : Nat) (texts : List String) :
    ((numbered path index texts).map Prod.fst).Nodup := by
  induction texts generalizing index with
  | nil => exact List.nodup_nil
  | cons text rest ih =>
    rw [numbered, List.map_cons, List.nodup_cons]
    refine ⟨fun hmem ↦ ?_, ih (index + 1)⟩
    obtain ⟨f, hf, hpath⟩ := List.mem_map.1 hmem
    obtain ⟨i, hi, hfst⟩ := fst_of_mem_numbered hf
    rw [hfst] at hpath
    have hdigits : Nat.toDigits 10 i = Nat.toDigits 10 index := by
      simpa using congrArg String.toList hpath
    have hnumber : i = index := by
      rw [← Nat.ofDigitChars_ten_toDigits (n := i), hdigits, Nat.ofDigitChars_ten_toDigits]
    omega

/-! ### The runs of a sweep -/

namespace SweepInput

variable (input : SweepInput)

/-- The run of a strategy of the sweep. -/
def run (s : Strategy Float) : Except Error (Outcome Float) :=
  (s.run input.terms input.bars).mapError Error.ofRun

/-- The runs of the sweep, each with its strategy. -/
def runs : List (Strategy Float × Except Error (Outcome Float)) :=
  input.strategies.map fun s ↦ (s, input.run s)

/-- The texts of the reports on the completed runs. -/
def reports : List String :=
  (completed input.runs).map fun r ↦ r.2.report r.1 input.settings.spreadReports

theorem runs_eq_zip : input.runs = input.strategies.zip
    ((sweep input.strategies input.terms input.bars false).map fun r ↦
      r.mapError Error.ofRun) := by
  rw [runs, List.map_prod_left_eq_zip, sweep, List.map_map]
  rfl

end SweepInput

/-- What is left of a sweep when it has loaded its input: the runs are told of and reported. -/
def SweepInput.reportTo (input : SweepInput) (disk : Disk) (output : String) : Job Nat := do
  say sweepHeading
  input.runs.forM fun r ↦ say (sweepRow r.1 r.2)
  (numbered output 0 input.reports).forM fun f ↦ write disk f.1 f.2
  say ("\nReports written to: " ++ output ++ ".N")
  pure (sweepStatus input.runs)

section Job

variable {disk : Disk} {config data strategies output : String}

/-- A sweep loads its input and reports on it. -/
theorem sweepAll_eq_load : sweepAll disk config data strategies (some output) = (do
    say ("Loading config from " ++ config)
    let input ← need (SweepInput.load disk config data strategies)
    input.reportTo disk output) := by
  unfold sweepAll SweepInput.load
  simp only [need_bind, SweepInput.reportTo, SweepInput.reports, SweepInput.runs_eq_zip]
  rfl

/-- **A sweep fails before it has written anything, or reports on the completed runs of what it has
loaded.** -/
theorem sweepAll_meets (hdisk : ∀ i : Nat, disk.refusal? (output ++ "." ++ toString i) = none) :
    (sweepAll disk config data strategies (some output)).Meets fun result added ↦
      (∃ e, result = .error e ∧ added.written = [] ∧
        SweepInput.load disk config data strategies = .error e) ∨
      ∃ input : SweepInput, SweepInput.load disk config data strategies = .ok input ∧
        result = .ok (sweepStatus input.runs) ∧
        added.written = numbered output 0 input.reports := by
  rw [sweepAll_eq_load]
  refine (leaves_say _).meets ?_
  refine meets_need _ (fun e he ↦ .inl ⟨e, rfl, rfl, he⟩) fun input hinput ↦ ?_
  have hfiles : ∀ f ∈ numbered output 0 input.reports, disk.refusal? f.1 = none := by
    intro f hf
    obtain ⟨i, -, hpath⟩ := fst_of_mem_numbered hf
    rw [hpath]
    exact hdisk i
  obtain ⟨said, hsaid⟩ := leaves_forM_say (fun r ↦ sweepRow r.1 r.2) input.runs
  have hwritten := leaves_forM_write hfiles
  refine (leaves_say _).meets (hsaid.meets (hwritten.meets ((leaves_say _).meets (meets_pure ?_))))
  refine .inr ⟨input, hinput, rfl, ?_⟩
  simp [Transcript.append_def]

end Job

/-! ### One file for each strategy, or none -/

namespace SweepInput

variable {input : SweepInput} {disk : Disk} {config data strategies : String}

theorem LoadedFrom.accepted (h : input.LoadedFrom disk config data strategies) :
    ∀ s ∈ input.strategies, s.Accepted := by
  intro s hs
  obtain ⟨i, hi, rfl⟩ := List.getElem_of_mem hs
  have hlength : input.drafts.length = input.strategies.length := h.strategies.length_eq
  exact ⟨input.drafts[i], h.strategies.get (by omega) hi⟩

/-- If every run succeeds, there is a report on each strategy, in the order of the strategies. -/
theorem reports_eq_map {outcome : Strategy Float → Outcome Float}
    (h : ∀ s ∈ input.strategies, s.run input.terms input.bars = .ok (outcome s)) :
    input.reports = input.strategies.map fun s ↦
      (outcome s).report s input.settings.spreadReports := by
  have hcompleted : completed input.runs = input.strategies.map fun s ↦ (s, outcome s) := by
    rw [completed, runs, List.filterMap_map, ← List.filterMap_eq_map]
    refine List.filterMap_congr fun s hs ↦ ?_
    simp [run, h s hs, Except.mapError, Except.toOption]
  rw [reports, hcompleted, List.map_map]
  rfl

theorem sweepStatus_eq_zero
    (h : ∀ s ∈ input.strategies, ∃ o, s.run input.terms input.bars = .ok o) :
    sweepStatus input.runs = 0 := by
  rw [sweepStatus, List.findSome?_eq_none_iff.2, Option.getD_none]
  intro r hr
  obtain ⟨s, hs, rfl⟩ := List.mem_map.1 hr
  obtain ⟨o, ho⟩ := h s hs
  simp [run, ho, Except.mapError]

/-- If every run fails, there are no reports, and the status is that of the first. -/
theorem no_reports {e : RunError Float} (hne : input.strategies ≠ [])
    (h : ∀ s ∈ input.strategies, s.run input.terms input.bars = .error e) :
    input.reports = [] ∧ sweepStatus input.runs ≠ 0 := by
  have hrun : ∀ s ∈ input.strategies, input.run s = .error (Error.ofRun e) := by
    intro s hs
    rw [run, h s hs]
    rfl
  constructor
  · rw [reports, completed, runs, List.filterMap_map, List.map_eq_nil_iff,
      List.filterMap_eq_nil_iff]
    intro s hs
    simp [hrun s hs, Except.toOption]
  · obtain ⟨first, rest, hstrategies⟩ := List.exists_cons_of_ne_nil hne
    have hfirst : input.run first = .error (Error.ofRun e) :=
      hrun first (hstrategies ▸ List.mem_cons_self)
    have hstatus : sweepStatus input.runs = (Error.ofRun e).exitCode := by
      rw [runs, hstrategies, List.map_cons, hfirst]
      rfl
    rw [hstatus]
    exact (Error.exitCode_pos _).ne'

end SweepInput

/-- The files of a sweep line up with its strategies: there is one for each, under its number, with
the report on the run of that strategy. -/
structure SweepInput.ReportedIn (input : SweepInput) (output : String)
    (files : List (String × String)) : Prop where
  length : files.length = input.drafts.length
  distinct : (files.map Prod.fst).Nodup
  report : ∀ (i : Nat) (d : Draft), input.drafts[i]? = some d →
    ∃ (s : Strategy Float) (o : Outcome Float), d.check = .ok s ∧
      s.run input.terms input.bars = .ok o ∧
      files[i]? = some (output ++ "." ++ toString i, o.report s input.settings.spreadReports)

theorem SweepInput.reportedIn_numbered {input : SweepInput} {disk : Disk}
    {config data strategies : String} (hloaded : input.LoadedFrom disk config data strategies)
    (h : ∀ s ∈ input.strategies, ∃ o, s.run input.terms input.bars = .ok o) (output : String) :
    input.ReportedIn output (numbered output 0 input.reports) := by
  have hlength : input.drafts.length = input.strategies.length := hloaded.strategies.length_eq
  have hrun : ∀ s : Strategy Float, ∃ o, s ∈ input.strategies →
      s.run input.terms input.bars = .ok o := by
    intro s
    by_cases hs : s ∈ input.strategies
    · obtain ⟨o, ho⟩ := h s hs
      exact ⟨o, fun _ ↦ ho⟩
    · exact ⟨.ofDays [], fun hmem ↦ absurd hmem hs⟩
  choose outcome houtcome using hrun
  rw [reports_eq_map houtcome]
  refine ⟨?_, nodup_numbered _ _ _, fun i d hd ↦ ?_⟩
  · rw [length_numbered, List.length_map, hlength]
  · obtain ⟨hi, rfl⟩ := List.getElem?_eq_some_iff.1 hd
    have hi' : i < input.strategies.length := by omega
    refine ⟨input.strategies[i], outcome input.strategies[i], hloaded.strategies.get hi hi',
      houtcome _ (List.getElem_mem hi'), ?_⟩
    rw [getElem?_numbered, List.getElem?_map, List.getElem?_eq_getElem hi', Nat.zero_add]
    rfl

/-- A sweep that has loaded its input ends well if every run succeeds, and then there is a file for
each strategy; otherwise it ends badly, and there is no file. -/
theorem SweepInput.LoadedFrom.reported_or_nothing {input : SweepInput} {disk : Disk}
    {config data strategies : String} (hloaded : input.LoadedFrom disk config data strategies)
    (output : String) :
    (∀ s ∈ input.strategies, ∃ o, s.run input.terms input.bars = .ok o) ∧
        sweepStatus input.runs = 0 ∧
        input.ReportedIn output (numbered output 0 input.reports) ∨
      (¬ ∀ s ∈ input.strategies, ∃ o, s.run input.terms input.bars = .ok o) ∧
        sweepStatus input.runs ≠ 0 ∧ numbered output 0 input.reports = [] := by
  by_cases hall : ∀ s ∈ input.strategies, ∃ o, s.run input.terms input.bars = .ok o
  · exact .inl ⟨hall, sweepStatus_eq_zero hall, reportedIn_numbered hloaded hall output⟩
  · obtain ⟨e, hnone⟩ := (sweep_all_or_none hloaded.accepted).resolve_left hall
    have hne : input.strategies ≠ [] := by
      intro hempty
      rw [hempty] at hall
      exact hall nofun
    obtain ⟨hreports, hstatus⟩ := no_reports hne hnone
    refine .inr ⟨hall, hstatus, ?_⟩
    rw [hreports, numbered]

/-- **The results of a sweep line up with its report files.** The runs of accepted strategies are
each the run of its strategy, and all succeed or all fail in the same way. So a sweep that reports
to files, none of which the disk refuses, ends well exactly if its files hold what it needs and
every run succeeds. Then it has written the report on each strategy under the number of that
strategy, and nothing else; otherwise it ends with an error and has written nothing. -/
theorem sweep_lines_up :
    (∀ (strategies : List (Strategy Float)) (terms : Terms Float) (bars : List (Bar Float)),
      (∀ s ∈ strategies, s.Accepted) →
        (∀ i : Nat, (BarReplay.sweep strategies terms bars false)[i]? =
          strategies[i]?.map fun s : Strategy Float ↦ s.run terms bars) ∧
        ((∀ s ∈ strategies, ∃ o : Outcome Float, s.run terms bars = .ok o) ∨
          ∃ e : RunError Float, ∀ s ∈ strategies, s.run terms bars = .error e)) ∧
      ∀ (disk : Disk) (config data strategies output : String),
        (∀ i : Nat, disk.refusal? (output ++ "." ++ toString i) = none) →
          ∃ (status : Nat) (t : Transcript),
            (Invocation.sweep config data strategies (some output)).run disk = (status, t) ∧
              (status = 0 ↔ ∃ input : SweepInput,
                input.ReadyFrom disk config data strategies ∧
                  ∀ s ∈ input.strategies, ∃ o, s.run input.terms input.bars = .ok o) ∧
              (status = 0 ∧ (∃ input : SweepInput, input.ReadyFrom disk config data strategies ∧
                  input.ReportedIn output t.written) ∨
                status ≠ 0 ∧ t.written = []) := by
  refine ⟨fun strategies terms bars h ↦ ⟨getElem?_sweep strategies terms bars,
    sweep_all_or_none h⟩, fun disk config data strategies output hdisk ↦ ?_⟩
  simp only [← SweepInput.load_eq_ok_iff]
  have hends : (sweepAll disk config data strategies (some output)).Meets _ :=
    sweepAll_meets hdisk
  obtain ⟨result, added, hleaves, ⟨e, rfl, hwritten, hload⟩ | ⟨input, hload, rfl, hwritten⟩⟩ :=
    hends
  · have hpos : e.exitCode ≠ 0 := (Error.exitCode_pos e).ne'
    refine ⟨_, _, hleaves.finish_error, iff_of_false hpos ?_, .inr ⟨hpos, hwritten⟩⟩
    rw [hload]
    exact nofun
  · have hloaded := (SweepInput.load_eq_ok_iff.1 hload).toLoadedFrom
    refine ⟨_, _, hleaves.finish_ok, ?_⟩
    rw [hwritten]
    rcases hloaded.reported_or_nothing output with ⟨hall, hstatus, hfiles⟩ | ⟨hall, hstatus, hnone⟩
    · exact ⟨iff_of_true hstatus ⟨input, hload, hall⟩, .inl ⟨hstatus, input, hload, hfiles⟩⟩
    · refine ⟨iff_of_false hstatus ?_, .inr ⟨hstatus, hnone⟩⟩
      rintro ⟨other, hother, hruns⟩
      obtain rfl := Except.ok.inj (hload.symm.trans hother)
      exact hall hruns

namespace Sample

/-- A strategy that never trades, at a commission of its own. -/
def idle (commission : Float) : Strategy Float :=
  { name := "Idle"
    description := ""
    entryRules := []
    exitRules := []
    stopLoss := none
    takeProfit := none
    fraction := 0.2
    costs := ⟨commission, 0⟩ }

theorem idle_accepted : ∀ s ∈ [idle 0.001, idle 0.002], s.Accepted := by
  intro s hs
  rcases List.mem_pair.1 hs with rfl | rfl
  · exact ⟨{ name := "Idle", commission := 0.001, slippage := 0 }, rfl⟩
  · exact ⟨{ name := "Idle", commission := 0.002, slippage := 0 }, rfl⟩

/-- A disk with settings that set nothing, a table of two bars and a document of two strategies. -/
def sweepDisk : Disk :=
  .ofResults
    [("run.ini", .ok []), ("./days.csv", .ok Table.Sample.table),
      ("two.json", .ok ((Draft.arrayDocument "" "" "\n" twoStrategies).toList.map Char.toUInt8))]
    []

/-- A strategy of that document. -/
def standard (name : String) : Strategy Float :=
  { name := name
    description := ""
    entryRules := []
    exitRules := []
    stopLoss := none
    takeProfit := none
    fraction := Draft.standardFraction
    costs := Costs.standard }

/-- What a sweep loads from that disk. -/
def sweepInput : SweepInput :=
  { settings := .ofEntries []
    terms := ⟨Settings.standardCapital, none, none⟩
    drafts := [{}, { name := "B" }]
    strategies := [standard "Unnamed", standard "B"]
    bars := Table.Sample.bars }

theorem readyFrom_sweepDisk : sweepInput.ReadyFrom sweepDisk "run.ini" "days.csv" "two.json" where
  settings := by
    have htext : readText sweepDisk "run.ini" = .ok "" :=
      readText_of_ascii (by simp) (by simp [sweepDisk, Disk.ofResults])
    rw [loadSettings, htext]
    rfl
  terms := rfl
  drafts := by
    have htext : readText sweepDisk "two.json" =
        .ok (Draft.arrayDocument "" "" "\n" twoStrategies) :=
      readText_of_ascii ascii_two (by simp [sweepDisk, Disk.ofResults])
    have hne : twoStrategies ≠ [] := List.cons_ne_nil _ _
    rw [loadDrafts_of_document rfl htext,
      Draft.readDocument_arrayDocument rfl rfl rfl twoStrategies_read, if_neg hne,
      if_pos twoStrategies_fit]
    rfl
  strategies := .cons rfl (.cons rfl .nil)
  bars := by
    have htable : tableOf "days.csv" = .ok ("days", "./days.csv") := by decide +kernel
    refine ⟨.all, rfl, loadBars_eq_ok_iff.2
      ⟨_, _, _, _, htable, by simp [sweepDisk, Disk.ofResults], Table.Sample.readBars_table, ?_⟩⟩
    simp [sweepInput, Settings.DateRange.all]
  workers := ⟨0, rfl⟩

/-- Each strategy of that input has a run. -/
theorem exists_run_standard (name : String) :
    ∃ o, (standard name).run sweepInput.terms sweepInput.bars = .ok o := by
  have hcommission : isNonNegative Costs.standard.commission = true := by decide +kernel
  have hslippage : isNonNegative Costs.standard.slippage = true := by decide +kernel
  have hsound : sweepInput.terms.Sound (standard name) :=
    ⟨by decide +kernel, hcommission, hslippage⟩
  exact ⟨_, Strategy.run_eq_ok_iff.2 ⟨hsound, by decide +kernel, rfl⟩⟩

end Sample

/-- Two strategies at different rates fail alike on the sample bars with a fourth bar at a price of
zero. A sweep over the two strategies of a document ends well and writes the report on the first to
`out.0` and that on the second to `out.1`; on a disk that holds no file it writes none. -/
theorem sample_sweep_lines_up :
    (∃ e : RunError Float, ∀ s ∈ [Sample.idle 0.001, Sample.idle 0.002],
      s.run Sample.terms (Sample.bars.set 3 (Sample.bar 3 0 75)) = .error e) ∧
    (∃ (t : Transcript) (o o' : Outcome Float),
      (Invocation.sweep "run.ini" "days.csv" "two.json" (some "out")).run Sample.sweepDisk =
        (0, t) ∧
      (Sample.standard "Unnamed").run Sample.sweepInput.terms Sample.sweepInput.bars = .ok o ∧
      (Sample.standard "B").run Sample.sweepInput.terms Sample.sweepInput.bars = .ok o' ∧
      t.written = [("out.0", o.report (Sample.standard "Unnamed") false),
        ("out.1", o'.report (Sample.standard "B") false)]) ∧
    ∃ (status : Nat) (t : Transcript),
      (Invocation.sweep "run.ini" "days.csv" "two.json" (some "out")).run (.ofResults [] []) =
        (status, t) ∧ status ≠ 0 ∧ t.written = [] := by
  refine ⟨?_, ?_, ?_⟩
  · rcases (sweep_lines_up.1 _ Sample.terms (Sample.bars.set 3 (Sample.bar 3 0 75))
      Sample.idle_accepted).2 with hall | hnone
    · obtain ⟨o, ho⟩ := hall (Sample.idle 0.001) List.mem_cons_self
      have hprice : IsPrice (Sample.bar 3 0 75).close :=
        (Strategy.exists_run_iff_soundInput.1 ⟨o, ho⟩).prices _ (by simp [Sample.bars])
      exact absurd hprice (by decide +kernel)
    · exact hnone
  · obtain ⟨status, t, hrun, hstatus, hends⟩ :=
      sweep_lines_up.2 Sample.sweepDisk "run.ini" "days.csv" "two.json" "out" fun _ ↦ rfl
    have hzero : status = 0 := by
      refine hstatus.2 ⟨_, Sample.readyFrom_sweepDisk, fun s hs ↦ ?_⟩
      rcases List.mem_pair.1 hs with rfl | rfl
      · exact Sample.exists_run_standard _
      · exact Sample.exists_run_standard _
    subst hzero
    obtain ⟨-, input, hready, hfiles⟩ | ⟨hne, -⟩ := hends
    swap
    · exact absurd rfl hne
    -- what was loaded is what the disk holds
    obtain rfl : Sample.sweepInput = input := Sample.readyFrom_sweepDisk.unique hready
    obtain ⟨s, o, hs, ho, hfirst⟩ := hfiles.report 0 {} rfl
    obtain ⟨s', o', hs', ho', hsecond⟩ := hfiles.report 1 { name := "B" } rfl
    obtain rfl : Sample.standard "Unnamed" = s := Except.ok.inj hs
    obtain rfl : Sample.standard "B" = s' := Except.ok.inj hs'
    refine ⟨t, o, o', hrun, ho, ho', ?_⟩
    have hlength : t.written.length = 2 := hfiles.length
    obtain ⟨first, second, htwo⟩ := List.length_eq_two.1 hlength
    rw [htwo] at hfirst hsecond ⊢
    obtain rfl := Option.some.inj hfirst
    obtain rfl := Option.some.inj hsecond
    rfl
  · obtain ⟨status, t, hrun, -, ⟨-, input, hready, -⟩ | hends⟩ :=
      sweep_lines_up.2 (.ofResults [] []) "run.ini" "days.csv" "two.json" "out" fun _ ↦ rfl
    · cases hready.settings
    · exact ⟨status, t, hrun, hends⟩

end BarReplay.Command
