import BarReplay.Command.Run
import BarReplay.Proofs.Strategy.Acceptance
import BarReplay.Proofs.Strategy.Documents
import Mathlib.Data.List.Forall2

/-!
# What commands load

The settings, the bars and the strategies that a command finds in its files. A command that runs one
strategy and a command that runs several read the same documents. What they make of an array of
strategies follows from what the array is read as: the one accepts it if there is one strategy in
it, and the other runs the strategies that are written in it.

An empty array is the exception. It is read as one strategy with everything left out, so the one
command runs that strategy where it would have to refuse the document, and so does the other where
nothing would have to run.
-/

namespace BarReplay.Command

variable {disk : Disk} {path : String} {texts : List String} {ds : List Draft}

/-! ### Drafts -/

/-- The drafts of a strategy document are those that its text is read as. -/
theorem loadDrafts_of_document {text : String} (hdocument : isDocument path = true)
    (htext : readText disk path = .ok text) :
    loadDrafts disk path = (Draft.readDocument text).mapError (.document path) := by
  rw [loadDrafts, if_pos hdocument, htext]

theorem loadDraft_eq_ok_iff (h : loadDrafts disk path = .ok ds) {d : Draft} :
    loadDraft disk path = .ok d ↔ ds = [d] := by
  rw [loadDraft, h]
  match ds with
  | [] => simp [bind, Except.bind]
  | [d'] => simp [bind, Except.bind, pure, Except.pure]
  | d' :: d'' :: more => simp [bind, Except.bind]

theorem loadDraft_of_error {e : Error} (h : loadDrafts disk path = .error e) :
    loadDraft disk path = .error e := by
  rw [loadDraft, h]
  rfl

/-! ### Settings -/

/-- What a command that runs strategies reads before it comes to them. -/
structure RunSetting (disk : Disk) (config : String) (settings : Settings) (terms : Terms Float)
    (range : Settings.DateRange) : Prop where
  config : loadSettings disk config = .ok settings
  parameters : settings.terms = .ok terms
  dates : settings.dateRange = .ok range

theorem RunSetting.unique {config : String} {settings settings' : Settings}
    {terms terms' : Terms Float} {range range' : Settings.DateRange}
    (h : RunSetting disk config settings terms range)
    (h' : RunSetting disk config settings' terms' range') :
    settings = settings' ∧ terms = terms' ∧ range = range' := by
  obtain rfl := Except.ok.inj (h.config.symm.trans h'.config)
  exact ⟨rfl, Except.ok.inj (h.parameters.symm.trans h'.parameters),
    Except.ok.inj (h.dates.symm.trans h'.dates)⟩

/-! ### Bars -/

/-- A range includes the dates at which it begins and ends. -/
theorem holds_eq_decide (range : Settings.DateRange) (date : Date) : range.holds date =
    decide ((∀ d ∈ range.first, d ≤ date) ∧ ∀ d ∈ range.last, date ≤ d) := by
  obtain ⟨_ | first, _ | last⟩ := range <;> simp [Settings.DateRange.holds]

/-- The bars of a file in a range of dates are those of its table, less those before its first date
and after its last. -/
theorem fetchBars_eq_ok_iff {disk : Disk} {table : String} {range : Settings.DateRange}
    {bars : List (Bar Float)} :
    fetchBars disk table range = .ok bars ↔
      ∃ bytes all, disk.read table = .ok bytes ∧ Table.readBars bytes = .ok all ∧
        bars = all.filter fun b ↦
          (∀ d ∈ range.first, d ≤ b.date) ∧ ∀ d ∈ range.last, b.date ≤ d := by
  simp only [← holds_eq_decide]
  unfold fetchBars
  rcases hread : disk.read table with fault | bytes
  · cases fault <;> exact iff_of_false nofun fun ⟨_, _, hbytes, _⟩ ↦ nomatch hbytes
  · rcases hbars : Table.readBars bytes with fault | all
    · simp [hbars]
    · simp [hbars, eq_comm]

/-- The bars that a path means are those of its table. -/
theorem loadBars_eq_ok_iff {disk : Disk} {data : String} {range : Settings.DateRange}
    {bars : List (Bar Float)} :
    loadBars disk data range = .ok bars ↔
      ∃ symbol table bytes all, tableOf data = .ok (symbol, table) ∧
        disk.read table = .ok bytes ∧ Table.readBars bytes = .ok all ∧
        bars = all.filter fun b ↦
          (∀ d ∈ range.first, d ≤ b.date) ∧ ∀ d ∈ range.last, b.date ≤ d := by
  rw [loadBars, except_bind_eq_ok_iff, Prod.exists]
  refine exists_congr fun symbol ↦ exists_congr fun table ↦ ?_
  simp only [fetchBars_eq_ok_iff, exists_and_left]

/-! ### What a sweep loads -/

/-- Drafts that pass one by one make the strategies that they make one by one. -/
theorem mapM_check_eq_ok_iff {drafts : List Draft} {strategies : List (Strategy Float)} :
    drafts.mapM Draft.check = .ok strategies ↔
      List.Forall₂ (fun d s ↦ d.check = .ok s) drafts strategies := by
  induction drafts generalizing strategies with
  | nil =>
    rw [List.mapM_nil, List.forall₂_nil_left_iff]
    exact ⟨fun h ↦ (Except.ok.inj h).symm, fun h ↦ by rw [h]; rfl⟩
  | cons d rest ih =>
    rw [List.mapM_cons, List.forall₂_cons_left_iff, except_bind_eq_ok_iff]
    simp only [except_bind_eq_ok_iff]
    constructor
    · rintro ⟨s, hs, all, hall, hok⟩
      exact ⟨s, all, hs, ih.1 hall, (Except.ok.inj hok).symm⟩
    · rintro ⟨s, all, hs, hall, rfl⟩
      exact ⟨s, hs, all, ih.2 hall, rfl⟩

/-- What a sweep has loaded when it comes to its first run. -/
structure SweepInput where
  settings : Settings
  terms : Terms Float
  drafts : List Draft
  strategies : List (Strategy Float)
  bars : List (Bar Float)

namespace SweepInput

/-- The files that the command line names hold this input. -/
structure LoadedFrom (input : SweepInput) (disk : Disk) (config data strategies : String) :
    Prop where
  settings : loadSettings disk config = .ok input.settings
  terms : input.settings.terms = .ok input.terms
  drafts : loadDrafts disk strategies = .ok input.drafts
  strategies : List.Forall₂ (fun d s ↦ d.check = .ok s) input.drafts input.strategies
  bars : ∃ range, input.settings.dateRange = .ok range ∧
    loadBars disk data range = .ok input.bars

/-- The files hold this input, and the settings ask for a number of workers that there can be. -/
structure ReadyFrom (input : SweepInput) (disk : Disk) (config data strategies : String) : Prop
    extends input.LoadedFrom disk config data strategies where
  workers : ∃ n, input.settings.workers = .ok n

/-- The input that the files hold, or what is wrong with them first. -/
def load (disk : Disk) (config data strategies : String) : Except Error SweepInput := do
  let settings ← loadSettings disk config
  let terms ← settings.terms
  let range ← settings.dateRange
  let drafts ← loadDrafts disk strategies
  let accepted ← drafts.mapM Draft.check
  let bars ← loadBars disk data range
  let _ ← settings.workers
  pure ⟨settings, terms, drafts, accepted, bars⟩

theorem load_eq_ok_iff {input : SweepInput} {config data strategies : String} :
    load disk config data strategies = .ok input ↔
      input.ReadyFrom disk config data strategies := by
  simp only [load, except_bind_eq_ok_iff, mapM_check_eq_ok_iff]
  constructor
  · rintro ⟨settings, hsettings, terms, hterms, range, hrange, drafts, hdrafts, all, hall, bars,
      hbars, n, hworkers, hinput⟩
    obtain rfl := Except.ok.inj hinput
    exact ⟨⟨hsettings, hterms, hdrafts, hall, range, hrange, hbars⟩, n, hworkers⟩
  · intro h
    obtain ⟨range, hrange, hbars⟩ := h.bars
    obtain ⟨n, hworkers⟩ := h.workers
    exact ⟨_, h.settings, _, h.terms, range, hrange, _, h.drafts, _, h.strategies, _, hbars, n,
      hworkers, rfl⟩

theorem ReadyFrom.unique {input input' : SweepInput} {config data strategies : String}
    (h : input.ReadyFrom disk config data strategies)
    (h' : input'.ReadyFrom disk config data strategies) : input = input' :=
  Except.ok.inj ((load_eq_ok_iff.2 h).symm.trans (load_eq_ok_iff.2 h'))

end SweepInput

/-! ### Texts of ASCII characters -/

/-- The bytes of a text of ASCII characters are their code points. -/
theorem decodeFrom_ascii {cs : List Char} (h : ∀ c ∈ cs, c.toNat < 0x80) (done : Nat) :
    Text.decodeFrom done (cs.map Char.toUInt8) = .ok cs := by
  induction cs generalizing done with
  | nil => rw [List.map_nil, Text.decodeFrom]
  | cons c cs ih =>
    have hc : c.toNat < 0x80 := h c List.mem_cons_self
    have hbyte : c.toUInt8.toNat = c.toNat := Nat.mod_eq_of_lt (show c.toNat < 256 by omega)
    have hlow : c.toUInt8 < 0x80 := by
      rw [UInt8.lt_iff_toNat_lt, hbyte]
      exact hc
    have hhead : Text.decodeChar? (c.toUInt8 :: cs.map Char.toUInt8) =
        some (c, ⟨cs.map Char.toUInt8, by simp⟩) := by
      rw [Text.decodeChar?.eq_def]
      simp only [if_pos hlow, hbyte, Char.ofNat_toNat]
    rw [List.map_cons, Text.decodeFrom, hhead]
    simp only [ih fun c hc ↦ h c (List.mem_cons_of_mem _ hc)]
    rfl

/-- A file with the bytes of a text of ASCII characters is read as that text. -/
theorem readText_of_ascii {text : String} (hascii : ∀ c ∈ text.toList, c.toNat < 0x80)
    (hread : disk.read path = .ok (text.toList.map Char.toUInt8)) :
    readText disk path = .ok text := by
  have hdecode : Text.decodeString? (text.toList.map Char.toUInt8) = some text := by
    rw [Text.decodeString?, Text.decode, decodeFrom_ascii hascii]
    simp [Except.toOption]
  rw [readText, hread]
  simp [bind, Except.bind, hdecode]

/-! ### Arrays of strategies -/

/-- **An array of strategies is loaded as its strategies.** If it holds any and none is nested too
deeply, they are what a sweep runs, and there is one strategy to run if there is one in it. -/
theorem array_loads_as_list {before inside after : String} (hdocument : isDocument path = true)
    (hbefore : Json.skipGap before.toList = []) (hinside : Json.skipGap inside.toList = [])
    (hafter : Json.skipGap after.toList = [])
    (htext : readText disk path = .ok (Draft.arrayDocument before inside after texts))
    (h : List.Forall₂ Draft.ReadsAlone texts ds) :
    (texts ≠ [] → texts.all Draft.fitsInArray = true →
      loadDrafts disk path = .ok ds ∧ (∀ d, loadDraft disk path = .ok d ↔ ds = [d]) ∧
        ∀ (input : SweepInput) (config data : String),
          input.LoadedFrom disk config data path → input.drafts = ds) ∧
    (texts ≠ [] → texts.all Draft.fitsInArray = false →
      loadDrafts disk path = .error (.document path .notJson) ∧
        loadDraft disk path = .error (.document path .notJson)) ∧
    (texts = [] → loadDrafts disk path = .ok [{}] ∧ loadDraft disk path = .ok {}) := by
  have hload := loadDrafts_of_document hdocument htext
  rw [Draft.readDocument_arrayDocument hbefore hinside hafter h] at hload
  refine ⟨fun hne hfits ↦ ?_, fun hne hdeep ↦ ?_, fun hnil ↦ ?_⟩
  · rw [if_neg hne, if_pos hfits] at hload
    refine ⟨hload, fun d ↦ loadDraft_eq_ok_iff hload, fun input config data hinput ↦ ?_⟩
    exact Except.ok.inj (hinput.drafts.symm.trans hload)
  · rw [if_neg hne, if_neg (by simp [hdeep])] at hload
    exact ⟨hload, loadDraft_of_error hload⟩
  · rw [if_pos hnil] at hload
    exact ⟨hload, (loadDraft_eq_ok_iff hload).2 rfl⟩

namespace Sample

/-- A strategy with everything left out, and one with a name. -/
def twoStrategies : List String :=
  ["\x7b\x7d", "\x7b\"name\": \"B\"\x7d"]

/-- A disk with a document of two strategies. -/
def twoDisk : Disk :=
  .ofResults [("two.json",
    .ok ((Draft.arrayDocument "" "" "\n" twoStrategies).toList.map Char.toUInt8))] []

theorem ascii_two :
    ∀ c ∈ (Draft.arrayDocument "" "" "\n" twoStrategies).toList, c.toNat < 0x80 := by
  rw [Draft.toList_arrayDocument]
  simp [twoStrategies, Json.arrayText]

theorem readText_two :
    readText twoDisk "two.json" = .ok (Draft.arrayDocument "" "" "\n" twoStrategies) :=
  readText_of_ascii ascii_two (by simp [twoDisk, Disk.ofResults])

/-- The first strategy as a value. -/
theorem isText_first : Json.IsText (.object []) "\x7b\x7d".toList :=
  ⟨[], .emptyObject rfl rfl, rfl⟩

/-- The second strategy as a value. -/
theorem isText_second :
    Json.IsText (.object [("name", .string "B")]) "\x7b\"name\": \"B\"\x7d".toList := by
  have hname : Json.StringText "name\": \"B\"\x7d".toList (some "name".toList)
      ": \"B\"\x7d".toList :=
    .plain (by decide) (by decide) (.plain (by decide) (by decide) (.plain (by decide) (by decide)
      (.plain (by decide) (by decide) .close)))
  have hvalue : Json.Derives (.value (.string "B")) " \"B\"\x7d".toList "\x7d".toList :=
    .scalar (.string (.plain (by decide) (by decide) .close))
  exact ⟨[], .object rfl (.lastEntry rfl hname rfl hvalue rfl), rfl⟩

theorem twoStrategies_read :
    List.Forall₂ Draft.ReadsAlone twoStrategies [{}, { name := "B" }] :=
  .cons ⟨rfl, (Draft.readDocument_of_isText isText_first).trans rfl⟩
    (.cons ⟨rfl, (Draft.readDocument_of_isText isText_second).trans rfl⟩ .nil)

theorem twoStrategies_fit : twoStrategies.all Draft.fitsInArray = true := by
  have hfirst : Draft.fitsInArray "\x7b\x7d" = true := by
    rw [Draft.fitsInArray, Draft.read?_of_isText isText_first]
    rfl
  have hsecond : Draft.fitsInArray "\x7b\"name\": \"B\"\x7d" = true := by
    rw [Draft.fitsInArray, Draft.read?_of_isText isText_second]
    rfl
  simp [twoStrategies, hfirst, hsecond]

end Sample

/-- The document with two strategies is loaded as the two, and no command runs one of them alone. -/
theorem sample_array_loads_as_list :
    loadDrafts Sample.twoDisk "two.json" = .ok [{}, { name := "B" }] ∧
      ∀ d, loadDraft Sample.twoDisk "two.json" ≠ .ok d := by
  obtain ⟨hload, hone, -⟩ := (array_loads_as_list rfl rfl rfl rfl Sample.readText_two
    Sample.twoStrategies_read).1 (List.cons_ne_nil _ _) Sample.twoStrategies_fit
  exact ⟨hload, fun d hd ↦ by cases (hone d).1 hd⟩

end BarReplay.Command
