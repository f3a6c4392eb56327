import BarReplay.Command.Transcript
import BarReplay.Settings.Ini
import BarReplay.Settings.StrategySection
import BarReplay.Strategy.Draft
import BarReplay.Table.Bars

/-!
# What commands read

Settings, strategies and bars, each from a file that is named on the command line. A file whose name
ends in `.json` is a strategy document; any other file of strategies holds settings.
-/

namespace BarReplay.Command

variable (disk : Disk)

/-- The text of a file. -/
def readText (path : String) : Except FileFault String := do
  let bytes ← disk.read path
  match Text.decodeString? bytes with
  | some text => .ok text
  | none => .error .notText

/-- The settings in a file. -/
def loadSettings (path : String) : Except Error Settings :=
  match readText disk path with
  | .error fault => .error (.document path (.unreadable path fault))
  | .ok text => (Ini.parse text).mapError fun fault ↦ .document path (.settingsFile path fault)

/-- The file is a strategy document. -/
def isDocument (path : String) : Bool :=
  (Path.extension? path).any fun cs ↦ Text.asciiLower cs == "json".toList

/-- The drafts in a file. -/
def loadDrafts (path : String) : Except Error (List Draft) :=
  if isDocument path then
    match readText disk path with
    | .error fault => .error (.file fault)
    | .ok text => (Draft.readDocument text).mapError (.document path)
  else do
    let settings ← loadSettings disk path
    let draft ← settings.draft
    pure [draft]

/-- The one draft in a file. -/
def loadDraft (path : String) : Except Error Draft := do
  match ← loadDrafts disk path with
  | [draft] => pure draft
  | drafts => .error (.document path (.notOne drafts.length))

/-- The table that a path of bars means: its symbol, which is the last name without the extension,
and the path of the file of that symbol in the same directory. -/
def tableOf (path : String) : Except Error (String × String) :=
  match Path.stem? path with
  | none => .error (.data (.noName path))
  | some symbol => .ok (symbol, Path.join (Path.directory path) (symbol ++ ".csv"))

/-- The bars of a table whose dates lie in a range. -/
def fetchBars (path : String) (range : Settings.DateRange) : Except Error (List (Bar Float)) :=
  match disk.read path with
  | .error .isDirectory => .error (.data (.header (.file .isDirectory)))
  | .error fault => .error (.data (.unreadable path fault))
  | .ok bytes =>
    match Table.readBars bytes with
    | .error fault => .error (.data fault)
    | .ok bars => .ok (bars.filter fun b ↦ range.holds b.date)

/-- The bars that a path means. -/
def loadBars (path : String) (range : Settings.DateRange) : Except Error (List (Bar Float)) := do
  let (_, table) ← tableOf path
  fetchBars disk table range

end BarReplay.Command
