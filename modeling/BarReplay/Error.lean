import BarReplay.Replay.Run

/-!
# Errors

Everything that can keep the program from its answer, as causes. The wording of each cause is in the
`message` of its type and nowhere else, and so is the status with which the program exits.
-/

namespace BarReplay

/-- What the system says when a file cannot be read or written. -/
inductive FileFault where
  | notFound
  | isDirectory
  | notDirectory
  /-- A path, or a name on it, is longer than the system allows. -/
  | nameTooLong
  /-- A path holds the character that ends a path for the system. -/
  | nulInName
  | notText
  | other (text : String)
  deriving DecidableEq, Repr

/-- The words of the system for what is wrong with a file. -/
def FileFault.message : FileFault → String
  | notFound => "No such file or directory (os error 2)"
  | isDirectory => "Is a directory (os error 21)"
  | notDirectory => "Not a directory (os error 20)"
  | nameTooLong => "File name too long (os error 36)"
  | nulInName => "file name contained an unexpected NUL byte"
  | notText => "stream did not contain valid UTF-8"
  | other text => text

/-- What is wrong with a line of settings. -/
inductive LineFault where
  /-- A section name is not closed. -/
  | unclosedSection
  /-- Nothing stands before the delimiter, which is at this byte of the line. -/
  | emptyKey (column : Nat)
  deriving DecidableEq, Repr

/-- What is wrong with settings as a text, at a line counted from one. -/
structure SettingsFault where
  line : Nat
  fault : LineFault
  deriving DecidableEq, Repr

/-- The wording, which names the line. -/
def SettingsFault.message (f : SettingsFault) : String :=
  match f.fault with
  | .unclosedSection =>
    "line " ++ toString f.line ++ ": Found opening bracket for section name but no closing bracket"
  | .emptyKey column =>
    "line " ++ toString f.line ++ ":" ++ toString column ++ ": Key cannot be empty"

/-- What is wrong with a document of settings or strategies. -/
inductive DocumentFault where
  /-- Settings given as a text have a faulty line. -/
  | settings (fault : SettingsFault)
  /-- Settings in a file have a faulty line. -/
  | settingsFile (path : String) (fault : SettingsFault)
  /-- A file of settings cannot be read. -/
  | unreadable (path : String) (fault : FileFault)
  /-- A document with one strategy was expected. -/
  | notOne (found : Nat)
  /-- A document is neither a strategy nor a list of strategies. -/
  | noStrategies
  /-- A document is not JSON. -/
  | notJson
  deriving DecidableEq, Repr

/-- The wording; settings in a file name the file once more. -/
def DocumentFault.message : DocumentFault → String
  | settings fault => fault.message
  | settingsFile path fault => "couldn't read " ++ path ++ ": " ++ fault.message
  | unreadable path fault => "couldn't read " ++ path ++ ": " ++ fault.message
  | notOne found => "expected one strategy, found " ++ toString found
  | noStrategies => "data did not match any variant of untagged enum OneOrMany"
  | notJson => "invalid JSON"

/-- What is wrong with the value of a setting. -/
inductive ValueFault where
  | notNumber (text : String)
  /-- A setting, named in the message, must be zero or more. -/
  | negativeSetting (key : String)
  /-- A setting, named in the message, must be a share of the account. -/
  | shareSetting (key : String)
  /-- A number must be zero or more and is this. -/
  | negative (value : Float)
  /-- A number must be a share of the account and is this. -/
  | notShare (value : Float)
  | notDate
  /-- A range of dates ends before it starts. -/
  | endBeforeStart
  deriving DecidableEq, Repr

/-- The wording. A checked setting is named by its key, a checked number is shown. -/
def ValueFault.message : ValueFault → String
  | notNumber text => "'" ++ text ++ "' is not a number"
  | negativeSetting key => key ++ " must be non-negative"
  | shareSetting key => key ++ " must be in (0, 1]"
  | negative value => "must be a non-negative number, got " ++ Decimal.messageText value
  | notShare value => "must be in (0, 1], got " ++ Decimal.messageText value
  | notDate => "invalid date format (expected YYYY-MM-DD)"
  | endBeforeStart => "end_date is before start_date"

/-- Which of the two rule lists of a strategy a rule is in. -/
inductive RuleList where
  | entry
  | exit
  deriving DecidableEq, Repr

/-- The name of a rule list in messages. -/
def RuleList.name : RuleList → String
  | entry => "entry"
  | exit => "exit"

/-- What is wrong with a record of a table. -/
inductive RecordFault where
  /-- A record has another number of fields than the header. Records are counted from the header;
  the line and the byte are those at which the record starts. -/
  | length (record line byte found expected : Nat)
  /-- A field is not text from this byte of the field on. -/
  | notText (record line field byte index : Nat)
  /-- The table cannot be read at all. -/
  | file (fault : FileFault)
  deriving DecidableEq, Repr

/-- The wording, which says where the record starts. -/
def RecordFault.message : RecordFault → String
  | length record line byte found expected =>
    "CSV error: record " ++ toString record ++ " (line: " ++ toString line ++ ", byte: " ++
      toString byte ++ "): found record with " ++ toString found ++
      " fields, but the previous record has " ++ toString expected ++ " fields"
  | notText record line field byte index =>
    "CSV parse error: record " ++ toString record ++ " (line " ++ toString line ++ ", field: " ++
      toString field ++ ", byte: " ++ toString byte ++
      "): invalid utf-8: invalid UTF-8 in field " ++ toString field ++ " near byte index " ++
      toString index
  | file fault => fault.message

/-- What is wrong with a table of bars. -/
inductive DataFault where
  /-- A path has no name that could be that of a table. -/
  | noName (path : String)
  | unreadable (path : String) (fault : FileFault)
  | header (fault : RecordFault)
  | noDate
  | noClose
  | record (fault : RecordFault)
  /-- A date cell, at a line counted from the header. -/
  | badDate (line : Nat) (cell : String)
  /-- The cell of a field, at a line counted from the header. -/
  | badCell (line : Nat) (field : Field) (cell : String)
  deriving DecidableEq, Repr

/-- The wording. Lines are counted as records, the header being the first. -/
def DataFault.message : DataFault → String
  | noName path => "not a bar file: " ++ path
  | unreadable path fault => "failed to read " ++ path ++ ": " ++ fault.message
  | header fault => "CSV header error: " ++ fault.message
  | noDate => "missing date column"
  | noClose => "missing close column"
  | record fault => "CSV parse error: " ++ fault.message
  | badDate line cell => "line " ++ toString line ++ ": invalid date '" ++ cell ++ "'"
  | badCell line field cell =>
    "line " ++ toString line ++ ": invalid " ++ field.name ++ " value '" ++ cell ++ "'"

/-- The wording of what is wrong with a bar. -/
def BarFault.message : BarFault Float → String
  | close value => "close must be a positive finite number, got " ++ Decimal.messageText value
  | order previous => "date is not after previous bar (" ++ previous.text ++ ")"

/-- Why the program has no answer. -/
inductive Error where
  /-- A document cannot be understood. -/
  | document (path : String) (fault : DocumentFault)
  /-- A number, a date or a rule list is out of range. -/
  | value (block key : String) (fault : ValueFault)
  /-- A text in a rule list is no rule. -/
  | rule (list : RuleList) (index : Nat) (text : String) (error : ParseError)
  | noBars
  | data (fault : DataFault)
  | bar (index : Nat) (date : Date) (fault : BarFault Float)
  | cancelled (index : Nat)
  | file (fault : FileFault)
  deriving DecidableEq

namespace Error

/-- The wording of an error. -/
def message : Error → String
  | document path fault => "config parse error in " ++ path ++ ": " ++ fault.message
  | value block key fault =>
    "invalid config value [" ++ block ++ "] " ++ key ++ ": " ++ fault.message
  | rule list index text error =>
    "invalid " ++ list.name ++ " rule #" ++ toString index ++ " '" ++ text ++ "': " ++ error.message
  | noBars => "no bars to replay"
  | data fault => "data error: " ++ fault.message
  | bar index date fault =>
    "bar " ++ toString index ++ " (" ++ date.text ++ "): " ++ fault.message
  | cancelled index => "run cancelled before bar " ++ toString index
  | file fault => fault.message

/-- The status with which the program exits. -/
def exitCode : Error → Nat
  | file _ => 1
  | document _ _ => 2
  | value _ _ _ => 2
  | rule _ _ _ _ => 4
  | noBars => 5
  | data _ => 5
  | bar _ _ _ => 6
  | cancelled _ => 6

theorem exitCode_pos (e : Error) : 0 < e.exitCode := by
  cases e <;> simp [exitCode]

/-- The error is seen before the first bar. -/
def isBeforeRun : Error → Bool
  | document _ _ => true
  | value _ _ _ => true
  | rule _ _ _ _ => true
  | noBars => true
  | _ => false

/-- The key of a parameter of a run in the settings. -/
def parameterKey : Terms.Parameter → String
  | .capital => "initial_capital"
  | .commission => "commission"
  | .slippage => "slippage"

/-- The failure of a run. -/
def ofRun : RunError Float → Error
  | .parameter which amount => value "backtest" (parameterKey which) (.negative amount)
  | .noBars => noBars
  | .bar index date fault => bar index date fault
  | .cancelled index => cancelled index

end Error

end BarReplay
