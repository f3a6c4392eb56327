/-!
# Command lines

A command line is the name of a command followed by its options, each at most once, in any order.
An option has a long name and mostly a letter, and always a value, which follows as the next
argument, or behind `=`, or directly behind the letter. The first fault from left to right is the
one reported; that an option is missing is seen at the end.
-/

namespace BarReplay.Command

/-- Why a command line is refused. -/
inductive UsageFault where
  /-- There is no command. -/
  | noCommand
  /-- Help was asked for. -/
  | help
  /-- There is no command of this name. -/
  | unknownCommand
  /-- There is no option of this name, or an argument where none is expected. -/
  | unknownArgument
  /-- An option has no value, or an empty one. -/
  | noValue
  /-- An option that takes no value has one. -/
  | tooManyValues
  /-- An option is given twice. -/
  | repeated
  /-- An option that has to be given is not. -/
  | missing
  deriving DecidableEq, Repr

/-- The status with which the program exits. -/
def UsageFault.exitCode : UsageFault → Nat
  | help => 0
  | _ => 2

/-- What is said about a command line that is refused, before the usage is shown. -/
def UsageFault.message : UsageFault → String
  | noCommand => "error: a command is needed"
  | help => "A backtester of strategies made of rules"
  | unknownCommand => "error: there is no such command"
  | unknownArgument => "error: unexpected argument"
  | noValue => "error: an option has no value"
  | tooManyValues => "error: an option has a value and takes none"
  | repeated => "error: an option is given twice"
  | missing => "error: an option is missing"

/-- How the commands are used. -/
def usage : String :=
  "Commands:\n" ++
  "  backtest --config FILE --data FILE [--strategy FILE] [--output FILE]\n" ++
  "  validate --strategy FILE\n" ++
  "  signal --strategy FILE --data FILE\n" ++
  "  sweep --config FILE --data FILE --strategies FILE [--output FILE]\n"

/-- An option of a command. -/
inductive Parameter where
  | config
  | data
  | strategy
  | strategies
  | output
  deriving DecidableEq, Repr

/-- A command line that is understood. -/
inductive Invocation where
  /-- A run of one strategy, that of the settings unless another is given. -/
  | backtest (config data : String) (strategy output : Option String)
  /-- A check of the strategies of a document. -/
  | validate (strategy : String)
  /-- The signal of a strategy on the last bar. -/
  | signal (strategy data : String)
  /-- Runs of all strategies of a document. -/
  | sweep (config data strategies : String) (output : Option String)
  deriving DecidableEq, Repr

namespace Parameter

/-- The long name of an option. -/
def name : Parameter → String
  | config => "config"
  | data => "data"
  | strategy => "strategy"
  | strategies => "strategies"
  | output => "output"

/-- The letter of an option, if it has one. -/
def letter? : Parameter → Option Char
  | config => some 'c'
  | data => some 'd'
  | strategy => some 's'
  | strategies => none
  | output => some 'o'

end Parameter

/-- The name of a command. -/
inductive Name where
  | backtest
  | validate
  | signal
  | sweep
  deriving DecidableEq, Repr

/-- The command of the given name. -/
def Name.ofText? : String → Option Name
  | "backtest" => some backtest
  | "validate" => some validate
  | "signal" => some signal
  | "sweep" => some sweep
  | _ => none

/-- The options that a command has to be given, and those that it may be given. -/
def Name.options : Name → List Parameter × List Parameter
  | backtest => ([.config, .data], [.strategy, .output])
  | validate => ([.strategy], [])
  | signal => ([.strategy, .data], [])
  | sweep => ([.config, .data, .strategies], [.output])

/-- All options of a command. -/
def Name.allOptions (n : Name) : List Parameter :=
  n.options.1 ++ n.options.2

/-- What has been read of the options of a command. -/
structure Progress where
  /-- The options with their values. -/
  given : List (Parameter × String) := []
  /-- The last option, and its value if that has been read, before they count as given. -/
  pending : Option (Parameter × Option String) := none
  /-- Two hyphens have been read, after which there are no options. -/
  closed : Bool := false

/-- The option counts as given, once and with a value that is not empty. -/
def Progress.give (p : Progress) (option : Parameter) (value : String) :
    Except UsageFault Progress :=
  if p.given.any fun g ↦ g.1 == option then .error .repeated
  else if value.isEmpty then .error .noValue
  else .ok { p with given := p.given ++ [(option, value)], pending := none }

/-- The last option counts as given. -/
def Progress.settle (p : Progress) : Except UsageFault Progress :=
  match p.pending with
  | none => .ok p
  | some (_, none) => .error .noValue
  | some (option, some value) => p.give option value

/-- An option that is named, with the value attached to its name, if any. -/
def Progress.name (p : Progress) (option : Parameter) (attached : Option String) :
    Except UsageFault Progress := do
  let p ← p.settle
  match attached with
  | some value => p.give option value
  | none => pure { p with pending := some (option, none) }

/-- What an argument looks like. -/
inductive Shape where
  /-- Two hyphens and nothing else. -/
  | divider
  /-- A long name, and the value behind `=`. -/
  | long (name : String) (attached : Option String)
  /-- A letter, and the value behind it. -/
  | short (letter : Char) (attached : Option String)
  /-- A value. -/
  | plain

/-- The text behind the first `=` of a text, with the text before it. -/
def splitValue (cs : List Char) : String × Option String :=
  let name := cs.takeWhile (· != '=')
  match cs.dropWhile (· != '=') with
  | [] => (String.ofList name, none)
  | _ :: value => (String.ofList name, some (String.ofList value))

/-- What an argument looks like. A single hyphen is a value. -/
def shapeOf (argument : String) : Shape :=
  match argument.toList with
  | ['-', '-'] => .divider
  | '-' :: '-' :: rest => .long (splitValue rest).1 (splitValue rest).2
  | ['-', letter] => .short letter none
  | '-' :: letter :: '=' :: value => .short letter (some (String.ofList value))
  | '-' :: letter :: value => .short letter (some (String.ofList value))
  | _ => .plain

/-- One more argument of a command with the given options. -/
def Progress.read (options : List Parameter) (p : Progress) (argument : String) :
    Except UsageFault Progress :=
  if p.closed then .error .unknownArgument
  else
    match shapeOf argument with
    | .divider => .ok { p with closed := true }
    | .long "help" none => do
      let _ ← p.settle
      .error .help
    | .long "help" (some _) => .error .tooManyValues
    | .long name attached =>
      match options.find? fun o ↦ o.name == name with
      | some option => p.name option attached
      | none => .error .unknownArgument
    | .short 'h' _ => do
      let _ ← p.settle
      .error .help
    | .short letter attached =>
      match options.find? fun o ↦ o.letter? == some letter with
      | some option => p.name option attached
      | none => .error .unknownArgument
    | .plain =>
      match p.pending with
      | some (option, none) => .ok { p with pending := some (option, some argument) }
      | _ => .error .unknownArgument

/-- The options of a command with their values, those that it has to be given among them. -/
def readOptions (n : Name) (arguments : List String) :
    Except UsageFault (List (Parameter × String)) := do
  let p ← arguments.foldlM (Progress.read n.allOptions) {}
  let p ← p.settle
  if n.options.1.all fun o ↦ p.given.any fun g ↦ g.1 == o then pure p.given
  else .error .missing

/-- The value of an option. -/
def valueOf? (given : List (Parameter × String)) (option : Parameter) : Option String :=
  (given.find? fun g ↦ g.1 == option).map Prod.snd

/-- The command with its options. -/
def invocation (n : Name) (given : List (Parameter × String)) : Invocation :=
  let value (o : Parameter) : String := (valueOf? given o).getD ""
  match n with
  | .backtest =>
    .backtest (value .config) (value .data) (valueOf? given .strategy) (valueOf? given .output)
  | .validate => .validate (value .strategy)
  | .signal => .signal (value .strategy) (value .data)
  | .sweep => .sweep (value .config) (value .data) (value .strategies) (valueOf? given .output)

/-- The name is that of a command, or the command that asks for help. -/
def isCommand (name : String) : Bool :=
  name == "help" || (Name.ofText? name).isSome

/-- The command line that arguments are. -/
def Invocation.parse : List String → Except UsageFault Invocation
  | [] => .error .noCommand
  | first :: rest =>
    match shapeOf first with
    | .divider =>
      match rest with
      | [] => .error .noCommand
      | name :: _ => .error (if isCommand name then .unknownArgument else .unknownCommand)
    | .long "help" none => .error .help
    | .long "help" (some _) => .error .tooManyValues
    | .long _ _ => .error .unknownArgument
    | .short 'h' _ => .error .help
    | .short _ _ => .error .unknownArgument
    | .plain =>
      match Name.ofText? first with
      | some n => (readOptions n rest).map (invocation n)
      | none =>
        if first = "help" then
          match rest with
          | [] => .error .help
          | [name] => .error (if isCommand name then .help else .unknownCommand)
          | _ => .error .unknownCommand
        else .error .unknownCommand

end BarReplay.Command
