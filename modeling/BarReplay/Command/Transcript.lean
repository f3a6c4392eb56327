import BarReplay.Command.Disk
import BarReplay.Decimal.Layout

/-!
# Transcripts

A command is a computation that says lines, prints an answer and writes files, and either ends with
an exit status or fails with an error. What it said and wrote before it failed stays said and
written; `Job.finish` then adds what is said about the error.
-/

namespace BarReplay.Command

/-- What a command has said, printed and written. -/
structure Transcript where
  /-- The text on the error channel. -/
  said : String := ""
  /-- The text on the output channel. -/
  printed : String := ""
  /-- The files that were written, in order, by path. -/
  written : List (String × String) := []
  deriving DecidableEq

/-- A command under way. -/
abbrev Job :=
  ExceptT Error (StateM Transcript)

namespace Job

/-- Says a line on the error channel. -/
def say (line : String) : Job Unit :=
  modify fun t ↦ { t with said := t.said ++ line ++ "\n" }

/-- Prints a line on the output channel. -/
def print (line : String) : Job Unit :=
  modify fun t ↦ { t with printed := t.printed ++ line ++ "\n" }

/-- Writes a file, unless the disk refuses. -/
def write (disk : Disk) (path text : String) : Job Unit :=
  match disk.refusal? path with
  | some fault => throw (.file fault)
  | none => modify fun t ↦ { t with written := t.written ++ [(path, text)] }

/-- Goes on with a result, or fails with its error. -/
def need {β : Type} (result : Except Error β) : Job β :=
  match result with
  | .ok b => pure b
  | .error e => throw e

/-- What is said about an error that ends a command. A rule is shown with a caret at the fault. -/
def report : Error → String
  | .rule list index text error =>
    "error: failed to parse " ++ list.name ++ " rule #" ++ toString index ++ ":\n" ++
      error.inContext text
  | e => "error: " ++ e.message

/-- The exit status of a command, and its transcript. -/
def finish (job : Job Nat) : Nat × Transcript :=
  match job.run {} with
  | (.ok status, t) => (status, t)
  | (.error e, t) => (e.exitCode, { t with said := t.said ++ report e ++ "\n" })

end Job

end BarReplay.Command
