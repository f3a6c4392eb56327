import BarReplay.Command.Run

/-!
# The program

The program reads the files that its command line names, computes what the command comes to, writes
the reports, and then says and prints. A report that cannot be written is a refusal of the disk, and
the command is computed again with it.
-/

namespace BarReplay.Program

open Command

/-- The number of a system error, which some calls report with a minus sign. -/
def errorNumber (code : UInt32) : Nat :=
  if code.toNat < 0x80000000 then code.toNat else 0x100000000 - code.toNat

/-- What the system says, as a cause. -/
def faultOf : IO.Error → FileFault
  | .noFileOrDirectory _ _ _ => .notFound
  | .inappropriateType _ code details =>
    match errorNumber code with
    | 20 => .notDirectory
    | 21 => .isDirectory
    | _ => .other details
  | .invalidArgument _ code details =>
    if errorNumber code = 36 then .nameTooLong else .other details
  | .permissionDenied _ _ _ => .other "Permission denied (os error 13)"
  | e => .other (toString e)

/-- What comes of reading a file. -/
def readFile (path : String) : IO (String × Except FileFault (List UInt8)) := do
  try
    let bytes ← IO.FS.readBinFile path
    pure (path, .ok bytes.toList)
  catch e => pure (path, .error (faultOf e))

/-- Writes files up to the first that cannot be written, and says which that is. -/
def writeFiles : List (String × String) → IO (List (String × FileFault))
  | [] => pure []
  | (path, text) :: rest => do
    try
      IO.FS.writeFile path text
    catch e => return [(path, faultOf e)]
    writeFiles rest

/-- Runs a command, with its exit status. -/
def runCommand (i : Invocation) : IO Nat := do
  let reads ← i.inputs.mapM readFile
  let refusals ← writeFiles (i.run (.ofResults reads [])).2.written
  let (status, transcript) := i.run (.ofResults reads refusals)
  IO.eprint transcript.said
  IO.print transcript.printed
  pure status

/-- Refuses a command line, with the exit status. -/
def refuse (fault : UsageFault) : IO Nat := do
  let text := fault.message ++ "\n\n" ++ usage
  if fault = .help then IO.print text else IO.eprint text
  pure fault.exitCode

end BarReplay.Program

/-- The program. -/
def main (arguments : List String) : IO UInt32 := do
  let status ←
    match BarReplay.Command.Invocation.parse arguments with
    | .ok i => BarReplay.Program.runCommand i
    | .error fault => BarReplay.Program.refuse fault
  pure status.toUInt32
