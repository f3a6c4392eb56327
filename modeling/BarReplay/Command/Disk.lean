import BarReplay.Error

/-!
# Paths and files

The paths that a command is given, and what it finds there.
-/

namespace BarReplay.Command

/-! ### Paths

A path is a text in which slashes separate names. Empty names and single dots stand for nothing.
The last name of a path may end in an extension: what follows the last dot, unless that dot is the
first character.
-/

namespace Path

/-- The path without the slashes and single dots at its end, in reverse. -/
def dropEnd : List Char → List Char
  | ['/'] => ['/']
  | '/' :: cs => dropEnd cs
  | '.' :: '/' :: cs => if cs.isEmpty then ['/'] else dropEnd cs
  | cs => cs

/-- The directory and the last name of a path, both without slashes at the end. -/
def split (path : String) : List Char × List Char :=
  let reversed := dropEnd path.toList.reverse
  let name := reversed.takeWhile (· != '/')
  match reversed.dropWhile (· != '/') with
  | [] => ([], name.reverse)
  | above => (if above.all (· == '/') then ['/'] else (dropEnd above).reverse, name.reverse)

/-- The last name of a path, if it has one that can be that of a file. -/
def fileName? (path : String) : Option (List Char) :=
  let name := (split path).2
  if name = [] ∨ name = ['.'] ∨ name = ['.', '.'] then none else some name

/-- A name and its extension. -/
def splitExtension (name : List Char) : List Char × Option (List Char) :=
  let extension := (name.reverse.takeWhile (· != '.')).reverse
  match name.reverse.dropWhile (· != '.') with
  | _ :: stem@(_ :: _) => (stem.reverse, some extension)
  | _ => (name, none)

/-- The last name of a path without its extension. -/
def stem? (path : String) : Option String :=
  (fileName? path).map fun name ↦ String.ofList (splitExtension name).1

/-- The extension of a path. -/
def extension? (path : String) : Option (List Char) :=
  (fileName? path).bind fun name ↦ (splitExtension name).2

/-- The directory of a path, a dot if it is not named. -/
def directory (path : String) : String :=
  match (split path).1 with
  | [] => "."
  | cs => String.ofList cs

/-- A file in a directory. A file named from the top is where its name says. -/
def join (directory file : String) : String :=
  if file.startsWith "/" then file
  else if directory.endsWith "/" then directory ++ file
  else directory ++ "/" ++ file

/-- The names of a path, single dots and double dots among them. -/
def names (path : String) : List String :=
  (path.splitOn "/").filter (· != "")

end Path

/-! ### Files

What a command can see of the file system, and a folder held in memory that is seen in the same way:
files by the names on their paths, in which every beginning of a path is a directory. A path is
followed name by name, so that a name which is that of no directory ends the walk even where a later
name would lead back. Above the folder there are directories, of whose files nothing is known.
-/

/-- What a command can see of the file system. -/
structure Disk where
  /-- The bytes of a file. -/
  read : String → Except FileFault (List UInt8)
  /-- Why a file cannot be written, if it cannot. -/
  refusal? : String → Option FileFault

/-- A disk of which the results of reading the given paths are known, and the paths that refuse to
be written. -/
def Disk.ofResults (reads : List (String × Except FileFault (List UInt8)))
    (refusals : List (String × FileFault)) : Disk :=
  ⟨fun path ↦ ((reads.find? fun r ↦ r.1 == path).map Prod.snd).getD (.error .notFound),
    fun path ↦ (refusals.find? fun r ↦ r.1 == path).map Prod.snd⟩

/-- Files by the names on their paths. -/
structure Folder where
  /-- The names on the path of each file, with its bytes. -/
  files : List (List String × List UInt8)

/-- What a path leads to. -/
inductive Place where
  | file (bytes : List UInt8)
  | directory
  /-- Nothing yet, in a directory of the folder. -/
  | vacant (names : List String)
  /-- A name in a directory above the folder. -/
  | outside
  /-- A name that is too long for any file. -/
  | unnameable

/-- The number of bytes that a name may have. -/
def nameLimit : Nat :=
  255

/-- The number of bytes that a path may have. -/
def pathLimit : Nat :=
  4095

namespace Folder

variable (folder : Folder)

/-- The bytes of the file with the given names. -/
def find? (names : List String) : Option (List UInt8) :=
  (folder.files.find? fun f ↦ f.1 == names).map Prod.snd

/-- The names are those of a directory. -/
def isDirectory (names : List String) : Bool :=
  names.isEmpty || folder.files.any fun f ↦ names.isPrefixOf f.1 && f.1 != names

/-- What the given names lead to, when the directory above them is there. -/
def placeOf (names : List String) : Place :=
  match folder.find? names with
  | some bytes => .file bytes
  | none => if folder.isDirectory names then .directory else .vacant names

/-- What a name leads to from a directory: one of the folder, or else one above it. -/
def placeIn (directory : Option (List String)) (name : String) : Place :=
  if nameLimit < name.utf8ByteSize then .unnameable
  else
    match directory with
    | some above => folder.placeOf (above ++ [name])
    | none => .outside

/-- The directory that a directory is in: one of the folder, or else one above it. -/
def parent? (directory : Option (List String)) : Option (List String) :=
  directory.bind fun above ↦ if above.isEmpty then none else some above.dropLast

/-- What names lead to from a directory: one of the folder, or else one above it. Two dots undo the
name before them. -/
def walk (folder : Folder) : Option (List String) → List String → Except FileFault Place
  | _, [] => .ok .directory
  | directory, "." :: rest => walk folder directory rest
  | directory, ".." :: rest => walk folder (parent? directory) rest
  | directory, name :: rest =>
    match folder.placeIn directory name, rest with
    | .directory, _ => walk folder (directory.map (· ++ [name])) rest
    | place, [] => .ok place
    | .file _, _ :: _ => .error .notDirectory
    | .unnameable, _ :: _ => .error .nameTooLong
    | _, _ :: _ => .error .notFound

/-- What a path leads to. -/
def place (path : String) : Except FileFault Place :=
  if path.toList.contains '\x00' then .error .nulInName
  else if pathLimit < path.utf8ByteSize then .error .nameTooLong
  else if path.isEmpty then .error .notFound
  else folder.walk (if path.startsWith "/" then none else some []) (Path.names path)

/-- Reads a file of the folder. -/
def read (path : String) : Except FileFault (List UInt8) := do
  match ← folder.place path with
  | .file bytes => if path.endsWith "/" then .error .notDirectory else .ok bytes
  | .directory => .error .isDirectory
  | .vacant _ => .error .notFound
  | .outside => .error .notFound
  | .unnameable => .error .nameTooLong

/-- Why a file cannot be written. What ends in a slash is taken for a directory whatever its
name. -/
def refusal? (path : String) : Option FileFault :=
  match folder.place path with
  | .error fault => some fault
  | .ok .directory => some .isDirectory
  | .ok .unnameable => some (if path.endsWith "/" then .isDirectory else .nameTooLong)
  | .ok _ => if path.endsWith "/" then some .isDirectory else none

/-- The folder as a command sees it. -/
def disk : Disk :=
  ⟨folder.read, folder.refusal?⟩

/-- The folder with files under the given paths. -/
def ofFiles (files : List (String × List UInt8)) : Folder :=
  ⟨files.map fun f ↦ (Path.names f.1, f.2)⟩

/-- The name of a new file at the top of the folder to which a path leads. -/
def newName? (path : String) : Option String :=
  match folder.place path with
  | .ok (.vacant [name]) => some name
  | _ => none

/-- The files that were written at the top of the folder under names that it does not hold. What was
written last counts. -/
def added (written : List (String × String)) : List (String × String) :=
  let new := written.filterMap fun w ↦ (folder.newName? w.1).map fun name ↦ (name, w.2)
  new.foldl (fun files w ↦ files.filter (fun f ↦ f.1 != w.1) ++ [w]) []

end Folder

end BarReplay.Command
