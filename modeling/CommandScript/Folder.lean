import CommandScript.Text.Quoted
import CommandScript.Text.Line

/-! # Folders

A folder is a list of files and directories by relative path. Paths are walked component by
component, so it shows whether a path is missing, a directory, too long, or goes on below a file.
-/

namespace CommandScript

inductive Entry where
  | directory
  | file (bytes : ByteArray)

inductive ReadError where
  | missing | isDirectory | notDirectory | nameTooLong | denied
  /-- No system takes a path that holds the null character. -/
  | nullCharacter
  deriving DecidableEq, Repr

namespace ReadError

def label : ReadError → String
  | missing => "FileNotFoundError"
  | isDirectory => "IsADirectoryError"
  | notDirectory => "NotADirectoryError"
  | nameTooLong => "OSError"
  | denied => "PermissionError"
  | nullCharacter => "ValueError"

/-- The number and the words that the system has for an error. -/
def system? : ReadError → Option (Nat × String)
  | missing => some (2, "No such file or directory")
  | isDirectory => some (21, "Is a directory")
  | notDirectory => some (20, "Not a directory")
  | nameTooLong => some (36, "File name too long")
  | denied => some (13, "Permission denied")
  | nullCharacter => none

def all : List ReadError :=
  [missing, isDirectory, notDirectory, nameTooLong, denied, nullCharacter]

def ofCode? (code : Nat) : Option ReadError :=
  all.find? fun e => e.system?.any fun entry => entry.1 == code

def message (e : ReadError) (path : String) : String :=
  match e.system? with
  | some (code, reason) => "[Errno " ++ code.repr ++ "] " ++ reason ++ ": " ++ Text.quoted path
  | none => "embedded null byte"

end ReadError

structure Folder where
  entries : List (String × Entry) := []

namespace Folder

def components (path : String) : List String := (path.toList.splitOn '/').map String.ofList

/-- The folder of the given entries; empty components and dots in their paths are left out. -/
def ofList (entries : List (String × Entry)) : Folder :=
  ⟨entries.map fun (path, entry) =>
    ("/".intercalate ((components path).filter fun part => part ≠ "" && part ≠ "."), entry)⟩

/-- The most bytes that a component of a path may have. -/
def componentLimit : Nat := 255

/-- The least number of bytes that is too many for a path. -/
def pathLimit : Nat := 4096

/-- What stands at a path of proper components; every path above an entry is a directory. -/
def at? (folder : Folder) (parts : List String) : Option Entry :=
  let path := "/".intercalate parts
  if parts.isEmpty then some .directory
  else (folder.entries.lookup path).or <|
    if folder.entries.any fun (p, _) => (path ++ "/").toList.isPrefixOf p.toList
    then some .directory else none

/-- Outside the folder there are only the directories above it. -/
def readOutside : List String → Except ReadError ByteArray
  | [] => .error .isDirectory
  | part :: rest =>
    if ["", ".", ".."].contains part then readOutside rest
    else .error (if componentLimit < part.utf8ByteSize then .nameTooLong else .missing)

def walk (folder : Folder) : List String → List String → Except ReadError ByteArray
  | here, [] =>
    match folder.at? here with
    | some (.file bytes) => .ok bytes
    | some .directory => .error .isDirectory
    | none => .error .missing
  | here, part :: rest =>
    match folder.at? here with
    | some (.file _) => .error .notDirectory
    | none => .error .missing
    | some .directory =>
      if part = "" || part = "." then folder.walk here rest
      else if part = ".." then
        if here.isEmpty then readOutside rest else folder.walk here.dropLast rest
      else if componentLimit < part.utf8ByteSize then .error .nameTooLong
      else folder.walk (here ++ [part]) rest

/-- What is wrong with a path before it is walked. -/
def pathError? (path : String) : Option ReadError :=
  if path.toList.contains '\x00' then some .nullCharacter
  else if path.isEmpty then some .missing
  else if pathLimit ≤ path.utf8ByteSize then some .nameTooLong
  else none

/-- Reads a file; a path that starts with a slash leads outside. -/
def read (folder : Folder) (path : String) : Except ReadError ByteArray :=
  match pathError? path with
  | some e => .error e
  | none =>
    match components path with
    | "" :: rest => readOutside rest
    | parts => folder.walk [] parts

/-- Reads a file by its path below the folder. -/
def readBelow (folder : Folder) (path : String) : Except ReadError ByteArray :=
  match pathError? path with
  | some .nullCharacter => .error .nullCharacter
  | _ => folder.walk [] (components path)

/-- Reads a file by a path that does not start in the folder. -/
def readElsewhere (path : String) : Except ReadError ByteArray :=
  match pathError? path with
  | some e => .error e
  | none => readOutside (components path)

def scriptSuffix : String := ".ase"

/-- The entries whose name ends like that of a script. -/
def scripts (folder : Folder) : List (String × Entry) :=
  folder.entries.filter fun (path, _) => scriptSuffix.toList.isSuffixOf path.toList

end Folder

end CommandScript
