import DualScope.File

/-!
# Directories in memory

The files below one directory as a table. A name is a path with `/` between its
parts: an empty part and a single dot stay where they are, and two dots go back up.
Every directory on the way to an entry exists with it. A path that leads out of the
table, as one does that begins with `/`, finds nothing there but the directories
above it.
-/

namespace DualScope

/-- What a path stands for; a file that holds no text has no contents. -/
inductive Directory.Entry
  | directory
  | file (text : Option String)
deriving DecidableEq

/-- Files and directories by the parts of their paths. -/
structure Directory where
  entries : List (List String × Directory.Entry)
deriving DecidableEq

namespace Directory

def empty : Directory := ⟨[]⟩

/-- Whether a part of a path stays where it is. -/
def stays (part : String) : Bool :=
  part = "" || part = "."

/-- The directory with one entry more. -/
def add (d : Directory) (name : String) (entry : Entry) : Directory :=
  ⟨((name.splitOn "/").filter fun part => !stays part, entry) :: d.entries⟩

/-- What stands at a path without empty parts and dots. -/
def find? (d : Directory) (path : List String) : Option Entry :=
  if path.isEmpty then some .directory
  else
    match d.entries.lookup path with
    | some entry => some entry
    | none =>
      if d.entries.any fun e => path.isPrefixOf e.1 then some .directory else none

/-- The parts of the directory above the one with these parts, last first; the one
above the table is outside. -/
def above : List String → Option (List String)
  | [] => none
  | _ :: parts => some parts

/-- The longest part that a path may have, in bytes. -/
def partBound : Nat := 255

/-- The longest path, in bytes. -/
def pathBound : Nat := 4095

/-- Follows the parts of a path from what stands at `here`, whose parts are kept last
first; `none` is a directory outside of the table. -/
def walk (d : Directory) (here : Option (List String)) : List String → Except FileError Entry
  | [] =>
    match here with
    | none => .ok .directory
    | some parts =>
      match d.find? parts.reverse with
      | none => .error .notFound
      | some entry => .ok entry
  | part :: rest =>
    match here with
    | none => if stays part || part = ".." then d.walk none rest else .error .notFound
    | some parts =>
      match d.find? parts.reverse with
      | none => .error .notFound
      | some (.file _) => .error .notDirectory
      | some .directory =>
        if stays part then d.walk here rest
        else if part = ".." then d.walk (above parts) rest
        else if partBound < part.utf8ByteSize then .error .nameTooLong
        else d.walk (some (part :: parts)) rest

/-- What stands at a path. -/
def entry (d : Directory) (path : String) : Except FileError Entry :=
  if path.contains '\x00' then .error .nulInName
  else if pathBound < path.utf8ByteSize then .error .nameTooLong
  else if path = "" then .error .notFound
  else d.walk (if path.startsWith "/" then none else some []) (path.splitOn "/")

/-- The answers for the files in the directory. -/
def files (d : Directory) : Files := fun name =>
  match d.entry name with
  | .error e => .error e
  | .ok .directory => .error .isDirectory
  | .ok (.file none) => .error .notText
  | .ok (.file (some text)) => .ok text

end Directory

end DualScope
