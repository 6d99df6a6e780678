import TextScore.Error

/-!
# Folder — files and the paths that lead to them

A folder is a tree of files that is held in memory, where every effect of a program on its files can
be seen.  A path is followed one part at a time, so `..` leaves the directory that was reached and
not the one that was written.
-/

namespace TextScore

inductive Folder.Entry where
  | text (content : String)
  | bytes (content : List UInt8)
  | directory
  deriving DecidableEq, Repr

abbrev Folder.Path := List String

structure Folder where
  entries : List (Folder.Path × Folder.Entry)
  deriving DecidableEq, Repr

namespace Folder

/-- The parts of a written path; slashes that follow one another are one. -/
def partsOf (path : String) : List String :=
  ((path.toList.splitOn '/').filter (· ≠ [])).map String.ofList

/-- The path of a file that is named from within the folder. -/
def pathOf (name : String) : Path :=
  (partsOf name).filter (· ≠ ".")

/-! ## 1. Directories on a path -/

/-- A directory of the folder, or one around it, of which nothing is known but that it is there. -/
inductive Directory where
  | within (path : Path)
  | around
  deriving DecidableEq, Repr

namespace Directory

def parent : Directory → Directory
  | within [] | around => around
  | within path => within path.dropLast

def child (directory : Directory) (name : String) : Directory :=
  match directory with
  | within path => within (path ++ [name])
  | around => around

/-- A path that starts with a slash starts outside of the folder. -/
def start (path : String) : Directory :=
  if path.toList.head? = some '/' then .around else .within []

end Directory

/-- A file also makes directories of the paths that lead to it. -/
def lookup? (folder : Folder) (path : Path) : Option Entry :=
  match folder.entries.lookup path with
  | some entry => some entry
  | none =>
    if path = [] ∨ folder.entries.any fun entry => path.isPrefixOf entry.1 then some .directory
    else none

/-- What a name stands for in a directory, if for anything.  A name has at most 255 octets. -/
def find (folder : Folder) (directory : Directory) (name : String) :
    Except FileFault (Option Entry) :=
  if 255 < name.utf8ByteSize then .error .nameTooLong
  else match directory with
    | .within path => .ok (folder.lookup? (path ++ [name]))
    | .around => .ok none

/-- The directory that the parts of a path lead to, one step for each: a dot stays, two dots go up,
and a name goes down. -/
def walk (folder : Folder) (directory : Directory) : List String → Except FileFault Directory
  | [] => .ok directory
  | part :: rest =>
    if part = "." then folder.walk directory rest
    else if part = ".." then folder.walk directory.parent rest
    else match folder.find directory part with
      | .error fault => .error fault
      | .ok none => .error .notFound
      | .ok (some .directory) => folder.walk (directory.child part) rest
      | .ok (some _) => .error .notADirectory

/-- What a written path asks for: a directory, or a name in one, perhaps with a slash behind it,
which only a directory may have. -/
inductive Target where
  | directory
  | name (directory : Directory) (name : String) (slash : Bool)
  deriving DecidableEq, Repr

/-- What a written path asks for.  All parts but the last must lead to a directory.  A path has fewer
than 4096 octets, and none of them is zero. -/
def target (folder : Folder) (path : String) : Except FileFault Target :=
  if path = "" then .error .notFound
  else if path.toList.contains '\x00' then .error .zeroOctet
  else if 4096 ≤ path.utf8ByteSize then .error .nameTooLong
  else
    let parts := partsOf path
    match parts.getLast? with
    | none => .ok .directory
    | some last =>
      (folder.walk (.start path) parts.dropLast).map fun directory =>
        if last = "." ∨ last = ".." then .directory
        else .name directory last (path.toList.getLast? = some '/')

/-! ## 2. Reading -/

def entryAt (folder : Folder) (path : String) : Except FileFault Entry :=
  (folder.target path).bind fun
    | .directory => .ok .directory
    | .name directory name slash =>
      (folder.find directory name).bind fun
        | none => .error .notFound
        | some .directory => .ok .directory
        | some entry => if slash then .error .notADirectory else .ok entry

def read (folder : Folder) (path : String) : Except FileFault String :=
  (folder.entryAt path).bind fun
    | .directory => .error .isDirectory
    | .text content => .ok content
    | .bytes _ => .error .notUtf8

/-! ## 3. Writing -/

def set (folder : Folder) (path : Path) (entry : Entry) : Folder :=
  ⟨folder.entries.filter (fun entry => entry.1 ≠ path) ++ [(path, entry)]⟩

/-- An entry put at a written path, whose directory must exist.  A directory is not replaced, and
outside of the folder nothing is seen. -/
def put (folder : Folder) (path : String) (entry : Entry) : Except FileFault Folder :=
  (folder.target path).bind fun
    | .directory => .error .isDirectory
    | .name directory name slash =>
      if slash ∧ entry ≠ .directory then .error .isDirectory
      else (folder.find directory name).bind fun found =>
        if found = some .directory then .error .isDirectory
        else match directory with
          | .around => .ok folder
          | .within path => .ok (folder.set (path ++ [name]) entry)

def write (folder : Folder) (path content : String) : Except FileFault Folder :=
  folder.put path (.text content)

/-- The directories that a walk comes through, made where they are missing.  It ends early at a name
that cannot be one of a directory. -/
def makeAlong (folder : Folder) (directory : Directory) : List String → Folder
  | [] => folder
  | part :: rest =>
    if part = "." then folder.makeAlong directory rest
    else if part = ".." then folder.makeAlong directory.parent rest
    else match folder.find directory part, directory with
      | .error _, _ | .ok (some (.text _)), _ | .ok (some (.bytes _)), _ => folder
      | .ok (some .directory), _ | .ok none, .around => folder.makeAlong (directory.child part) rest
      | .ok none, .within path =>
        (folder.set (path ++ [part]) .directory).makeAlong (directory.child part) rest

/-- All directories before the last name or `..` of a written path. -/
def makeDirectories (folder : Folder) (path : String) : Folder :=
  folder.makeAlong (.start path) (pathOf path).dropLast

end Folder

end TextScore
