import TextScore.Folder
import TextScore.Library.Store

/-!
# FileStore — a library kept in one file

The file is created by the first write, with the directories that lead to it.  A file that cannot be
decoded reads as an empty library, but nothing is ever written over it: what is read before a write
fails on such a file.
-/

namespace TextScore.Library

inductive FileContent where
  | missing
  | text (content : String)
  /-- Bytes that are no UTF-8. -/
  | bytes (content : List UInt8)
  | directory
  /-- The path cannot be followed to its end. -/
  | unreachable (fault : FileFault)
  /-- Nothing, at a path where no file can be.  Once a write has made the directories on the way, the
  path shows the fault `later`, if any. -/
  | barred (later : Option FileFault)
  deriving DecidableEq, Repr

def FileContent.ofFolder (folder : Folder) (path : String) : FileContent :=
  match folder.entryAt path with
  | .ok (.text content) => .text content
  | .ok (.bytes content) => .bytes content
  | .ok .directory => .directory
  | .error .notFound =>
    let folder := folder.makeDirectories path
    match folder.write path "", folder.entryAt path with
    | .ok _, _ => .missing
    | .error _, .ok .directory => .barred (some .isDirectory)
    | .error _, .ok _ | .error _, .error .notFound => .barred none
    | .error _, .error fault => .barred (some fault)
  | .error fault => .unreachable fault

structure FileStore where
  path : String
  content : FileContent
  deriving DecidableEq, Repr

namespace FileStore

/-- The text of the file, or nothing while there is no file. -/
def readText (store : FileStore) : Except ScoreError (Option String) :=
  match store.content with
  | .missing | .barred _ => .ok none
  | .text content => .ok (some content)
  | .bytes _ => .error (.storage (.file .notUtf8))
  | .directory => .error (.storage (.file .isDirectory))
  | .unreachable fault => .error (.storage (.file fault))

def unreadableRemark (path : String) (fault : StorageFault) : Remark :=
  ⟨.warn, s!"ignoring unreadable library {path}: {(ScoreError.storage fault).message}"⟩

/-- A text that cannot be decoded reads as an empty library. -/
def read (store : FileStore) : Reading (List Record) :=
  match store.readText with
  | .error e => ⟨.error e, []⟩
  | .ok none => ⟨.ok [], []⟩
  | .ok (some text) =>
    match decode text with
    | .ok items => ⟨.ok items, decodeJournal text⟩
    | .error fault => ⟨.ok [], [unreadableRemark store.path fault]⟩

/-- A text that cannot be decoded must not be written over. -/
def readForWrite (store : FileStore) : Reading (List Record) :=
  match store.readText with
  | .error e => ⟨.error e, []⟩
  | .ok none => ⟨.ok [], []⟩
  | .ok (some text) =>
    match decode text with
    | .ok items => ⟨.ok items, decodeJournal text⟩
    | .error fault => ⟨.error (.storage (.wouldOverwrite store.path fault)), []⟩

/-- A file is written as a whole, where there can be one. -/
def write (store : FileStore) (items : List Record) : Reply FileStore Unit :=
  match store.content with
  | .missing | .text _ | .bytes _ => ⟨{ store with content := .text (encode items) }, .ok (), []⟩
  | .directory => ⟨store, .error (.storage (.file .isDirectory)), []⟩
  | .unreachable fault => ⟨store, .error (.storage (.file fault)), []⟩
  | .barred none => ⟨store, .error (.storage (.file .notFound)), []⟩
  | .barred (some fault) =>
    ⟨{ store with content := .unreachable fault }, .error (.storage (.file fault)), []⟩

end FileStore

instance : Store FileStore where
  read := FileStore.read
  readForWrite := FileStore.readForWrite
  write := FileStore.write

end TextScore.Library
