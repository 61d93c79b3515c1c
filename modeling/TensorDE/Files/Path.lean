import TensorDE.Lib.Utf8

namespace TensorDE.Files

open Utf8

abbrev OsStr := List UInt8

/-- A path by its components, as the standard library compares paths: `rooted` for a leading slash,
then the names between the slashes. -/
structure Path where
  rooted : Bool
  parts : List OsStr
deriving DecidableEq

namespace Path

/-- `PathBuf::new`. -/
def empty : Path := ⟨false, []⟩

def slash : UInt8 := 0x2F

def dot : UInt8 := 0x2E

def dotDot : OsStr := [dot, dot]

variable (bytes : OsStr)

/-- The components of the text of a path: nothing for doubled slashes and for a single dot. -/
def components : List OsStr :=
  (bytes.splitOn slash).filter fun part => part ≠ [] ∧ part ≠ [dot]

def parse : Path := ⟨bytes.head? = some slash, components bytes⟩

variable (path : Path)

def join (bytes : OsStr) : Path :=
  if bytes.head? = some slash then parse bytes else ⟨path.rooted, path.parts ++ components bytes⟩

def parent : Option Path :=
  if path.parts = [] then none else some ⟨path.rooted, path.parts.dropLast⟩

def fileName : Option OsStr := path.parts.getLast?.filter fun part => part ≠ dotDot

def toBytes : OsStr :=
  (if path.rooted then [slash] else []) ++ List.intercalate [slash] path.parts

/-- The name split at its last dot; a leading dot does not count. -/
def splitFileAtDot (name : OsStr) : Option OsStr × Option OsStr :=
  if name = dotDot then (some name, none)
  else match name.reverse.idxOf? dot with
    | none => (none, some name)
    | some index =>
      if index + 1 = name.length then (some name, none)
      else (some (name.take (name.length - 1 - index)), some (name.drop (name.length - index)))

def fileStem : Option OsStr :=
  path.fileName.bind fun name => (splitFileAtDot name).1.or (splitFileAtDot name).2

def extension : Option OsStr :=
  path.fileName.bind fun name => (splitFileAtDot name).1.bind fun _ => (splitFileAtDot name).2

end Path

structure Places where
  trashFilesDir : Path
  trashInfoDir : Path
  isNetworkPath : Path → Bool

namespace Places

variable (places : Places)

def isTrashFilesDir (path : Path) : Bool := path = places.trashFilesDir

/-- `"trashinfo"`. -/
def trashinfo : OsStr := [0x74, 0x72, 0x61, 0x73, 0x68, 0x69, 0x6E, 0x66, 0x6F]

/-- The item of a directory that a path names. In the trash the file with the metadata of an item
stands for the item. -/
def directoryEntryPath (directory path : Path) : Option Path :=
  if places.isTrashFilesDir directory ∧ path.parent = some places.trashInfoDir ∧
      path.extension = some trashinfo then
    path.fileStem.map places.trashFilesDir.join
  else if path.parent = some directory then some path
  else none

def entryName (directory path : Path) : Option Str :=
  (places.directoryEntryPath directory path).bind fun item => item.fileName.map lossy

end Places

end TensorDE.Files
