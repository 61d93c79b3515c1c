import TensorDE.Lib.FileSystem

namespace TensorDE.Files.Transfer

open Effect FileSystem

structure TransferProgress where
  bytesDone : Nat
  bytesTotal : Nat
deriving DecidableEq

/-- Who copies and what the surroundings do to it: which of its calls fail, when the operation is cancelled, and how much
a read gives. -/
structure Setting where
  user : User
  umask : Mode
  fault : Nat → Option Errno
  isCancelled : Nat → Bool
  amount : Nat → Nat

/-- The calls of the file system are counted; `reports` is what `progress` has been called with. -/
structure Machine where
  disk : Disk
  calls : Nat
  reports : List TransferProgress

abbrev Task := Op Machine Errno

/-- `u64::saturating_add`. -/
def saturatingAdd (a b : Nat) : Nat := min (a + b) (2 ^ 64 - 1)

/-- Whether a call succeeds; an error is not passed on. -/
def succeeds {α : Type} (x : Task α) : Task Bool := fun s =>
  match x s with
  | .ok _ t => .ok true t
  | .error (.error _) t => .ok false t
  | .error e t => .error e t

/-- The two versions of each function differ in where a file gets its permissions and in which errors count. -/
inductive Version where
  | blocking
  | async
deriving DecidableEq

section Calls

variable (setting : Setting)

def call {α : Type} (f : Disk → Except Errno (α × Disk)) : Task α := fun s =>
  match setting.fault s.calls with
  | some e => .error (.error e) { s with calls := s.calls + 1 }
  | none =>
    match f s.disk with
    | .ok (a, disk) => .ok a ⟨disk, s.calls + 1, s.reports⟩
    | .error e => .error (.error e) { s with calls := s.calls + 1 }

def ask {α : Type} (f : Disk → Except Errno α) : Task α := call setting fun disk => (f disk).map fun a => (a, disk)

def change (f : Disk → Except Errno Disk) : Task Unit := call setting fun disk => (f disk).map fun after => ((), after)

def ensureNotCancelled : Task Unit := fun s =>
  if setting.isCancelled s.calls then .error (.error .interrupted) s else .ok () s

variable (path : Location)

def symlinkMetadata : Task Inode := ask setting (lookup setting.user path)

/-- `fs::metadata`. No call here is for a link. -/
def metadata : Task Inode := ask setting (lookup setting.user path)

def read (position : Nat) : Task Bytes := do
  let s ← get
  ask setting (readAt path position (min (setting.amount s.calls) (64 * 1024)))

def progress (report : TransferProgress) : Task Unit := modify fun s =>
  { s with reports := s.reports ++ [report] }

def pathSize : Nat → Location → Task Nat
  | 0, _ => throw .diverge
  | fuel + 1, path => do
    let inode ← symlinkMetadata setting path
    if inode.isDirectory then
      let names ← ask setting (readDir setting.user path)
      names.foldlM (fun total name => do
        let size ← pathSize fuel (name :: path)
        pure (saturatingAdd total size)) 0
    else pure inode.len

/-- `fs::remove_dir_all` and the removal of a file. -/
def removePath : Nat → Location → Task Unit
  | 0, _ => throw .diverge
  | fuel + 1, path => do
    let inode ← symlinkMetadata setting path
    if inode.isDirectory then
      let names ← ask setting (readDir setting.user path)
      names.forM fun name => removePath fuel (name :: path)
      change setting (removeDir setting.user path)
    else change setting (removeFile setting.user path)

variable (fuel : Nat)

def removePathIfPresent (path : Location) : Task Unit := fun s =>
  match symlinkMetadata setting path s with
  | .ok _ t => removePath setting fuel path t
  | .error (.error .notFound) t => .ok () t
  | .error e t => .error e t

def copySymlink (source destination : Location) (bytesTotal linkSize bytesDone : Nat) : Task Nat := do
  ensureNotCancelled setting
  let target ← ask setting (readLink setting.user source)
  change setting (symlink setting.user target destination)
  let bytesDone := min (saturatingAdd bytesDone linkSize) bytesTotal
  progress ⟨bytesDone, bytesTotal⟩
  pure bytesDone

/-- The loop of `copy_file`: `position` is where both files stand. -/
def copyBytes (source destination : Location) (bytesTotal : Nat) : Nat → Nat → Nat → Task Nat
  | 0, _, _ => throw .diverge
  | rounds + 1, position, bytesDone => do
    ensureNotCancelled setting
    let buffer ← read setting source position
    if buffer = [] then pure bytesDone
    else do
      change setting (writeAt setting.user destination position buffer)
      progress ⟨saturatingAdd bytesDone buffer.length, bytesTotal⟩
      copyBytes source destination bytesTotal rounds (position + buffer.length) (saturatingAdd bytesDone buffer.length)

variable (version : Version)

/-- The blocking version sets the permissions at the end, the other one before it writes. -/
def copyFile (rounds : Nat) (source destination : Location) (bytesTotal bytesDone : Nat) : Task Nat := do
  ask setting (openRead setting.user source)
  change setting (createFile setting.user setting.umask destination)
  match version with
  | .blocking => do
    let bytesDone ← copyBytes setting source destination bytesTotal rounds 0 bytesDone
    let _ ← succeeds do
      let inode ← metadata setting source
      change setting (setPermissions setting.user destination inode.mode)
    pure bytesDone
  | .async => do
    let _ ← succeeds do
      let inode ← metadata setting source
      change setting (setOpenPermissions setting.user destination inode.mode)
    copyBytes setting source destination bytesTotal rounds 0 bytesDone

/-- The permissions of a new directory: the asynchronous version goes on without them. -/
def copyPermissions (source destination : Location) : Task Unit :=
  match version with
  | .blocking => do
    let inode ← metadata setting source
    change setting (setPermissions setting.user destination inode.mode)
  | .async => do
    let _ ← succeeds do
      let inode ← metadata setting source
      change setting (setPermissions setting.user destination inode.mode)
    pure ()

/-- The loop of `copy_directory`; `inner` copies an item of the directory. -/
def copyEntries (inner : Location → Location → Nat → Task Nat) (source destination : Location) (names : List Name)
    (bytesDone : Nat) : Task Nat :=
  names.foldlM (fun bytesDone name => do
    ensureNotCancelled setting
    inner (name :: source) (name :: destination) bytesDone) bytesDone

def copyDirectory (inner : Location → Location → Nat → Task Nat) (source destination : Location)
    (bytesDone : Nat) : Task Nat := do
  change setting (createDir setting.user setting.umask destination)
  copyPermissions setting version source destination
  let names ← ask setting (readDir setting.user source)
  copyEntries setting inner source destination names bytesDone

/-- `copy_path_inner` for items at most `fuel` levels deep; `rounds` bounds the reads of one file. -/
def copyPathInner (version : Version) (rounds bytesTotal : Nat) : Nat → Location → Location → Nat → Task Nat
  | 0, _, _, _ => throw .diverge
  | fuel + 1, source, destination, bytesDone => do
    let inode ← symlinkMetadata setting source
    if inode.isSymlink then copySymlink setting source destination bytesTotal inode.len bytesDone
    else if inode.isDirectory then
      copyDirectory setting version (copyPathInner version rounds bytesTotal fuel) source destination bytesDone
    else copyFile setting version rounds source destination bytesTotal bytesDone

/-- A failed copy takes away what it has made, unless something was there before. -/
def orDiscard (destination : Location) (destinationPreexisting : Bool) (copy : Task Nat) : Task Unit := fun s =>
  match copy s with
  | .ok _ t => .ok () t
  | .error (.error e) t =>
    if destinationPreexisting then .error (.error e) t
    else
      match succeeds (removePathIfPresent setting fuel destination) t with
      | .ok _ u => .error (.error e) u
      | .error f u => .error f u
  | .error e t => .error e t

def copyPathAs (fuel rounds : Nat) (source destination : Location) : Task Unit := do
  ensureNotCancelled setting
  let destinationPreexisting ← succeeds (symlinkMetadata setting destination)
  let bytesTotal ← pathSize setting fuel source
  orDiscard setting fuel destination destinationPreexisting
    (copyPathInner setting version rounds bytesTotal fuel source destination 0)

def copyPath (fuel rounds : Nat) (source destination : Location) : Task Unit :=
  copyPathAs setting .blocking fuel rounds source destination

def copyPathAsync (fuel rounds : Nat) (source destination : Location) : Task Unit :=
  copyPathAs setting .async fuel rounds source destination

end Calls

end TensorDE.Files.Transfer
