import TensorDE.Lib.Effect
import TensorDE.Lib.Bytes
import Mathlib.Data.List.Infix

namespace TensorDE.FileSystem

open List

abbrev Name := List UInt8

/-- A path whose links have been followed, with the last name first. -/
abbrev Location := List Name

structure Access where
  read : Bool
  write : Bool
  execute : Bool
deriving DecidableEq

def Access.without (access mask : Access) : Access :=
  ⟨access.read && !mask.read, access.write && !mask.write, access.execute && !mask.execute⟩

structure Mode where
  setuid : Bool
  setgid : Bool
  sticky : Bool
  owner : Access
  group : Access
  other : Access
deriving DecidableEq

def Mode.all : Mode := ⟨false, false, false, ⟨true, true, true⟩, ⟨true, true, true⟩, ⟨true, true, true⟩⟩

/-- The same access for everyone, less what the mask takes away. -/
def Mode.uniform (access : Access) (mask : Mode) : Mode :=
  ⟨false, false, false, access.without mask.owner, access.without mask.group, access.without mask.other⟩

/-- A process. `privileged` is the right to override permissions and to keep the set-id bits. -/
structure User where
  uid : Nat
  gid : Nat
  groups : List Nat
  privileged : Bool

def User.inGroup (user : User) (gid : Nat) : Bool := gid = user.gid || user.groups.contains gid

inductive Errno where
  | notFound
  | permissionDenied
  | alreadyExists
  | notADirectory
  | isADirectory
  | directoryNotEmpty
  | interrupted
  | other (code : Nat)
deriving DecidableEq

/-- A special file, such as a pipe, is what opening and reading it gives. -/
inductive Body where
  | file (content : Bytes)
  | directory (names : List Name)
  | symlink (target : Bytes)
  | special (stream : Except Errno Bytes)
deriving DecidableEq

structure Inode where
  uid : Nat
  gid : Nat
  mode : Mode
  body : Body
deriving DecidableEq

namespace Inode

variable (inode : Inode)

def isDirectory : Bool :=
  match inode.body with
  | .directory _ => true
  | _ => false

def isSymlink : Bool :=
  match inode.body with
  | .symlink _ => true
  | _ => false

/-- The size in the metadata, of 64 bits. -/
def len : Nat :=
  match inode.body with
  | .file content => min content.length (2 ^ 64 - 1)
  | .symlink target => min target.length (2 ^ 64 - 1)
  | .directory _ | .special _ => 0

/-- What reading from the start on gives. -/
def stream : Option Bytes :=
  match inode.body with
  | .file content | .special (.ok content) => some content
  | _ => none

variable (name : Name)

def addName (inode : Inode) : Inode :=
  match inode.body with
  | .directory names => { inode with body := .directory (names ++ [name]) }
  | _ => inode

def dropName (inode : Inode) : Inode :=
  match inode.body with
  | .directory names => { inode with body := .directory (names.filter fun other => other ≠ name) }
  | _ => inode

variable (name : Name) (inode : Inode)

@[simp] theorem addName_uid : (inode.addName name).uid = inode.uid := by
  unfold addName
  split <;> rfl

@[simp] theorem addName_gid : (inode.addName name).gid = inode.gid := by
  unfold addName
  split <;> rfl

@[simp] theorem addName_mode : (inode.addName name).mode = inode.mode := by
  unfold addName
  split <;> rfl

@[simp] theorem addName_isDirectory : (inode.addName name).isDirectory = inode.isDirectory := by
  grind [addName, isDirectory]

end Inode

namespace User

variable (user : User)

def access (inode : Inode) : Access :=
  if user.uid = inode.uid then inode.mode.owner
  else if user.inGroup inode.gid then inode.mode.group else inode.mode.other

def may (inode : Inode) (right : Access → Bool) : Bool := user.privileged || right (user.access inode)

/-- The group of a new file: a set-group-id directory hands its own down. -/
def gidIn (parent : Inode) : Nat := if parent.mode.setgid then parent.gid else user.gid

/-- Whether the set-group-id bit of the user's own files of a group stays. -/
def keepsGroup (gid : Nat) : Bool := user.privileged || user.inGroup gid

/-- What `chmod` makes of a mode. -/
def granted (gid : Nat) (mode : Mode) : Mode :=
  if user.keepsGroup gid then mode else { mode with setgid := false }

/-- What writing to a regular file leaves of its mode. -/
def afterWrite (mode : Mode) : Mode :=
  if user.privileged then mode
  else { mode with
    setuid := false
    setgid := mode.setgid && !mode.group.execute }

variable (user : User)

@[simp] theorem granted_owner (gid : Nat) (mode : Mode) : (user.granted gid mode).owner = mode.owner := by
  unfold granted
  split <;> rfl

theorem keepsGroup_of_granted {user : User} {gid : Nat} {mode : Mode} (h : (user.granted gid mode).setgid) :
    user.keepsGroup gid := by
  grind [granted]

theorem keepsGroup_gidIn {user : User} {parent : Inode} {mode : Mode} (h : parent.mode = user.granted parent.gid mode) :
    user.keepsGroup (user.gidIn parent) := by
  grind -linarith [gidIn, keepsGroup_of_granted, keepsGroup, inGroup]

variable (name : Name) (inode : Inode)

@[simp] theorem access_addName :
    user.access (inode.addName name) = user.access inode := by simp [access]

@[simp] theorem may_addName (right : Access → Bool) :
    user.may (inode.addName name) right = user.may inode right := by simp [may]

@[simp] theorem afterWrite_afterWrite (mode : Mode) :
    user.afterWrite (user.afterWrite mode) = user.afterWrite mode := by
  grind [afterWrite]

end User

abbrev Disk := Location → Option Inode

namespace Disk

variable (disk : Disk)

def set (path : Location) (inode : Inode) : Disk :=
  fun other => if other = path then some inode else disk other

def clear (path : Location) : Disk := fun other => if other = path then none else disk other

/-- A new item in its directory. -/
def add (name : Name) (dir : Location) (parent inode : Inode) : Disk :=
  (disk.set dir (parent.addName name)).set (name :: dir) inode

def drop (name : Name) (dir : Location) (parent : Inode) : Disk :=
  (disk.set dir (parent.dropName name)).clear (name :: dir)

variable (disk : Disk) (path : Location) (inode : Inode)

@[simp] theorem set_self : disk.set path inode path = some inode :=
  if_pos rfl

theorem set_of_ne {path other : Location} (h : other ≠ path) :
    disk.set path inode other = disk other := if_neg h

@[simp] theorem set_set (first last : Inode) : (disk.set path first).set path last = disk.set path last := by
  grind [set]

variable (name : Name) (dir : Location)

@[simp] theorem add_self (parent inode : Inode) :
    disk.add name dir parent inode (name :: dir) = some inode := set_self ..

@[simp] theorem add_parent (parent inode : Inode) :
    disk.add name dir parent inode dir = some (parent.addName name) := by
  rw [add, set_of_ne _ _ (by simp), set_self]

theorem add_of_ne {name : Name} {dir other : Location} (parent inode : Inode) (hself : other ≠ name :: dir)
    (hdir : other ≠ dir) : disk.add name dir parent inode other = disk other := by
  rw [add, set_of_ne _ _ hself, set_of_ne _ _ hdir]

@[simp] theorem add_set (parent first last : Inode) :
    (disk.add name dir parent first).set (name :: dir) last = disk.add name dir parent last := set_set ..

def under (disk : Disk) (path : Location) : Disk := fun inner => disk (inner ++ path)

theorem under_apply (path inner : Location) : disk.under path inner = disk (inner ++ path) := rfl

theorem under_under (path inner : Location) : (disk.under path).under inner = disk.under (inner ++ path) := by
  funext other
  simp [under]

/-- A directory lists each item in it once, and nothing lies outside a directory. -/
structure Valid (disk : Disk) : Prop where
  listed : ∀ name dir, (disk (name :: dir)).isSome ↔
    ∃ inode names, disk dir = some inode ∧ inode.body = .directory names ∧ name ∈ names
  once : ∀ dir inode names, disk dir = some inode → inode.body = .directory names → names.Nodup

variable {disk : Disk}

theorem Valid.under (h : disk.Valid) (path : Location) : (disk.under path).Valid :=
  ⟨fun name dir => h.listed name (dir ++ path), fun dir => h.once (dir ++ path)⟩

variable {path : Location}

theorem Valid.leaf (h : disk.Valid) {inode : Inode} (hinode : disk path = some inode)
    (hleaf : inode.isDirectory = false) (name : Name) (inner : Location) : disk (inner ++ name :: path) = none := by
  induction inner with
  | nil =>
    rw [nil_append, ← Option.not_isSome_iff_eq_none, h.listed]
    grind [Inode.isDirectory]
  | cons next inner ih => grind +splitImp +splitIndPred [Option.not_isSome_iff_eq_none]

theorem Valid.below_free (h : disk.Valid) (hfree : disk path = none)
    (inner : Location) : disk (inner ++ path) = none := by
  induction inner with
  | nil => exact hfree
  | cons name inner ih => grind +splitImp +splitIndPred [Option.not_isSome_iff_eq_none]

end Disk

section Calls

variable (user : User)

/-- The directory at a location, for a user who may pass through it and the directories above it. -/
def searchDirectory (disk : Disk) : Location → Except Errno Inode
  | [] => pass (disk [])
  | name :: dir => do
    let _ ← searchDirectory disk dir
    pass (disk (name :: dir))
where
  pass : Option Inode → Except Errno Inode
    | none => .error .notFound
    | some inode =>
      if inode.isDirectory then
        if user.may inode Access.execute then .ok inode else .error .permissionDenied
      else .error .notADirectory

def find (disk : Disk) (path : Location) : Except Errno Inode :=
  match disk path with
  | none => .error .notFound
  | some inode => .ok inode

variable (path : Location)

/-- The metadata of what a path names, a link included. -/
def lookup (disk : Disk) : Except Errno Inode :=
  match path with
  | [] => find disk []
  | name :: dir => do
    let _ ← searchDirectory user disk dir
    find disk (name :: dir)

def readLink (disk : Disk) : Except Errno Bytes := do
  let inode ← lookup user path disk
  match inode.body with
  | .symlink target => .ok target
  | _ => .error (.other 22)

def readDir (disk : Disk) : Except Errno (List Name) := do
  let inode ← lookup user path disk
  match inode.body with
  | .directory names => if user.may inode Access.read then .ok names else .error .permissionDenied
  | _ => .error .notADirectory

/-- Opening for reading. What is open is named by its location: nothing is moved in the meantime. -/
def openRead (disk : Disk) : Except Errno Unit := do
  let inode ← lookup user path disk
  if user.may inode Access.read then
    match inode.body with
    | .special (.error e) => .error e
    | _ => .ok ()
  else .error .permissionDenied

/-- At most `amount` bytes from a position on, and none at the end only. -/
def readAt (position amount : Nat) (disk : Disk) : Except Errno Bytes := do
  let inode ← find disk path
  match inode.body with
  | .file content | .special (.ok content) => .ok ((content.drop position).take (max 1 amount))
  | .directory _ => .error .isADirectory
  | .special (.error e) => .error e
  | .symlink _ => .error (.other 40)

/-- A new item, which its directory must have no name for. -/
def create (mode : Inode → Mode) (body : Body) (disk : Disk) : Except Errno Disk :=
  match path with
  | [] => .error .alreadyExists
  | name :: dir => do
    let parent ← searchDirectory user disk dir
    if (disk (name :: dir)).isSome then .error .alreadyExists
    else if user.may parent Access.write then
      .ok (disk.add name dir parent ⟨user.uid, user.gidIn parent, mode parent, body⟩)
    else .error .permissionDenied

variable (umask : Mode)

/-- A new directory takes the set-group-id bit of the directory it is in. -/
def createDir (path : Location) (disk : Disk) : Except Errno Disk :=
  create user path (fun parent => { Mode.uniform ⟨true, true, true⟩ umask with setgid := parent.mode.setgid })
    (.directory []) disk

def symlink (target : Bytes) (path : Location) (disk : Disk) : Except Errno Disk :=
  create user path (fun _ => .all) (.symlink target) disk

/-- Opening for writing, with the file created or emptied. A link or a special file there is not followed. -/
def createFile (path : Location) (disk : Disk) : Except Errno Disk :=
  match lookup user path disk with
  | .error .notFound => create user path (fun _ => .uniform ⟨true, true, false⟩ umask) (.file []) disk
  | .error e => .error e
  | .ok inode =>
    match inode.body with
    | .file _ =>
      if user.may inode Access.write then
        .ok (disk.set path { inode with
          mode := user.afterWrite inode.mode
          body := .file [] })
      else .error .permissionDenied
    | .directory _ => .error .isADirectory
    | .symlink _ | .special _ => .error (.other 6)

def writeAt (position : Nat) (bytes : Bytes) (disk : Disk) : Except Errno Disk := do
  let inode ← find disk path
  match inode.body with
  | .file content =>
    .ok (disk.set path { inode with
      mode := user.afterWrite inode.mode
      body := .file (content.take position ++ List.replicate (position - content.length) 0 ++ bytes ++
        content.drop (position + bytes.length)) })
  | _ => .error (.other 9)

def setOpenPermissions (mode : Mode) (disk : Disk) : Except Errno Disk := do
  let inode ← find disk path
  if user.privileged ∨ user.uid = inode.uid then
    .ok (disk.set path { inode with mode := user.granted inode.gid mode })
  else .error .permissionDenied

def setPermissions (mode : Mode) (disk : Disk) : Except Errno Disk := do
  let _ ← lookup user path disk
  setOpenPermissions user path mode disk

/-- In a sticky directory only the owner of an item or of the directory removes it. -/
def mayRemove (parent inode : Inode) : Bool :=
  user.may parent Access.write &&
    (!parent.mode.sticky || user.privileged || user.uid = inode.uid || user.uid = parent.uid)

def removeFile (disk : Disk) : Except Errno Disk :=
  match path with
  | [] => .error .isADirectory
  | name :: dir => do
    let parent ← searchDirectory user disk dir
    let inode ← find disk (name :: dir)
    if mayRemove user parent inode then
      if inode.isDirectory then .error .isADirectory else .ok (disk.drop name dir parent)
    else .error .permissionDenied

def removeDir (disk : Disk) : Except Errno Disk :=
  match path with
  | [] => .error (.other 16)
  | name :: dir => do
    let parent ← searchDirectory user disk dir
    let inode ← find disk (name :: dir)
    if mayRemove user parent inode then
      match inode.body with
      | .directory [] => .ok (disk.drop name dir parent)
      | .directory _ => .error .directoryNotEmpty
      | _ => .error .notADirectory
    else .error .permissionDenied

end Calls

variable {user : User} {disk : Disk}

def Passable (user : User) (disk : Disk) (path : Location) : Prop :=
  ∃ inode, disk path = some inode ∧ inode.isDirectory ∧ user.may inode Access.execute

/-- The user may pass through the directories above a path. -/
def Reached (user : User) (disk : Disk) (path : Location) : Prop :=
  ∀ above, above <:+ path → above ≠ path → Passable user disk above

variable {inode : Inode}

theorem pass_eq_ok {found : Option Inode} : searchDirectory.pass user found = .ok inode ↔
      found = some inode ∧ inode.isDirectory ∧ user.may inode Access.execute := by
  cases found with
  | none => simp [searchDirectory.pass]
  | some other => grind [searchDirectory.pass]

theorem reached_nil : Reached user disk [] := by
  intro above h hne
  exact absurd (suffix_nil.mp h) hne

variable {name : Name} {dir : Location}

theorem reached_cons : Reached user disk (name :: dir) ↔ Reached user disk dir ∧ Passable user disk dir := by
  constructor
  · intro h
    refine ⟨fun above habove _ => h above (habove.trans (suffix_cons name dir)) ?_, h dir (suffix_cons name dir) (by simp)⟩
    grind [habove.length_le]
  · rintro ⟨habove, hdir⟩ above h hne
    rcases suffix_cons_iff.mp h with rfl | h
    · exact absurd rfl hne
    · by_cases heq : above = dir
      · exact heq ▸ hdir
      · exact habove above h heq

variable {path : Location}

theorem searchDirectory_eq_ok : searchDirectory user disk path = .ok inode ↔
      Reached user disk path ∧ disk path = some inode ∧ inode.isDirectory ∧ user.may inode Access.execute := by
  induction path generalizing inode with
  | nil => grind [searchDirectory, pass_eq_ok, reached_nil]
  | cons name dir ih =>
    rw [searchDirectory, Effect.except_bind_eq_ok, reached_cons]
    constructor
    · rintro ⟨parent, hparent, h⟩
      obtain ⟨hreached, hdir, hpass⟩ := ih.mp hparent
      exact ⟨⟨hreached, parent, hdir, hpass⟩, (pass_eq_ok).mp h⟩
    · rintro ⟨⟨hreached, parent, hdir, hpass⟩, h⟩
      grind [pass_eq_ok]

theorem lookup_of_reached (h : Reached user disk path) : lookup user path disk = find disk path := by
  cases path with
  | nil => rfl
  | cons name dir =>
    obtain ⟨hdir, inode, hinode, hpass⟩ := (reached_cons).mp h
    rw [lookup, (searchDirectory_eq_ok).mpr ⟨hdir, hinode, hpass⟩]
    rfl

theorem find_of_some (h : disk path = some inode) : find disk path = .ok inode := by
  rw [find, h]

theorem find_of_none (h : disk path = none) : find disk path = .error .notFound := by
  rw [find, h]

variable (mode : Mode)

theorem setOpenPermissions_of_owner (hinode : disk path = some inode) (howner : inode.uid = user.uid) :
    setOpenPermissions user path mode disk =
      .ok (disk.set path { inode with mode := user.granted inode.gid mode }) := by
  rw [setOpenPermissions, find_of_some hinode]
  simp [Effect.except_ok_bind, howner]

theorem setPermissions_of_owner (hreached : Reached user disk path)
    (hinode : disk path = some inode) (howner : inode.uid = user.uid) :
    setPermissions user path mode disk = .ok (disk.set path { inode with mode := user.granted inode.gid mode }) := by
  rw [setPermissions, lookup_of_reached hreached, find_of_some hinode]
  exact setOpenPermissions_of_owner mode hinode howner

theorem find_eq_ok (h : find disk path = .ok inode) : disk path = some inode := by
  grind [find]

theorem lookup_eq_ok (h : lookup user path disk = .ok inode) : disk path = some inode := by
  cases path with
  | nil => exact find_eq_ok h
  | cons name dir =>
    obtain ⟨-, -, h⟩ := Effect.except_bind_eq_ok.mp h
    exact find_eq_ok h

/-- The user may make and remove names in a directory. -/
def User.mayChange (user : User) (parent : Inode) : Prop := user.may parent Access.write ∧ user.may parent Access.execute

variable {parent : Inode}

theorem create_of_mayChange (mode : Inode → Mode) (body : Body)
    (hreached : Reached user disk (name :: dir)) (hdir : disk dir = some parent) (hwrite : user.may parent Access.write)
    (hfree : disk (name :: dir) = none) : create user (name :: dir) mode body disk =
      .ok (disk.add name dir parent ⟨user.uid, user.gidIn parent, mode parent, body⟩) := by
  obtain ⟨habove, inode, hinode, hpass⟩ := reached_cons.mp hreached
  obtain rfl : inode = parent := Option.some.inj (hinode.symm.trans hdir)
  rw [create, searchDirectory_eq_ok.mpr ⟨habove, hinode, hpass⟩]
  simp [Effect.except_ok_bind, hfree, hwrite]

theorem create_of_not_mayChange (mode : Inode → Mode) (body : Body)
    (hdir : disk dir = some parent) (h : ¬user.mayChange parent) : ∃ e, create user (name :: dir) mode body disk = .error e := by
  rw [create]
  cases hsearch : searchDirectory user disk dir with
  | error e => exact ⟨e, rfl⟩
  | ok inode =>
    obtain ⟨-, hinode, -, hpass⟩ := searchDirectory_eq_ok.mp hsearch
    obtain rfl : inode = parent := Option.some.inj (hinode.symm.trans hdir)
    have hwrite : ¬user.may inode Access.write := fun hw => h ⟨hw, hpass⟩
    rw [Effect.except_ok_bind, if_neg hwrite]
    split <;> exact ⟨_, rfl⟩

theorem createFile_of_not_mayChange (umask : Mode)
    (hdir : disk dir = some parent) (h : ¬user.mayChange parent) (hfree : disk (name :: dir) = none) :
    ∃ e, createFile user umask (name :: dir) disk = .error e := by
  unfold createFile
  split
  · exact create_of_not_mayChange _ _ hdir h
  · exact ⟨_, rfl⟩
  · rename_i hlookup
    rw [lookup_eq_ok hlookup] at hfree
    cases hfree

theorem mayChange_of_owner (h : user.uid = inode.uid) :
    user.mayChange inode ↔ user.privileged ∨ inode.mode.owner.write ∧ inode.mode.owner.execute := by
  grind [User.mayChange, User.may, User.access]

section Frame

variable {name : Name} {dir path : Location} {parent inode : Inode}

theorem Passable.add (h : Passable user disk path) (hdir : disk dir = some parent) (hfree : disk (name :: dir) = none) :
    Passable user (disk.add name dir parent inode) path := by
  obtain ⟨found, hfound, hdirectory, hmay⟩ := h
  have hself : path ≠ name :: dir := by
    rintro rfl
    rw [hfree] at hfound
    cases hfound
  by_cases heq : path = dir
  · subst heq
    obtain rfl : found = parent := Option.some.inj (hfound.symm.trans hdir)
    exact ⟨found.addName name, disk.add_parent .., by simpa using hdirectory, by simpa using hmay⟩
  · exact ⟨found, (disk.add_of_ne _ _ hself heq).trans hfound, hdirectory, hmay⟩

theorem Reached.add (h : Reached user disk path) (hdir : disk dir = some parent) (hfree : disk (name :: dir) = none) :
    Reached user (disk.add name dir parent inode) path :=
  fun above habove hne => (h above habove hne).add hdir hfree

end Frame

end TensorDE.FileSystem
