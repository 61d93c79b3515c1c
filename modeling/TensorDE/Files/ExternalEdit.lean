import TensorDE.Files.Path
import TensorDE.Lib.Maps
import TensorDE.Lib.Trace

namespace TensorDE.Files.Privilege

open TensorDE.Maps

abbrev Content := List UInt8

inductive Place where
  | elsewhere (path : Path)
  | scratch (token : Nat) (name : OsStr)
deriving DecidableEq

def Place.fileName : Place → Option OsStr
  | .elsewhere path => path.fileName
  | .scratch _ name => some name

/-- `"edit"`. -/
def fallbackName : OsStr := [0x65, 0x64, 0x69, 0x74]

/-- A regular file. `node` tells it from a file that takes its path later. -/
structure File where
  node : Nat
  content : Content
  modified : Option Nat
deriving DecidableEq

structure ExternalEdit where
  originalPath : Place
  scratchPath : Place
  originalLen : Nat
  originalModified : Option Nat
  unit : Option String
  createdSecs : Nat
deriving DecidableEq

def ExternalEdit.matches (edit : ExternalEdit) (file : File) : Bool :=
  file.content.length = edit.originalLen && file.modified = edit.originalModified

inductive Actor where
  | watcher | commit | unit | expiry
deriving DecidableEq

/-- The watcher threads keep the map locked throughout. -/
def Actor.keepsLock : Actor → Bool
  | .watcher | .unit => true
  | .commit | .expiry => false

/-- The next call of `sync_external_edit`, or the removal of the scratch directory after it. -/
inductive Stage where
  | isFile
  | metadata
  | read
  | truncate (data : Content)
  | write (node : Nat) (data : Content)
  | flush (data : Content)
  | record (data : Content)
  | cleanup
deriving DecidableEq

structure Task where
  actor : Actor
  token : Nat
  edit : ExternalEdit
  stage : Stage
deriving DecidableEq

/-- How a call of the file system ends: `time` is the modification time of a file that it changes, and `done` what it
has done before it failed. -/
inductive Answer where
  | ok (time : Option Nat)
  | failed (done : Nat) (time : Option Nat)

def Answer.isOk : Answer → Bool
  | .ok _ => true
  | .failed .. => false

def Answer.time : Answer → Option Nat
  | .ok time | .failed _ time => time

/-- A change of an original by a task: what it has then, and whether it was until then as the edit has it recorded or as
the task has left it. -/
structure Change where
  task : Nat
  original : Place
  scratch : Place
  after : Content
  recorded : Bool
deriving DecidableEq

/-- A commit that has returned an error, and whether the edit can be committed again. -/
structure Refusal where
  token : Nat
  kept : Bool
deriving DecidableEq

/-- The end of a scratch file: what it had, and what the original had after the last synchronisation. -/
structure Deletion where
  token : Nat
  discarded : Bool
  content : Option Content
  synced : Option Content
deriving DecidableEq

/-- The files and the service. `holder` is the task that keeps the edits locked, `preparing` an edit whose original has
been looked at and `expired` what is left of a sweep. From `synced` on everything is history. -/
structure World where
  files : Place → Option File
  edits : Map Nat ExternalEdit
  nextToken : Nat
  preparing : Option (Nat × Place × File)
  expired : List Nat
  units : List Nat
  holder : Option Nat
  tasks : Map Nat Task
  nextTask : Nat
  synced : Map Nat Content
  seen : List (Place × Content)
  changes : List Change
  failures : List Nat
  refusals : List Refusal
  deletions : List Deletion

inductive Event where
  | outside (place : Place) (file : Option File)
  | prepare (path : Place)
  | prepared (answer : Answer) (file : File) (now : Nat)
  | writeback (token : Nat)
  | commit (token : Nat) (scratchPath : Place)
  | discard (token : Nat) (answer : Answer)
  | associate (token : Nat) (unit : String)
  | unitFinished (token : Nat)
  | expire (now : Nat)
  | expireNext
  | advance (task : Nat) (answer : Answer)

namespace World

def start (files : Place → Option File) : World :=
  ⟨fun place => match place with | .scratch .. => none | place => files place, .empty, 0, none, [], [], none, .empty, 0,
    .empty, [], [], [], [], []⟩

def content (w : World) (place : Place) : Option Content := (w.files place).map File.content

variable (w : World)

def put (place : Place) (file : Option File) : World :=
  { w with
    files := Function.update w.files place file
    seen := w.seen ++ (file.map fun file => (place, file.content)).toList }

/-- `cleanup_scratch_token_dir`. What it has done before it fails is to remove the scratch file, or nothing. -/
def cleanup (token : Nat) (scratchPath : Place) (discarded : Bool) (answer : Answer) : World :=
  let files : Place → Option File :=
    match answer with
    | .ok _ => fun place =>
      match place with
      | .scratch owner name => if owner = token then none else w.files (.scratch owner name)
      | place => w.files place
    | .failed 0 _ => w.files
    | .failed (_ + 1) _ => Function.update w.files scratchPath none
  { w with
    files := files
    deletions := if w.files scratchPath ≠ none ∧ files scratchPath = none then
        w.deletions ++ [⟨token, discarded, w.content scratchPath, w.synced.find token⟩]
      else w.deletions }

def startTask (actor : Actor) (token : Nat) (edit : ExternalEdit) : World :=
  { w with
    tasks := w.tasks.insert w.nextTask ⟨actor, token, edit, .isFile⟩
    nextTask := w.nextTask + 1
    holder := if actor.keepsLock then some w.nextTask else w.holder }

def goto (id : Nat) (task : Task) (stage : Stage) : World :=
  { w with tasks := w.tasks.insert id { task with stage := stage } }

def endTask (id : Nat) : World :=
  { w with
    tasks := w.tasks.erase id
    holder := if w.holder = some id then none else w.holder }

def refuse (token : Nat) (edit : ExternalEdit) : World :=
  { w with
    refusals := w.refusals ++
      [⟨token, w.edits.find token = some edit && (w.files edit.scratchPath).isSome⟩] }

/-- Whether the next call of a task succeeds, and with it what is checked after the call. -/
def succeeds (task : Task) (answer : Answer) : Bool :=
  answer.isOk && match task.stage with
    | .isFile | .read => (w.files task.edit.scratchPath).isSome
    | .metadata => (w.files task.edit.originalPath).any task.edit.matches
    | .truncate _ | .record _ => (w.files task.edit.originalPath).isSome
    | .write .. | .flush _ | .cleanup => true

def change (id : Nat) (task : Task) (file : File) (recorded : Bool) : World :=
  { w.put task.edit.originalPath (some file) with
    changes := w.changes ++ [⟨id, task.edit.originalPath, task.edit.scratchPath, file.content, recorded⟩] }

/-- `write_all` to the file that was opened, from its beginning. -/
def write (id : Nat) (task : Task) (node : Nat) (data : Content) (time : Option Nat) : World :=
  match w.files task.edit.originalPath with
  | some file =>
    if file.node = node then
      w.change id task { file with content := data ++ file.content.drop data.length, modified := time }
        (file.content = [])
    else w
  | none => w

/-- A synchronisation has failed. The unit watcher and the sweep go on to remove the scratch directory. -/
def fail (id : Nat) (task : Task) : World :=
  let w := { w with failures := w.failures ++ [id] }
  match task.actor with
  | .watcher => w.endTask id
  | .commit => (w.endTask id).refuse task.token task.edit
  | .unit | .expiry => w.goto id task .cleanup

/-- The original is `file` now. -/
def finish (id : Nat) (task : Task) (file : File) : World :=
  let w := { w with synced := w.synced.insert task.token file.content }
  match task.actor with
  | .watcher =>
    { w.endTask id with
      edits := w.edits.modify task.token fun edit =>
        { edit with originalLen := file.content.length, originalModified := file.modified } }
  | _ => w.goto id task .cleanup

def proceed (id : Nat) (task : Task) (answer : Answer) : World :=
  match task.stage with
  | .isFile => w.goto id task .metadata
  | .metadata => w.goto id task .read
  | .read => w.goto id task (.truncate ((w.content task.edit.scratchPath).getD []))
  | .truncate data =>
    match w.files task.edit.originalPath with
    | some file =>
      (w.change id task { file with content := [], modified := answer.time } (task.edit.matches file)).goto id task
        (.write file.node data)
    | none => w
  | .write node data => (w.write id task node data answer.time).goto id task (.flush data)
  | .flush data => w.goto id task (.record data)
  | .record _ =>
    match w.files task.edit.originalPath with
    | some file => w.finish id task file
    | none => w
  | .cleanup => (w.cleanup task.token task.edit.scratchPath false answer).endTask id

def stop (id : Nat) (task : Task) (answer : Answer) : World :=
  match task.stage, answer with
  | .write node data, .failed done time => (w.write id task node (data.take done) time).fail id task
  | .cleanup, answer => (w.cleanup task.token task.edit.scratchPath false answer).endTask id
  | _, _ => w.fail id task

def advance (id : Nat) (task : Task) (answer : Answer) : World :=
  if w.succeeds task answer then w.proceed id task answer else w.stop id task answer

def prepared (token : Nat) (path : Place) (original : File) (answer : Answer) (file : File) (now : Nat) :
    World :=
  let scratchPath := Place.scratch token (path.fileName.getD fallbackName)
  let w := { w with preparing := none }
  match answer with
  | .ok _ =>
    match w.files path with
    | some source =>
      { w.put scratchPath (some { file with content := source.content }) with
        edits := w.edits.insert token ⟨path, scratchPath, original.content.length, original.modified, none, now⟩ }
    | none => w
  | .failed 0 _ => w
  | .failed (_ + 1) _ => w.put scratchPath (some file)

def commit (w : World) (token : Nat) (scratchPath : Place) : World :=
  match w.edits.find token with
  | none => w
  | some edit =>
    let w := { w with edits := w.edits.erase token }
    if edit.scratchPath = scratchPath then w.startTask .commit token edit else w.refuse token edit

def discard (token : Nat) (answer : Answer) : World :=
  match w.edits.find token with
  | none => w
  | some edit => { w with edits := w.edits.erase token }.cleanup token edit.scratchPath true answer

def takeEdit (actor : Actor) (token : Nat) : World :=
  match w.edits.find token with
  | none => w
  | some edit => { w with edits := w.edits.erase token }.startTask actor token edit

def externalEditTtlSeconds : Nat := 24 * 60 * 60

/-- Nothing but a running task goes on while the edits are locked. The directory of a token is not there before the
token is. -/
def step : Event → Option World
  | .outside place file =>
    match place with
    | .scratch token _ => if token < w.nextToken then some (w.put place file) else none
    | .elsewhere _ => some (w.put place file)
  | .prepare path =>
    match w.preparing, w.files path with
    | none, some file => some { w with
        preparing := some (w.nextToken, path, file)
        nextToken := w.nextToken + 1 }
    | _, _ => none
  | .prepared answer file now =>
    match w.holder, w.preparing with
    | none, some (token, path, original) => some (w.prepared token path original answer file now)
    | _, _ => none
  | .writeback token =>
    match w.holder, w.edits.find token with
    | none, some edit => some (w.startTask .watcher token edit)
    | _, _ => none
  | .commit token scratchPath => if w.holder = none then some (w.commit token scratchPath) else none
  | .discard token answer => if w.holder = none then some (w.discard token answer) else none
  | .associate token unit =>
    match w.holder, w.edits.find token with
    | none, some _ => some { w with
        edits := w.edits.modify token fun edit => { edit with unit := some unit }
        units := w.units ++ [token] }
    | _, _ => none
  | .unitFinished token =>
    if w.holder = none ∧ token ∈ w.units then
      some ({ w with units := w.units.erase token }.takeEdit .unit token)
    else none
  | .expire now =>
    if w.holder = none ∧ w.expired = [] then
      some { w with
        expired := w.edits.keys.filter fun token =>
          (w.edits.find token).any fun edit => edit.createdSecs ≤ now - externalEditTtlSeconds }
    else none
  | .expireNext =>
    match w.holder, w.expired with
    | none, token :: rest => some ({ w with expired := rest }.takeEdit .expiry token)
    | _, _ => none
  | .advance id answer => (w.tasks.find id).map fun task => w.advance id task answer

end World

end TensorDE.Files.Privilege
