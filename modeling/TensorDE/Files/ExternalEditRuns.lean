import TensorDE.Files.ExternalEdit

set_option linter.dupNamespace false

namespace TensorDE.Files.Privilege

open TensorDE.Maps TensorDE.Trace List

/-- No edit is lost. An original is overwritten from a scratch file and while it is as recorded, a writeback that fails
has changed nothing, a commit that is refused can be made again, and what ends without being discarded has been
written. -/
structure World.NoLoss (w : World) : Prop where
  overwritten : ∀ c ∈ w.changes, c.recorded = true ∧ (c.after = [] ∨ (c.scratch, c.after) ∈ w.seen)
  untouched : ∀ id ∈ w.failures, ∀ c ∈ w.changes, c.task ≠ id
  kept : ∀ r ∈ w.refusals, r.kept = true
  deleted : ∀ d ∈ w.deletions, d.discarded = true ∨ d.content = d.synced

/-- The files that a task counts on: the original from its check to its record, and a scratch file that is to be
removed from the time it was read. -/
def Task.Guards (task : Task) (place : Place) : Prop :=
  match task.stage with
  | .isFile | .metadata => False
  | .read => place = task.edit.originalPath
  | .truncate _ | .write .. | .flush _ | .record _ =>
    place = task.edit.originalPath ∨ task.actor ≠ .watcher ∧ place = task.edit.scratchPath
  | .cleanup => place = task.edit.scratchPath

/-- Where a call may fail: before the original is truncated, if the scratch file stays or has nothing new; and when the
scratch directory is removed. -/
def World.MayFail (w : World) (task : Task) : Prop :=
  match task.stage with
  | .isFile | .metadata | .read | .truncate _ =>
    match task.actor with
    | .watcher => True
    | .commit => False
    | .unit | .expiry =>
      w.content task.edit.scratchPath = none ∨ w.content task.edit.scratchPath = w.synced.find task.token
  | .write .. | .flush _ | .record _ => False
  | .cleanup => True

/-- Nobody changes a file that a task counts on, commits are made with the right path, and calls fail only where they
may. -/
structure World.Sparing (w : World) (e : Event) : Prop where
  quiet : ∀ w', w.step e = some w' → ∀ place, w'.files place ≠ w.files place → ∀ id task,
    w.tasks.find id = some task → (∀ answer, e ≠ .advance id answer) → ¬task.Guards place
  path : ∀ token scratchPath edit, e = .commit token scratchPath → w.edits.find token = some edit →
    edit.scratchPath = scratchPath
  calls : ∀ id answer task, e = .advance id answer → w.tasks.find id = some task → w.succeeds task answer = false →
    w.MayFail task

structure ExternalEdit.Proper (token : Nat) (edit : ExternalEdit) : Prop where
  scratch : ∃ name, edit.scratchPath = .scratch token name
  original : ∀ name, edit.originalPath ≠ .scratch token name

/-- Before the original has been opened. -/
def Stage.Early : Stage → Prop
  | .isFile | .metadata | .read | .truncate _ => True
  | .write .. | .flush _ | .record _ | .cleanup => False

namespace World

variable {w w' : World} {id token : Nat} {task : Task} {edit : ExternalEdit} {answer : Answer} {place : Place}

/-- Who has an edit: the map and perhaps a writeback, or a task that has taken it. -/
structure Books (w : World) : Prop where
  edits : ∀ token edit, w.edits.find token = some edit → edit.Proper token ∧ token < w.nextToken
  preparing : ∀ token path file, w.preparing = some (token, path, file) → token < w.nextToken
    ∧ w.edits.find token = none ∧ (∀ name, path ≠ .scratch token name)
    ∧ ∀ id task, w.tasks.find id = some task → task.token ≠ token
  tasks : ∀ id task, w.tasks.find id = some task → id < w.nextTask ∧ task.edit.Proper task.token
    ∧ task.token < w.nextToken
  owned : ∀ id task, w.tasks.find id = some task → task.actor ≠ .watcher → w.edits.find task.token = none
  watched : ∀ id task, w.tasks.find id = some task → task.actor = .watcher → w.edits.find task.token ≠ none
  locked : ∀ id task, w.tasks.find id = some task → task.actor.keepsLock = true → w.holder = some id
  one : ∀ id id' task task', w.tasks.find id = some task → w.tasks.find id' = some task' →
    task.token = task'.token → id = id'

theorem Books.free (h : w.Books) (hfree : w.holder = none) (hedit : w.edits.find token = some edit)
    (htask : w.tasks.find id = some task) : task.token ≠ token := by
  cases hactor : task.actor with
  | watcher => cases hfree.symm.trans (h.locked id task htask (by rw [hactor]; rfl))
  | commit => grind [h.owned]
  | unit => cases hfree.symm.trans (h.locked id task htask (by rw [hactor]; rfl))
  | expiry => grind [h.owned]

theorem find_startTask (w : World) (actor : Actor) (token : Nat) (edit : ExternalEdit) (id : Nat) :
    (w.startTask actor token edit).tasks.find id
      = if id = w.nextTask then some ⟨actor, token, edit, .isFile⟩ else w.tasks.find id := Map.find_insert ..

variable {actor : Actor} {edits : Map Nat ExternalEdit}

theorem Books.start (h : w.Books) (hfree : w.holder = none) (hedit : w.edits.find token = some edit) (hkeep : ∀ other, other ≠ token → edits.find other = w.edits.find other)
    (htoken : edits.find token = if actor = .watcher then some edit else none) :
    ({ w with edits := edits }.startTask actor token edit).Books := by
  obtain ⟨hproper, hlt⟩ := h.edits token edit hedit
  constructor
  · grind [h.edits, startTask]
  · intro other path file hpreparing
    obtain ⟨hother, hnone, hpath, htasks⟩ := h.preparing other path file hpreparing
    have hne : other ≠ token := by
      rintro rfl
      cases hnone.symm.trans hedit
    refine ⟨hother, (hkeep other hne).trans hnone, hpath, fun id task htask => ?_⟩
    grind [find_startTask]
  · intro id task htask
    rw [find_startTask] at htask
    split_ifs at htask with hid
    · cases htask
      exact ⟨hid ▸ Nat.lt_succ_self _, hproper, hlt⟩
    · obtain ⟨hid, hrest⟩ := h.tasks id task htask
      exact ⟨Nat.lt_succ_of_lt hid, hrest⟩
  · intro id task htask hactor
    rw [find_startTask] at htask
    grind [h.owned, startTask]
  · intro id task htask hactor
    rw [find_startTask] at htask
    grind [h.watched, h.free, startTask]
  · intro id task htask hlock
    rw [find_startTask] at htask
    split_ifs at htask with hid
    · cases htask
      rw [hid]
      exact if_pos hlock
    grind -linarith [h.locked]
  grind [find_startTask, h.free, h.one]

theorem Books.goto (h : w.Books) (htask : w.tasks.find id = some task) (stage : Stage) : (w.goto id task stage).Books := by
  have hfind : ∀ other, (w.goto id task stage).tasks.find other
      = if other = id then some { task with stage := stage } else w.tasks.find other := fun other => Map.find_insert ..
  have hold : ∀ other task', (w.goto id task stage).tasks.find other = some task' →
      ∃ old, w.tasks.find other = some old ∧ task'.token = old.token ∧ task'.edit = old.edit ∧ task'.actor = old.actor := by
    intro other task' hother
    rw [hfind] at hother
    split_ifs at hother with heq
    · cases hother
      exact ⟨task, heq ▸ htask, rfl, rfl, rfl⟩
    · exact ⟨task', hother, rfl, rfl, rfl⟩
  constructor
  · exact h.edits
  · intro other path file hpreparing
    obtain ⟨hother, hnone, hpath, htasks⟩ := h.preparing other path file hpreparing
    refine ⟨hother, hnone, hpath, fun id' task' htask' => ?_⟩
    grind
  · intro other task' hother
    obtain ⟨old, hfound, htoken, hedit, -⟩ := hold other task' hother
    rw [htoken, hedit]
    exact h.tasks other old hfound
  · grind [h.owned, goto]
  · grind [h.watched, goto]
  · grind -linarith [h.locked, goto]
  grind [h.one]

theorem find_endTask (w : World) (id other : Nat) :
    (w.endTask id).tasks.find other = if other = id then none else w.tasks.find other := Map.find_erase ..

theorem of_find_endTask {other : Nat} (h : (w.endTask id).tasks.find other = some task) :
    other ≠ id ∧ w.tasks.find other = some task := by
  grind [find_endTask]

theorem Books.endTask (h : w.Books) (id : Nat) : (w.endTask id).Books := by
  constructor
  · exact h.edits
  · intro token path file hpreparing
    obtain ⟨htoken, hnone, hpath, htasks⟩ := h.preparing token path file hpreparing
    exact ⟨htoken, hnone, hpath, fun other task hother => htasks other task (of_find_endTask hother).2⟩
  · exact fun other task hother => h.tasks other task (of_find_endTask hother).2
  · exact fun other task hother => h.owned other task (of_find_endTask hother).2
  · exact fun other task hother => h.watched other task (of_find_endTask hother).2
  · intro other task hother hlock
    obtain ⟨hne, hfound⟩ := of_find_endTask hother
    grind -linarith [h.locked, endTask]
  · exact fun other other' task task' hother hother' =>
      h.one other other' task task' (of_find_endTask hother).2 (of_find_endTask hother').2

variable {f : ExternalEdit → ExternalEdit}

/-- An edit of the map is changed, but not its files. -/
theorem Books.modify (h : w.Books) (token : Nat)
    (hf : ∀ edit, (f edit).scratchPath = edit.scratchPath ∧ (f edit).originalPath = edit.originalPath) :
    { w with edits := w.edits.modify token f }.Books := by
  have hfind : ∀ other, (w.edits.modify token f).find other
      = if other = token then (w.edits.find other).map f else w.edits.find other := fun other => Map.find_modify ..
  have hnone : ∀ other, (w.edits.modify token f).find other = none ↔ w.edits.find other = none := by
    intro other
    rw [hfind]
    split_ifs
    · exact Option.map_eq_none_iff
    · rfl
  refine ⟨fun other edit hother => ?_, fun other path file hpreparing => ?_, h.tasks,
    fun id task htask hactor => (hnone _).mpr (h.owned id task htask hactor),
    fun id task htask hactor => (hnone _).not.mpr (h.watched id task htask hactor), h.locked, h.one⟩
  · rw [hfind] at hother
    split_ifs at hother
    · obtain ⟨old, hold, rfl⟩ := Option.map_eq_some_iff.mp hother
      obtain ⟨⟨hscratch, horiginal⟩, hlt⟩ := h.edits other old hold
      rw [← (hf old).1] at hscratch
      rw [← (hf old).2] at horiginal
      exact ⟨⟨hscratch, horiginal⟩, hlt⟩
    · exact h.edits other edit hother
  grind +splitImp +splitIndPred

/-- The directory of a token that is still to come is empty, and every scratch file has had what it has. -/
structure Filed (w : World) : Prop where
  fresh : ∀ token name, w.nextToken ≤ token → w.files (.scratch token name) = none
  seen : ∀ token name file, w.files (.scratch token name) = some file → (.scratch token name, file.content) ∈ w.seen

def Known (w : World) (place : Place) : Prop := ∀ token name, place = .scratch token name → token < w.nextToken

theorem Filed.put (h : w.Filed) (hplace : w.Known place) (file : Option File) : (w.put place file).Filed := by
  constructor
  · intro token name hle
    change Function.update w.files place file (.scratch token name) = none
    rw [Function.update_of_ne fun heq => absurd (hplace token name heq.symm) (Nat.not_lt_of_le hle)]
    exact h.fresh token name hle
  · intro token name file' hfile
    change Function.update w.files place file (.scratch token name) = some file' at hfile
    change _ ∈ w.seen ++ _
    grind [h.seen]

variable {file : File}

theorem Filed.known (h : w.Filed) (hfile : w.files place = some file) : w.Known place := by
  grind [h.fresh, Known]

theorem Filed.remove (h : w.Filed) {files : Place → Option File} {deletions : List Deletion}
    (hfiles : ∀ place, files place = none ∨ files place = w.files place) :
    { w with files := files, deletions := deletions }.Filed := by
  constructor
  · grind [h.fresh]
  grind [h.seen]

theorem cleanup_files (w : World) (token : Nat) (scratchPath : Place) (discarded : Bool) (answer : Answer) :
    (∀ place, (w.cleanup token scratchPath discarded answer).files place = none
      ∨ (w.cleanup token scratchPath discarded answer).files place = w.files place) := by
  intro place
  cases answer with
  | ok time =>
    cases place with
    | elsewhere path => exact .inr rfl
    | scratch owner name =>
      by_cases heq : owner = token
      · exact .inl (if_pos heq)
      · exact .inr (if_neg heq)
  | failed done time =>
    cases done with
    | zero => exact .inr rfl
    | succ done =>
      change Function.update w.files scratchPath none place = none ∨ Function.update w.files scratchPath none place = _
      grind

theorem Filed.cleanup (h : w.Filed) (token : Nat) (scratchPath : Place) (discarded : Bool) (answer : Answer) :
    (w.cleanup token scratchPath discarded answer).Filed :=
  h.remove (cleanup_files w token scratchPath discarded answer)

def Held (w : World) (task : Task) (data : Content) : Prop :=
  (task.edit.scratchPath, data) ∈ w.seen ∧ (task.actor ≠ .watcher → w.content task.edit.scratchPath = some data)

def Agrees (w : World) (task : Task) : Prop :=
  match task.stage with
  | .isFile | .metadata => True
  | .read => ∃ file, w.files task.edit.originalPath = some file ∧ task.edit.matches file = true
  | .truncate data =>
    (∃ file, w.files task.edit.originalPath = some file ∧ task.edit.matches file = true) ∧ w.Held task data
  | .write node data =>
    (∃ file, w.files task.edit.originalPath = some file ∧ file.node = node ∧ file.content = []) ∧ w.Held task data
  | .flush data | .record data => w.content task.edit.originalPath = some data ∧ w.Held task data
  | .cleanup =>
    w.content task.edit.scratchPath = none ∨ w.content task.edit.scratchPath = w.synced.find task.token

/-- A task counts on no more than the files that it guards and the last synchronisation of its edit. -/
theorem Agrees.frame (h : w.Agrees task) (hfiles : ∀ place, task.Guards place → w'.files place = w.files place)
    (hseen : ∀ x ∈ w.seen, x ∈ w'.seen) (hsynced : w'.synced.find task.token = w.synced.find task.token) :
    w'.Agrees task := by
  have hheld : ∀ data, (∀ place, (task.actor ≠ .watcher ∧ place = task.edit.scratchPath) →
      w'.files place = w.files place) → w.Held task data → w'.Held task data := by
    intro data hsame hheld
    refine ⟨hseen _ hheld.1, fun hactor => ?_⟩
    rw [content, hsame _ ⟨hactor, rfl⟩]
    exact hheld.2 hactor
  unfold Agrees at h ⊢
  unfold Task.Guards at hfiles
  split at h
  · trivial
  · trivial
  · grind
  · grind
  · grind
  · grind [content]
  · grind [content]
  grind [content]

/-- Everything that holds between steps, except what the task `busy` is about to settle. -/
structure Sound (busy : Option Nat) (w : World) : Prop where
  books : w.Books
  filed : w.Filed
  changed : ∀ c ∈ w.changes, c.task < w.nextTask
  failed : ∀ id ∈ w.failures, id < w.nextTask
    ∧ ∀ task, some id ≠ busy → w.tasks.find id = some task → task.stage = .cleanup
  clean : ∀ id task, some id ≠ busy → w.tasks.find id = some task → task.stage.Early →
    ∀ c ∈ w.changes, c.task ≠ id
  agrees : ∀ id task, some id ≠ busy → w.tasks.find id = some task → w.Agrees task
  noLoss : w.NoLoss

variable {busy : Option Nat}

theorem Sound.except (h : w.Sound none) (id : Nat) : w.Sound (some id) :=
  ⟨h.books, h.filed, h.changed,
    fun id hid => ⟨(h.failed id hid).1, fun task _ => (h.failed id hid).2 task (Option.some_ne_none id)⟩,
    fun id task _ => h.clean id task (Option.some_ne_none id), fun id task _ => h.agrees id task (Option.some_ne_none id),
    h.noLoss⟩

theorem Sound.unconcerned (h : w.Sound busy) (expired units : List Nat) :
    { w with
      expired := expired
      units := units }.Sound busy :=
  ⟨⟨h.books.edits, h.books.preparing, h.books.tasks, h.books.owned, h.books.watched, h.books.locked, h.books.one⟩,
    ⟨h.filed.fresh, h.filed.seen⟩, h.changed, h.failed, h.clean, h.agrees,
    ⟨h.noLoss.overwritten, h.noLoss.untouched, h.noLoss.kept, h.noLoss.deleted⟩⟩

theorem Sound.endTask (h : w.Sound (some id)) : (w.endTask id).Sound none := by
  refine ⟨h.books.endTask id, ⟨h.filed.fresh, h.filed.seen⟩, h.changed, fun other hother => ⟨(h.failed other hother).1,
    fun task _ htask => ?_⟩, fun other task _ htask => ?_, fun other task _ htask => ?_,
    ⟨h.noLoss.overwritten, h.noLoss.untouched, h.noLoss.kept, h.noLoss.deleted⟩⟩
  · obtain ⟨hne, hfound⟩ := of_find_endTask htask
    exact (h.failed other hother).2 task (fun heq => hne (Option.some.inj heq)) hfound
  · obtain ⟨hne, hfound⟩ := of_find_endTask htask
    exact h.clean other task (fun heq => hne (Option.some.inj heq)) hfound
  · obtain ⟨hne, hfound⟩ := of_find_endTask htask
    exact h.agrees other task (fun heq => hne (Option.some.inj heq)) hfound

theorem Sound.goto (h : w.Sound (some id)) (htask : w.tasks.find id = some task) {stage : Stage}
    (hagrees : w.Agrees { task with stage := stage }) (hfailed : id ∈ w.failures → stage = .cleanup)
    (hclean : stage.Early → ∀ c ∈ w.changes, c.task ≠ id) : (w.goto id task stage).Sound none := by
  have hfind : ∀ other, (w.goto id task stage).tasks.find other
      = if other = id then some { task with stage := stage } else w.tasks.find other := fun other => Map.find_insert ..
  refine ⟨h.books.goto htask stage, ⟨h.filed.fresh, h.filed.seen⟩, h.changed, fun other hother =>
    ⟨(h.failed other hother).1, fun task' _ htask' => ?_⟩, fun other task' _ htask' => ?_, fun other task' _ htask' => ?_,
    ⟨h.noLoss.overwritten, h.noLoss.untouched, h.noLoss.kept, h.noLoss.deleted⟩⟩
  · rw [hfind] at htask'
    split_ifs at htask' with heq
    · cases htask'
      exact hfailed (heq ▸ hother)
    · exact (h.failed other hother).2 task' (fun hsome => heq (Option.some.inj hsome)) htask'
  · rw [hfind] at htask'
    split_ifs at htask' with heq
    · cases htask'
      rw [heq]
      exact hclean
    · exact h.clean other task' (fun hsome => heq (Option.some.inj hsome)) htask'
  · rw [hfind] at htask'
    split_ifs at htask' with heq
    · cases htask'
      exact hagrees
    · exact h.agrees other task' (fun hsome => heq (Option.some.inj hsome)) htask'

theorem Sound.start (h : w.Sound none) (hfree : w.holder = none) (hedit : w.edits.find token = some edit) (hkeep : ∀ other, other ≠ token → edits.find other = w.edits.find other)
    (htoken : edits.find token = if actor = .watcher then some edit else none) :
    ({ w with edits := edits }.startTask actor token edit).Sound none := by
  refine ⟨h.books.start hfree hedit hkeep htoken, ⟨h.filed.fresh, h.filed.seen⟩,
    fun c hc => Nat.lt_succ_of_lt (h.changed c hc), fun other hother => ⟨Nat.lt_succ_of_lt (h.failed other hother).1,
    fun task _ htask => ?_⟩, fun other task _ htask hearly c hc => ?_, fun other task _ htask => ?_,
    ⟨h.noLoss.overwritten, h.noLoss.untouched, h.noLoss.kept, h.noLoss.deleted⟩⟩
  · rw [find_startTask] at htask
    split_ifs at htask with heq
    · exact absurd (heq ▸ (h.failed other hother).1) (Nat.lt_irrefl _)
    · exact (h.failed other hother).2 task (Option.some_ne_none _) htask
  · rw [find_startTask] at htask
    split_ifs at htask with heq
    · rw [heq]
      exact (h.changed c hc).ne
    · exact h.clean other task (Option.some_ne_none _) htask hearly c hc
  · rw [find_startTask] at htask
    split_ifs at htask
    · cases htask
      trivial
    · exact h.agrees other task (Option.some_ne_none _) htask

theorem Sound.put (h : w.Sound busy) (hplace : w.Known place) (file : Option File)
    (hquiet : ∀ id task, some id ≠ busy → w.tasks.find id = some task → file ≠ w.files place → ¬task.Guards place) :
    (w.put place file).Sound busy := by
  have hseen : ∀ x ∈ w.seen, x ∈ (w.put place file).seen := fun x hx => mem_append_left _ hx
  refine ⟨⟨h.books.edits, h.books.preparing, h.books.tasks, h.books.owned, h.books.watched, h.books.locked, h.books.one⟩,
    h.filed.put hplace file, h.changed, h.failed, h.clean, fun id task hid htask => ?_, ?_⟩
  · refine (h.agrees id task hid htask).frame (fun other hguards => ?_) hseen rfl
    change Function.update w.files place file other = w.files other
    by_cases heq : other = place
    · subst heq
      rw [Function.update_self]
      by_contra hne
      exact hquiet id task hid htask hne hguards
    · rw [Function.update_of_ne heq]
  · exact ⟨fun c hc => ⟨(h.noLoss.overwritten c hc).1, (h.noLoss.overwritten c hc).2.imp_right (hseen _)⟩,
      h.noLoss.untouched, h.noLoss.kept, h.noLoss.deleted⟩

variable {old : File}

section

variable (h : w.Sound (some id))
include h

theorem Sound.change (htask : w.tasks.find id = some task)
    (hold : w.files task.edit.originalPath = some old) {recorded : Bool} (hrecorded : recorded = true)
    (hafter : file.content = [] ∨ (task.edit.scratchPath, file.content) ∈ w.seen) (hfailed : id ∉ w.failures)
    (hquiet : ∀ other task', other ≠ id → w.tasks.find other = some task' →
      some file ≠ w.files task.edit.originalPath → ¬task'.Guards task.edit.originalPath) :
    (w.change id task file recorded).Sound (some id) := by
  have hput := h.put (h.filed.known hold) (some file) fun other task' hother htask' hne =>
    hquiet other task' (fun heq => hother (congrArg some heq)) htask' hne
  refine ⟨⟨hput.books.edits, hput.books.preparing, hput.books.tasks, hput.books.owned, hput.books.watched,
    hput.books.locked, hput.books.one⟩, ⟨hput.filed.fresh, hput.filed.seen⟩, fun c hc => ?_, hput.failed,
    fun other task' hother htask' hearly c hc => ?_, hput.agrees, ?_⟩
  · obtain hc | hc := mem_append.mp hc
    · exact h.changed c hc
    · rw [mem_singleton.mp hc]
      exact (h.books.tasks id task htask).1
  · obtain hc | hc := mem_append.mp hc
    · exact h.clean other task' hother htask' hearly c hc
    grind
  · refine ⟨fun c hc => ?_, fun other hother c hc => ?_, hput.noLoss.kept, hput.noLoss.deleted⟩
    · obtain hc | hc := mem_append.mp hc
      · exact hput.noLoss.overwritten c hc
      · rw [mem_singleton.mp hc]
        exact ⟨hrecorded, hafter.imp_right fun hmem => mem_append_left _ hmem⟩
    · obtain hc | hc := mem_append.mp hc
      · exact h.noLoss.untouched other hother c hc
      · rw [mem_singleton.mp hc]
        rintro rfl
        exact hfailed hother

theorem Sound.fails (hid : id < w.nextTask) (hclean : ∀ c ∈ w.changes, c.task ≠ id) :
    { w with failures := w.failures ++ [id] }.Sound (some id) := by
  refine ⟨⟨h.books.edits, h.books.preparing, h.books.tasks, h.books.owned, h.books.watched, h.books.locked, h.books.one⟩,
    ⟨h.filed.fresh, h.filed.seen⟩, h.changed, fun other hother => ?_, h.clean, h.agrees,
    ⟨h.noLoss.overwritten, fun other hother => ?_, h.noLoss.kept, h.noLoss.deleted⟩⟩
  · grind +splitImp +splitIndPred
  grind [h.noLoss.untouched]

theorem Sound.synced (htask : w.tasks.find id = some task) (data : Content) :
    { w with synced := w.synced.insert task.token data }.Sound (some id) := by
  refine ⟨⟨h.books.edits, h.books.preparing, h.books.tasks, h.books.owned, h.books.watched, h.books.locked, h.books.one⟩,
    ⟨h.filed.fresh, h.filed.seen⟩, h.changed, h.failed, h.clean, fun other task' hother htask' => ?_,
    ⟨h.noLoss.overwritten, h.noLoss.untouched, h.noLoss.kept, h.noLoss.deleted⟩⟩
  refine (h.agrees other task' hother htask').frame (fun _ _ => rfl) (fun _ hx => hx) ?_
  grind [Map.find_insert, h.books.one]

end

variable {scratchPath : Place}

theorem Sound.cleanup (h : w.Sound busy) {discarded : Bool}
    (hquiet : ∀ place, (w.cleanup token scratchPath discarded answer).files place ≠ w.files place → ∀ id task,
      some id ≠ busy → w.tasks.find id = some task → ¬task.Guards place)
    (hdeleted : w.content scratchPath ≠ none → discarded = true ∨ w.content scratchPath = w.synced.find token) :
    (w.cleanup token scratchPath discarded answer).Sound busy := by
  refine ⟨⟨h.books.edits, h.books.preparing, h.books.tasks, h.books.owned, h.books.watched, h.books.locked, h.books.one⟩,
    h.filed.cleanup token scratchPath discarded answer, h.changed, h.failed, h.clean, fun id task hid htask => ?_,
    ⟨h.noLoss.overwritten, h.noLoss.untouched, h.noLoss.kept, fun d hd => ?_⟩⟩
  · refine (h.agrees id task hid htask).frame (fun place hguards => ?_) (fun _ hx => hx) rfl
    by_contra hne
    exact hquiet place hne id task hid htask hguards
  · change d ∈ (if _ then w.deletions ++ [_] else w.deletions) at hd
    split_ifs at hd with hgone
    · obtain hd | hd := mem_append.mp hd
      · exact h.noLoss.deleted d hd
      · rw [mem_singleton.mp hd]
        refine hdeleted fun hnone => hgone.1 ?_
        exact Option.map_eq_none_iff.mp hnone
    · exact h.noLoss.deleted d hd

theorem Sound.modify (h : w.Sound busy) (token : Nat)
    (hf : ∀ edit, (f edit).scratchPath = edit.scratchPath ∧ (f edit).originalPath = edit.originalPath) :
    { w with edits := w.edits.modify token f }.Sound busy :=
  ⟨h.books.modify token hf, ⟨h.filed.fresh, h.filed.seen⟩, h.changed, h.failed, h.clean, h.agrees,
    ⟨h.noLoss.overwritten, h.noLoss.untouched, h.noLoss.kept, h.noLoss.deleted⟩⟩

theorem Books.apart (h : w.Books) (htask : w.tasks.find id = some task) :
    task.edit.scratchPath ≠ task.edit.originalPath := by
  grind +splitImp +splitIndPred

theorem Sound.notFailed (h : w.Sound none) (htask : w.tasks.find id = some task) (hstage : task.stage ≠ .cleanup) :
    id ∉ w.failures := fun hid => hstage ((h.failed id hid).2 task (Option.some_ne_none id) htask)

variable {data : Content}

theorem Held.change (h : w.Held task data) (hne : task.edit.scratchPath ≠ task.edit.originalPath)
    (file : File) (recorded : Bool) (stage : Stage) :
    (w.change id task file recorded).Held { task with stage := stage } data := by
  refine ⟨mem_append_left _ h.1, fun hactor => ?_⟩
  change (Function.update w.files task.edit.originalPath (some file) task.edit.scratchPath).map File.content = _
  rw [Function.update_of_ne hne]
  exact h.2 hactor

theorem change_original (w : World) (id : Nat) (task : Task) (file : File) (recorded : Bool) :
    (w.change id task file recorded).files task.edit.originalPath = some file := Function.update_self ..

section

variable (h : w.Sound none)
include h

theorem Sound.truncate (htask : w.tasks.find id = some task)
    (hstage : task.stage = .truncate data) (hold : w.files task.edit.originalPath = some old)
    (hmatches : task.edit.matches old = true) (hheld : w.Held task data) (time : Option Nat)
    (hquiet : ∀ other task', other ≠ id → w.tasks.find other = some task' →
      some { old with content := [], modified := time } ≠ w.files task.edit.originalPath →
        ¬task'.Guards task.edit.originalPath) :
    ((w.change id task { old with content := [], modified := time } (task.edit.matches old)).goto id task
      (.write old.node data)).Sound none := by
  have hfailed := h.notFailed htask (by rw [hstage]; exact Stage.noConfusion)
  have hchanged := (h.except id).change htask hold hmatches (.inl rfl) hfailed hquiet
  refine hchanged.goto htask ⟨⟨_, change_original .., rfl, rfl⟩, hheld.change (h.books.apart htask) _ _ _⟩
    (fun hid => absurd hid hfailed) fun hearly => ?_
  cases hearly

/-- What was read is written to the original that was opened. -/
theorem Sound.write (htask : w.tasks.find id = some task) {node : Nat}
    (hstage : task.stage = .write node data) (hagrees : w.Agrees task) (time : Option Nat)
    (hquiet : ∀ place, (w.write id task node data time).files place ≠ w.files place → ∀ other task', other ≠ id →
      w.tasks.find other = some task' → ¬task'.Guards place) :
    ((w.write id task node data time).goto id task (.flush data)).Sound none := by
  rw [Agrees, hstage] at hagrees
  obtain ⟨⟨old, hold, hnode, hempty⟩, hheld⟩ := hagrees
  have hfailed := h.notFailed htask (by rw [hstage]; exact Stage.noConfusion)
  have hwrite : w.write id task node data time
      = w.change id task { old with content := data, modified := time } true := by
    rw [World.write, hold]
    dsimp only
    rw [if_pos hnode, hempty, drop_nil, append_nil, decide_eq_true rfl]
  rw [hwrite] at hquiet ⊢
  have hchanged := (h.except id).change htask hold rfl (.inr hheld.1) hfailed fun other task' hother htask' hne =>
    hquiet _ (by rw [change_original]; exact hne) other task' hother htask'
  refine hchanged.goto htask ⟨?_, hheld.change (h.books.apart htask) _ _ _⟩ (fun hid => absurd hid hfailed)
    fun hearly => ?_
  · rw [content, change_original]
    rfl
  · cases hearly

theorem Sound.finish (htask : w.tasks.find id = some task)
    (hstage : task.stage = .record data) (hcontent : file.content = data) (hheld : w.Held task data) : (w.finish id task file).Sound none := by
  have hfailed := h.notFailed htask (by rw [hstage]; exact Stage.noConfusion)
  have hsynced := (h.except id).synced htask file.content
  have hend : ∀ actor, task.actor = actor → actor ≠ .watcher →
      ({ w with synced := w.synced.insert task.token file.content }.goto id task .cleanup).Sound none := by
    intro actor hactor hne
    refine hsynced.goto htask (.inr ?_) (fun hid => absurd hid hfailed) fun hearly => by cases hearly
    rw [Map.find_insert, if_pos rfl, hcontent]
    exact hheld.2 (hactor ▸ hne)
  rw [World.finish]
  split
  · exact hsynced.endTask.modify task.token fun edit => ⟨rfl, rfl⟩
  grind

/-- A task gives up before it has opened the original. -/
theorem Sound.fail (htask : w.tasks.find id = some task) (hearly : task.stage.Early)
    (hmay : w.MayFail task) : (w.fail id task).Sound none := by
  have hid := (h.books.tasks id task htask).1
  have hfails := (h.except id).fails hid (h.clean id task (Option.some_ne_none id) htask hearly)
  have hmay : match task.actor with
      | .watcher => True
      | .commit => False
      | .unit | .expiry =>
        w.content task.edit.scratchPath = none ∨ w.content task.edit.scratchPath = w.synced.find task.token := by
    rw [MayFail] at hmay
    cases hstage : task.stage <;> rw [hstage] at hmay hearly <;> first | exact hmay | cases hearly
  rw [World.fail]
  cases hactor : task.actor with
  | watcher => exact hfails.endTask
  | commit =>
    rw [hactor] at hmay
    cases hmay
  | unit =>
    rw [hactor] at hmay
    exact hfails.goto htask hmay (fun _ => rfl) fun hearly => by cases hearly
  | expiry =>
    rw [hactor] at hmay
    exact hfails.goto htask hmay (fun _ => rfl) fun hearly => by cases hearly

end

theorem stop_of_early (w : World) (id : Nat) (answer : Answer) (h : task.stage.Early) :
    w.stop id task answer = w.fail id task := by
  unfold stop
  split
  · rename_i hstage
    rw [hstage] at h
    cases h
  · rename_i hstage
    rw [hstage] at h
    cases h
  · rfl

theorem advance_cleanup (w : World) (id : Nat) (answer : Answer) (h : task.stage = .cleanup) : w.advance id task answer
    = (w.cleanup task.token task.edit.scratchPath false answer).endTask id := by
  unfold World.advance proceed stop
  rw [h]
  exact ite_self _

theorem Sound.advance (h : w.Sound none) (htask : w.tasks.find id = some task) (hspares : w.Sparing (.advance id answer)) :
    (w.advance id task answer).Sound none := by
  have hagrees := h.agrees id task (Option.some_ne_none id) htask
  have hquiet : ∀ place, (w.advance id task answer).files place ≠ w.files place → ∀ other task', other ≠ id →
      w.tasks.find other = some task' → ¬task'.Guards place := by
    intro place hne other task' hother htask'
    refine hspares.quiet _ ?_ place hne other task' htask' fun answer' heq => ?_
    · rw [World.step, htask]
      rfl
    · cases heq
      exact hother rfl
  have hmay := hspares.calls id answer task rfl htask
  have hstop : ¬w.succeeds task answer = true → task.stage.Early → (w.stop id task answer).Sound none := by
    intro hno hearly
    rw [stop_of_early w id answer hearly]
    exact h.fail htask hearly (hmay (Bool.eq_false_iff.mpr hno))
  have hfailed : task.stage ≠ .cleanup → id ∉ w.failures := h.notFailed htask
  have hclean : task.stage.Early → ∀ c ∈ w.changes, c.task ≠ id := h.clean id task (Option.some_ne_none id) htask
  cases hstage : task.stage with
  | cleanup =>
    rw [advance_cleanup w id answer hstage] at hquiet ⊢
    rw [Agrees, hstage] at hagrees
    refine ((h.except id).cleanup (fun place hne other task' hother htask' => ?_) fun hsome => ?_).endTask
    · exact hquiet place hne other task' (fun heq => hother (congrArg some heq)) htask'
    · exact .inr (hagrees.resolve_left hsome)
  | isFile =>
    rw [World.advance]
    split_ifs with hok
    · rw [proceed, hstage]
      exact (h.except id).goto htask trivial (fun hid => absurd hid (hfailed (by rw [hstage]; exact Stage.noConfusion)))
        fun _ => hclean (by rw [hstage]; trivial)
    · exact hstop hok (by rw [hstage]; trivial)
  | metadata =>
    rw [World.advance]
    split_ifs with hok
    · rw [proceed, hstage]
      rw [succeeds, hstage, Bool.and_eq_true] at hok
      have hfound : ∃ file, w.files task.edit.originalPath = some file ∧ task.edit.matches file = true := by
        cases hfile : w.files task.edit.originalPath with
        | none =>
          rw [hfile] at hok
          cases hok.2
        | some file => grind -linarith
      exact (h.except id).goto htask hfound
        (fun hid => absurd hid (hfailed (by rw [hstage]; exact Stage.noConfusion)))
        fun _ => hclean (by rw [hstage]; trivial)
    · exact hstop hok (by rw [hstage]; trivial)
  | read =>
    rw [World.advance]
    split_ifs with hok
    · rw [proceed, hstage]
      rw [succeeds, hstage, Bool.and_eq_true] at hok
      obtain ⟨file, hfile⟩ := Option.isSome_iff_exists.mp hok.2
      obtain ⟨-, ⟨⟨name, hname⟩, -⟩, -⟩ := h.books.tasks id task htask
      have hcontent : w.content task.edit.scratchPath = some file.content := by
        rw [content, hfile]
        rfl
      rw [Agrees, hstage] at hagrees
      refine (h.except id).goto htask ⟨hagrees, ?_, fun _ => ?_⟩
        (fun hid => absurd hid (hfailed (by rw [hstage]; exact Stage.noConfusion)))
        fun _ => hclean (by rw [hstage]; trivial)
      · grind -linarith [h.filed.seen]
      grind -linarith
    · exact hstop hok (by rw [hstage]; trivial)
  | truncate data =>
    rw [World.advance] at hquiet ⊢
    split_ifs at hquiet ⊢ with hok
    · rw [Agrees, hstage] at hagrees
      obtain ⟨⟨old, hold, hmatches⟩, hheld⟩ := hagrees
      rw [proceed, hstage] at hquiet ⊢
      rw [hold] at hquiet ⊢
      refine h.truncate htask hstage hold hmatches hheld answer.time fun other task' hother htask' hne => ?_
      refine hquiet _ (fun heq => hne ?_) other task' hother htask'
      exact (change_original w id task _ (task.edit.matches old)).symm.trans heq
    · exact hstop hok (by rw [hstage]; trivial)
  | write node data =>
    rw [World.advance] at hquiet ⊢
    split_ifs at hquiet ⊢ with hok
    · rw [proceed, hstage] at hquiet ⊢
      exact h.write htask hstage hagrees answer.time hquiet
    grind -linarith [MayFail]
  | flush data =>
    rw [World.advance]
    split_ifs with hok
    · rw [proceed, hstage]
      rw [Agrees, hstage] at hagrees
      exact (h.except id).goto htask hagrees
        (fun hid => absurd hid (hfailed (by rw [hstage]; exact Stage.noConfusion))) fun hearly => by cases hearly
    grind -linarith [MayFail]
  | record data =>
    rw [World.advance]
    split_ifs with hok
    · rw [Agrees, hstage] at hagrees
      obtain ⟨file, hfile, hcontent⟩ := Option.map_eq_some_iff.mp hagrees.1
      grind -linarith [proceed, h.finish]
    grind -linarith [MayFail]

theorem find_erase_of_ne (w : World) (token : Nat) : ∀ other, other ≠ token →
    (w.edits.erase token).find other = w.edits.find other := by
  intro other hne
  rw [Map.find_erase, if_neg hne]

theorem find_erase_self (w : World) (token : Nat) : (w.edits.erase token).find token = none := by
  rw [Map.find_erase, if_pos rfl]

theorem Sound.takeEdit (h : w.Sound none) (hfree : w.holder = none) (hactor : actor ≠ .watcher)
    (token : Nat) : (w.takeEdit actor token).Sound none := by
  grind [World.takeEdit, h.start, find_erase_of_ne, find_erase_self]

theorem Sound.commit (h : w.Sound none) (hfree : w.holder = none)
    (hpath : ∀ edit, w.edits.find token = some edit → edit.scratchPath = scratchPath) :
    (w.commit token scratchPath).Sound none := by
  grind [World.commit, h.start, find_erase_of_ne, find_erase_self]

/-- An edit leaves the map and its files go. -/
theorem Sound.discard (h : w.Sound none) (hfree : w.holder = none)
    (hquiet : ∀ place, (w.discard token answer).files place ≠ w.files place → ∀ id task,
      w.tasks.find id = some task → ¬task.Guards place) : (w.discard token answer).Sound none := by
  rw [World.discard] at hquiet ⊢
  cases hedit : w.edits.find token with
  | none => exact h
  | some edit =>
    have hkeep := find_erase_of_ne w token
    have herased : { w with edits := w.edits.erase token }.Sound none := by
      refine ⟨⟨fun other edit' hother => ?_, fun other path file hpreparing => ?_, h.books.tasks,
        fun id task htask hactor => ?_, fun id task htask hactor => ?_, h.books.locked, h.books.one⟩,
        ⟨h.filed.fresh, h.filed.seen⟩, h.changed, h.failed, h.clean, h.agrees,
        ⟨h.noLoss.overwritten, h.noLoss.untouched, h.noLoss.kept, h.noLoss.deleted⟩⟩
      · grind [Map.find_erase, h.books.edits]
      · obtain ⟨hlt, hnone, hrest⟩ := h.books.preparing other path file hpreparing
        grind
      · grind [h.books.owned]
      · grind [h.books.watched, h.books.free]
    grind [herased.cleanup]

variable {path : Place}

section

variable (h : w.Sound none)
include h

theorem Sound.prepare (hfile : w.files path = some file) :
    Sound none { w with
      preparing := some (w.nextToken, path, file)
      nextToken := w.nextToken + 1 } := by
  refine ⟨⟨fun token edit hedit => ?_, fun token path' file' hpreparing => ?_, fun id task htask => ?_, h.books.owned,
    h.books.watched, h.books.locked, h.books.one⟩, ⟨fun token name hle => ?_, h.filed.seen⟩, h.changed, h.failed, h.clean,
    h.agrees, ⟨h.noLoss.overwritten, h.noLoss.untouched, h.noLoss.kept, h.noLoss.deleted⟩⟩
  · grind [h.books.edits]
  · cases hpreparing
    refine ⟨Nat.lt_succ_self _, ?_, fun name heq => ?_, fun id task htask => (h.books.tasks id task htask).2.2.ne⟩
    · cases hedit : w.edits.find w.nextToken with
      | none => rfl
      | some edit => exact absurd (h.books.edits _ edit hedit).2 (Nat.lt_irrefl _)
    · exact absurd (h.filed.known hfile _ name heq) (Nat.lt_irrefl _)
  · grind +splitImp +splitIndPred
  · exact h.filed.fresh token name (Nat.le_of_succ_le hle)

theorem Sound.enter (hpreparing : w.preparing = some (token, path, file))
    (hedit : edit.Proper token) : Sound none { w with
      preparing := none
      edits := w.edits.insert token edit } := by
  obtain ⟨hlt, hnone, -, htasks⟩ := h.books.preparing token path file hpreparing
  have hkeep : ∀ other, other ≠ token → (w.edits.insert token edit).find other = w.edits.find other := by
    intro other hne
    rw [Map.find_insert, if_neg hne]
  refine ⟨⟨fun other edit' hother => ?_, (fun _ _ _ heq => by cases heq), h.books.tasks,
    fun id task htask hactor => (hkeep _ (htasks id task htask)).trans (h.books.owned id task htask hactor),
    fun id task htask hactor heq => h.books.watched id task htask hactor
      ((hkeep _ (htasks id task htask)).symm.trans heq), h.books.locked, h.books.one⟩,
    ⟨h.filed.fresh, h.filed.seen⟩, h.changed, h.failed, h.clean, h.agrees,
    ⟨h.noLoss.overwritten, h.noLoss.untouched, h.noLoss.kept, h.noLoss.deleted⟩⟩
  grind [Map.find_insert, h.books.edits]

theorem Sound.unprepared : Sound none { w with preparing := none } :=
  ⟨⟨h.books.edits, (fun _ _ _ heq => by cases heq), h.books.tasks, h.books.owned, h.books.watched, h.books.locked,
      h.books.one⟩, ⟨h.filed.fresh, h.filed.seen⟩, h.changed, h.failed, h.clean, h.agrees,
    ⟨h.noLoss.overwritten, h.noLoss.untouched, h.noLoss.kept, h.noLoss.deleted⟩⟩

theorem Sound.prepared {original file : File} {now : Nat} (hpreparing : w.preparing = some (token, path, original))
    (hquiet : ∀ place, (w.prepared token path original answer file now).files place ≠ w.files place → ∀ id task,
      w.tasks.find id = some task → ¬task.Guards place) :
    (w.prepared token path original answer file now).Sound none := by
  let scratchPath := Place.scratch token (path.fileName.getD fallbackName)
  obtain ⟨hlt, -, hpath, -⟩ := h.books.preparing token path original hpreparing
  have hknown : w.Known scratchPath := by
    rintro token' name heq
    obtain ⟨rfl, -⟩ := Place.scratch.inj heq
    exact hlt
  have hput : ∀ file : File, (∀ place, (w.put scratchPath (some file)).files place ≠ w.files place → ∀ id task,
      w.tasks.find id = some task → ¬task.Guards place) → (w.put scratchPath (some file)).Sound none := by
    intro file hquiet
    refine h.put hknown _ fun id task _ htask hne => hquiet scratchPath (fun heq => hne ?_) id task htask
    change Function.update w.files scratchPath (some file) scratchPath = _ at heq
    rw [Function.update_self] at heq
    exact heq
  cases answer with
  | ok time =>
    unfold World.prepared at hquiet ⊢
    dsimp only at hquiet ⊢
    cases hsource : w.files path with
    | none => exact h.unprepared
    | some source =>
      rw [hsource] at hquiet
      exact (hput _ hquiet).enter hpreparing ⟨⟨_, rfl⟩, hpath⟩
  | failed done time =>
    cases done with
    | zero => exact h.unprepared
    | succ done => exact (hput _ hquiet).unprepared

end

variable {e : Event}

theorem step_sound (h : w.Sound none) (hspares : w.Sparing e) (hstep : w.step e = some w') : w'.Sound none := by
  have hquiet : (∀ id answer, e ≠ .advance id answer) → ∀ place, w'.files place ≠ w.files place → ∀ id task,
      w.tasks.find id = some task → ¬task.Guards place := fun hother place hne id task htask =>
    hspares.quiet w' hstep place hne id task htask fun answer => hother id answer
  cases e with
  | outside place file =>
    have hput : w.Known place → w' = w.put place file → w'.Sound none := by
      rintro hknown rfl
      refine h.put hknown _ fun id task _ htask hne => hquiet (fun _ _ heq => by cases heq) place (fun heq => hne ?_) id task htask
      change Function.update w.files place file place = _ at heq
      rw [Function.update_self] at heq
      exact heq
    cases place with
    | elsewhere path =>
      cases hstep
      exact hput (fun _ _ heq => by cases heq) rfl
    | scratch token name =>
      unfold World.step at hstep
      dsimp only at hstep
      split_ifs at hstep with hlt
      cases hstep
      refine hput (fun token' name' heq => ?_) rfl
      cases heq
      exact hlt
  | prepare path => grind [World.step, h.prepare]
  | prepared answer file now => grind +splitImp +splitIndPred [World.step, h.prepared]
  | writeback token =>
    rw [World.step] at hstep
    split at hstep
    · rename_i edit hfree hedit
      cases hstep
      exact h.start hfree hedit (fun _ _ => rfl) (hedit.trans (if_pos rfl).symm)
    · cases hstep
  | commit token scratchPath => grind [World.step, h.commit, hspares.path]
  | discard token answer => grind +splitImp +splitIndPred [World.step, h.discard]
  | associate token unit =>
    rw [World.step] at hstep
    split at hstep
    · cases hstep
      exact (h.modify token (f := fun edit => { edit with unit := some unit }) fun _ => ⟨rfl, rfl⟩).unconcerned _ _
    · cases hstep
  | unitFinished token =>
    rw [World.step] at hstep
    split_ifs at hstep with hfree
    cases hstep
    exact (h.unconcerned w.expired (w.units.erase token)).takeEdit hfree.1 Actor.noConfusion token
  | expire now => grind [World.step, h.unconcerned]
  | expireNext =>
    rw [World.step] at hstep
    split at hstep
    · rename_i token rest hfree _
      cases hstep
      exact (h.unconcerned rest w.units).takeEdit hfree Actor.noConfusion token
    · cases hstep
  | advance id answer =>
    obtain ⟨task, htask, rfl⟩ := Option.map_eq_some_iff.mp hstep
    exact h.advance htask hspares

theorem start_sound (files : Place → Option File) : (start files).Sound none := by
  refine ⟨⟨fun _ _ heq => ?_, (fun _ _ _ heq => by cases heq), fun _ _ heq => ?_, fun _ _ heq => ?_, fun _ _ heq => ?_,
    fun _ _ heq => ?_, fun _ _ _ _ heq => ?_⟩, ⟨fun _ _ _ => rfl, (fun _ _ _ heq => by cases heq)⟩,
    fun _ hc => absurd hc not_mem_nil, fun _ hid => absurd hid not_mem_nil, fun _ _ _ heq => ?_,
    fun _ _ _ heq => ?_, ⟨fun _ hc => absurd hc not_mem_nil, fun _ hid => absurd hid not_mem_nil,
      fun _ hr => absurd hr not_mem_nil, fun _ hd => absurd hd not_mem_nil⟩⟩ <;>
    cases (Map.find_empty _).symm.trans heq

def Step (w : World) (e : Event) (w' : World) : Prop := w.Sparing e ∧ w.step e = some w'

/-- No edit is lost in a run whose steps are sparing. -/
theorem external_edits_lose_no_data {files : Place → Option File} {es : List Event} (run : Run Step (start files) es w) :
    w.NoLoss := by
  have hsound : w.Sound none := run.invariant (P := fun w => w.Sound none) (Q := fun _ => True)
    (fun _ _ _ h _ hstep => step_sound h hstep.1 hstep.2) (start_sound files) fun _ _ => trivial
  exact hsound.noLoss

theorem Sparing.idle (hidle : w.tasks.keys = []) (hpath : ∀ token scratchPath edit,
    e = .commit token scratchPath → w.edits.find token = some edit → edit.scratchPath = scratchPath) : w.Sparing e := by
  have hnone : ∀ id task, w.tasks.find id ≠ some task := by
    intro id task htask
    have hmem := Map.mem_keys.mpr ⟨task, htask⟩
    rw [hidle] at hmem
    cases hmem
  exact ⟨fun _ _ _ _ id task htask => absurd htask (hnone id task), hpath,
    fun id _ task _ htask => absurd htask (hnone id task)⟩

theorem Sparing.single (honly : ∀ other ∈ w.tasks.keys, other = id)
    (hok : (w.tasks.find id).all fun task => w.succeeds task answer) : w.Sparing (.advance id answer) := by
  refine ⟨fun _ _ _ _ other task htask hother => ?_, (fun _ _ _ heq => by cases heq), fun _ _ task heq htask hno => ?_⟩
  · exact absurd (congrArg (Event.advance · answer) (honly other (Map.mem_keys.mpr ⟨task, htask⟩)).symm) (hother answer)
  grind

theorem external_edits_lose_no_data_committed : ∃ (files : Place → Option File) (w : World),
    Run Step (start files) [.prepare (.elsewhere ⟨true, [[0x61]]⟩), .prepared (.ok none) ⟨7, [], some 2⟩ 100,
      .outside (.scratch 0 [0x61]) (some ⟨7, [2], some 3⟩), .commit 0 (.scratch 0 [0x61]), .advance 0 (.ok none),
      .advance 0 (.ok none), .advance 0 (.ok none), .advance 0 (.ok (some 4)), .advance 0 (.ok (some 4)),
      .advance 0 (.ok none), .advance 0 (.ok none), .advance 0 (.ok none)] w
    ∧ w.NoLoss ∧ w.content (.elsewhere ⟨true, [[0x61]]⟩) = some [2] ∧ w.deletions = [⟨0, false, some [2], some [2]⟩] := by
  have run : Run Step (start fun _ => some ⟨0, [1], some 1⟩) [.prepare (.elsewhere ⟨true, [[0x61]]⟩),
      .prepared (.ok none) ⟨7, [], some 2⟩ 100, .outside (.scratch 0 [0x61]) (some ⟨7, [2], some 3⟩),
      .commit 0 (.scratch 0 [0x61]), .advance 0 (.ok none), .advance 0 (.ok none), .advance 0 (.ok none),
      .advance 0 (.ok (some 4)), .advance 0 (.ok (some 4)), .advance 0 (.ok none), .advance 0 (.ok none),
      .advance 0 (.ok none)] _ :=
    .cons ⟨.idle rfl (fun _ _ _ heq => by cases heq), rfl⟩
      (.cons ⟨.idle rfl (fun _ _ _ heq => by cases heq), rfl⟩
      (.cons ⟨.idle rfl (fun _ _ _ heq => by cases heq), rfl⟩
      (.cons ⟨.idle rfl (fun _ _ _ heq hedit => by cases heq; cases hedit; rfl), rfl⟩
      (.cons ⟨.single (by decide) rfl, rfl⟩ (.cons ⟨.single (by decide) rfl, rfl⟩ (.cons ⟨.single (by decide) rfl, rfl⟩
      (.cons ⟨.single (by decide) rfl, rfl⟩ (.cons ⟨.single (by decide) rfl, rfl⟩ (.cons ⟨.single (by decide) rfl, rfl⟩
      (.cons ⟨.single (by decide) rfl, rfl⟩ (.cons ⟨.single (by decide) rfl, rfl⟩ (.nil _))))))))))))
  exact ⟨_, _, run, external_edits_lose_no_data run, by decide, by decide⟩

/-- The original was changed elsewhere before the edit expires, and the edit is removed unwritten. -/
theorem expired_edit_lost : ∃ (files : Place → Option File) (w : World),
    Run (fun w e w' => World.step w e = some w') (start files) [.prepare (.elsewhere ⟨true, [[0x61]]⟩),
      .prepared (.ok none) ⟨7, [], some 2⟩ 100, .outside (.scratch 0 [0x61]) (some ⟨7, [2], some 3⟩),
      .outside (.elsewhere ⟨true, [[0x61]]⟩) (some ⟨0, [1, 1], some 4⟩), .expire 100000, .expireNext,
      .advance 0 (.ok none), .advance 0 (.ok none), .advance 0 (.ok none)] w
    ∧ w.content (.elsewhere ⟨true, [[0x61]]⟩) = some [1, 1] ∧ w.content (.scratch 0 [0x61]) = none
    ∧ w.deletions = [⟨0, false, some [2], none⟩] ∧ ¬w.NoLoss := by
  refine ⟨fun _ => some ⟨0, [1], some 1⟩, _, .cons rfl (.cons rfl (.cons rfl (.cons rfl (.cons rfl (.cons rfl (.cons rfl
    (.cons rfl (.cons rfl (.nil _))))))))), by decide, by decide, by decide, fun h => ?_⟩
  have hdeleted := h.deleted ⟨0, false, some [2], none⟩ (by decide)
  exact absurd hdeleted (by decide)

end World

end TensorDE.Files.Privilege
