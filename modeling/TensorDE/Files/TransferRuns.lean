import TensorDE.Files.Transfer

namespace TensorDE.Files.Transfer

open Effect FileSystem List

/-- No call fails for a reason of its own, and the operation is not cancelled. -/
structure Setting.Calm (setting : Setting) : Prop where
  fault : ∀ n, setting.fault n = none
  isCancelled : ∀ n, setting.isCancelled n = false

def Machine.moved (s : Machine) (disk : Disk) : Machine := ⟨disk, s.calls + 1, s.reports⟩

variable (s : Machine) (disk : Disk)

@[simp] theorem Machine.moved_disk : (s.moved disk).disk = disk := rfl

@[simp] theorem Machine.moved_reports : (s.moved disk).reports = s.reports := rfl

section Calls

variable {setting : Setting} {s : Machine} {α β : Type}

section

variable (h : setting.Calm)
include h

theorem ask_ok {f : Disk → Except Errno α} {a : α} (hf : f s.disk = .ok a) :
    ask setting f s = .ok a (s.moved s.disk) := by
  simp [ask, call, h.fault, hf, Except.map, Machine.moved]

theorem ask_error {f : Disk → Except Errno α} {e : Errno} (hf : f s.disk = .error e) :
    ask setting f s = .error (.error e) (s.moved s.disk) := by
  simp [ask, call, h.fault, hf, Except.map, Machine.moved]

theorem change_ok {f : Disk → Except Errno Disk} {disk : Disk} (hf : f s.disk = .ok disk) :
    change setting f s = .ok () (s.moved disk) := by
  simp [change, call, h.fault, hf, Except.map, Machine.moved]

theorem change_error {f : Disk → Except Errno Disk} {e : Errno} (hf : f s.disk = .error e) :
    change setting f s = .error (.error e) (s.moved s.disk) := by
  simp [change, call, h.fault, hf, Except.map, Machine.moved]

theorem ensureNotCancelled_ok : ensureNotCancelled setting s = .ok () s := by
  simp [ensureNotCancelled, h.isCancelled]

end

theorem bind_ok {x : Task α} {f : α → Task β} {a : α} {t : Machine} (hx : x s = .ok a t) : (x >>= f) s = f a t := by
  rw [bind_run, hx]

theorem bind_error {x : Task α} {f : α → Task β} {e : Fault Errno} {t : Machine} (hx : x s = .error e t) :
    (x >>= f) s = .error e t := by
  rw [bind_run, hx]

theorem succeeds_ok {x : Task α} {a : α} {t : Machine} (hx : x s = .ok a t) : succeeds x s = .ok true t := by
  simp only [succeeds, hx]

section

variable (h : setting.Calm)
include h

theorem symlinkMetadata_ok {path : Location} {inode : Inode}
    (hreached : Reached setting.user s.disk path) (hinode : s.disk path = some inode) :
    symlinkMetadata setting path s = .ok inode (s.moved s.disk) :=
  ask_ok h (by rw [lookup_of_reached hreached, find_of_some hinode])

theorem readDir_ok {path : Location} {inode : Inode} {names : List Name}
    (hreached : Reached setting.user s.disk path) (hinode : s.disk path = some inode)
    (hread : setting.user.may inode Access.read) (hbody : inode.body = .directory names) :
    ask setting (readDir setting.user path) s = .ok names (s.moved s.disk) := by
  refine ask_ok h ?_
  rw [readDir, lookup_of_reached hreached, find_of_some hinode]
  simp [except_ok_bind, hbody, hread]

theorem openRead_ok {path : Location} {inode : Inode} {content : Bytes}
    (hreached : Reached setting.user s.disk path) (hinode : s.disk path = some inode)
    (hread : setting.user.may inode Access.read) (hstream : inode.stream = some content) :
    ask setting (openRead setting.user path) s = .ok () (s.moved s.disk) := by
  refine ask_ok h ?_
  rw [openRead, lookup_of_reached hreached, find_of_some hinode, except_ok_bind, if_pos hread]
  grind [Inode.stream]

theorem createFile_ok {name : Name} {dir : Location} {parent : Inode}
    (hreached : Reached setting.user s.disk (name :: dir)) (hdir : s.disk dir = some parent)
    (hwrite : setting.user.may parent Access.write) (hfree : s.disk (name :: dir) = none) :
    change setting (createFile setting.user setting.umask (name :: dir)) s = .ok () (s.moved (s.disk.add name dir parent
        ⟨setting.user.uid, setting.user.gidIn parent, .uniform ⟨true, true, false⟩ setting.umask, .file []⟩)) := by
  grind -linarith [change_ok, createFile, lookup_of_reached, find_of_none, create_of_mayChange]

end

theorem readAt_of_stream {disk : Disk} {path : Location} {inode : Inode} {content : Bytes} (position amount : Nat)
    (hinode : disk path = some inode) (hstream : inode.stream = some content) :
    readAt path position amount disk = .ok ((content.drop position).take (max 1 amount)) := by
  rw [readAt, find_of_some hinode, except_ok_bind]
  grind [Inode.stream]

theorem writeAt_end (user : User) {disk : Disk} {path : Location} {inode : Inode} {content : Bytes} (bytes : Bytes)
    (hinode : disk path = some inode) (hbody : inode.body = .file content) :
    writeAt user path content.length bytes disk = .ok (disk.set path { inode with
      mode := user.afterWrite inode.mode
      body := .file (content ++ bytes) }) := by
  have hdrop : content.drop (content.length + bytes.length) = [] := drop_eq_nil_of_le (Nat.le_add_right _ _)
  rw [writeAt, find_of_some hinode, except_ok_bind, hbody]
  simp [hdrop]

end Calls

/-- A size as the counters of 64 bits show it. -/
def saturating (n : Nat) : Nat := min n (2 ^ 64 - 1)

theorem saturatingAdd_saturating (a b : Nat) : saturatingAdd (saturating a) b = saturating (a + b) := by
  unfold saturatingAdd saturating
  omega

theorem saturating_mono {a b : Nat} (h : a ≤ b) : saturating a ≤ saturating b := by
  unfold saturating
  omega

/-- Reports that rise from `start` to `finish`. -/
def Climbs (total : Nat) : Nat → List TransferProgress → Nat → Prop
  | start, [], finish => start = finish
  | start, report :: rest, finish =>
    start ≤ report.bytesDone ∧ report.bytesTotal = total ∧ Climbs total report.bytesDone rest finish

theorem Climbs.append {total start middle finish : Nat} {first last : List TransferProgress}
    (h : Climbs total start first middle) (hl : Climbs total middle last finish) :
    Climbs total start (first ++ last) finish := by
  induction first generalizing start with
  | nil =>
    obtain rfl : start = middle := h
    exact hl
  | cons report rest ih => exact ⟨h.1, h.2.1, ih h.2.2⟩

theorem Climbs.le {total start finish : Nat} {reports : List TransferProgress} (h : Climbs total start reports finish) :
    start ≤ finish ∧ ∀ report ∈ reports, start ≤ report.bytesDone := by
  induction reports generalizing start with
  | nil => exact ⟨Nat.le_of_eq h, by simp⟩
  | cons report rest ih =>
    obtain ⟨hle, -, hrest⟩ := h
    grind

theorem Climbs.pairwise {total start finish : Nat} {reports : List TransferProgress}
    (h : Climbs total start reports finish) : (reports.map TransferProgress.bytesDone).Pairwise (· ≤ ·) := by
  induction reports generalizing start with
  | nil => exact List.Pairwise.nil
  | cons report rest ih =>
    rw [map_cons, pairwise_cons]
    refine ⟨fun done hdone => ?_, ih h.2.2⟩
    obtain ⟨other, hother, rfl⟩ := mem_map.mp hdone
    exact h.2.2.le.2 other hother

theorem Climbs.last {total start finish : Nat} {reports : List TransferProgress}
    (h : Climbs total start reports finish) : ∀ last ∈ reports.getLast?, last = ⟨finish, total⟩ := by
  induction reports generalizing start with
  | nil => simp
  | cons report rest ih =>
    obtain ⟨-, htotal, hrest⟩ := h
    intro last hlast
    cases rest with
    | nil =>
      obtain rfl : report = last := by simpa using hlast
      obtain rfl : report.bytesDone = finish := hrest
      rw [← htotal]
    | cons next rest => grind

def Version.leaves (version : Version) (user : User) (content : Bytes) (mode : Mode) : Mode :=
  match version with
  | .blocking => mode
  | .async => if content = [] then mode else user.afterWrite mode

section CopyFile

variable {setting : Setting} {source dir : Location} {name : Name} {parent : Inode}

section

variable (h : setting.Calm)
include h

/-- The loop on a file that has its first bytes already, in the directory `dir` of the disk `disk`. -/
theorem copyBytes_ok {disk : Disk} {content : Bytes} {inode : Inode} (hself : source ≠ name :: dir)
    (hdir : source ≠ dir) (hinode : disk source = some inode) (hstream : inode.stream = some content) (total k : Nat)
    {rounds position : Nat} {s : Machine} {file : Inode} (hposition : position ≤ content.length)
    (hrounds : content.length - position < rounds) (hbody : file.body = .file (content.take position))
    (hdisk : s.disk = disk.add name dir parent file) :
    ∃ t more, copyBytes setting source (name :: dir) total rounds position (saturating (k + position)) s =
        .ok (saturating (k + content.length)) t ∧
      t.disk = disk.add name dir parent { file with
        mode := if position < content.length then setting.user.afterWrite file.mode else file.mode
        body := .file content } ∧
      t.reports = s.reports ++ more ∧
      Climbs total (saturating (k + position)) more (saturating (k + content.length)) := by
  induction rounds generalizing position s file with
  | zero => omega
  | succ rounds ih =>
    have hfound : s.disk source = some inode := by rw [hdisk, disk.add_of_ne _ _ hself hdir, hinode]
    have hread := readAt_of_stream position (min (setting.amount s.calls) (64 * 1024)) hfound hstream
    rw [copyBytes, bind_ok (ensureNotCancelled_ok h), read, bind_assoc, bind_ok (get_run s), bind_ok (ask_ok h hread)]
    generalize hbuffer : (content.drop position).take (max 1 (min (setting.amount s.calls) (64 * 1024))) = buffer
    by_cases hend : position = content.length
    · -- the end of the source: nothing is read
      subst hend
      obtain rfl : [] = buffer := by simpa using hbuffer
      refine ⟨_, [], by rfl, ?_, by simp, rfl⟩
      rw [take_length] at hbody
      rw [Machine.moved_disk, hdisk, ← hbody]
      simp
    · have hlt : position < content.length := by omega
      have hlength : 0 < buffer.length ∧ position + buffer.length ≤ content.length := by
        rw [← hbuffer, length_take, length_drop]
        omega
      have htake : content.take position ++ buffer = content.take (position + buffer.length) := by
        rw [take_add, ← hbuffer]
        congr 1
        rw [length_take, take_eq_take_iff]
        omega
      have hne : buffer ≠ [] := ne_nil_of_length_pos hlength.1
      have hfile : (s.moved s.disk).disk (name :: dir) = some file := by rw [Machine.moved_disk, hdisk, disk.add_self]
      have hwrite := writeAt_end setting.user buffer hfile hbody
      rw [length_take_of_le hlt.le, Machine.moved_disk, hdisk, disk.add_set, htake] at hwrite
      have hchange := change_ok (s := s.moved s.disk) h ((congrArg _ hdisk).trans hwrite)
      rw [if_neg hne, bind_ok hchange, progress, bind_ok (modify_run _ _), saturatingAdd_saturating, Nat.add_assoc]
      obtain ⟨t, more, hrun, ht, hreports, hclimbs⟩ := @ih (position + buffer.length) ⟨_, _, _⟩ { file with
        mode := setting.user.afterWrite file.mode
        body := .file (content.take (position + buffer.length)) } hlength.2 (by omega) rfl rfl
      refine ⟨t, ⟨saturating (k + (position + buffer.length)), total⟩ :: more, hrun, ?_, ?_, ?_, rfl, hclimbs⟩
      · rw [ht]
        simp [hlt]
      · rw [hreports]
        simp
      · exact saturating_mono (by omega)

/-- The permissions of a new item, set by its path or by its handle. -/
theorem applyPermissions_ok {inode made : Inode} {disk : Disk} {s : Machine}
    {set : Location → Mode → Disk → Except Errno Disk} (hreached : Reached setting.user s.disk source)
    (hinode : s.disk source = some inode) (hdisk : s.disk = disk.add name dir parent made)
    (hset : set (name :: dir) inode.mode s.disk =
      .ok (s.disk.set (name :: dir) { made with mode := setting.user.granted made.gid inode.mode })) :
    ∃ t, (do
        let inode ← metadata setting source
        change setting (set (name :: dir) inode.mode) : Task Unit) s = .ok () t ∧
      t.disk = disk.add name dir parent { made with mode := setting.user.granted made.gid inode.mode } ∧
      t.reports = s.reports := by
  have hmetadata : metadata setting source s = .ok inode (s.moved s.disk) := symlinkMetadata_ok h hreached hinode
  rw [bind_ok hmetadata, change_ok (s := s.moved s.disk) h hset]
  refine ⟨_, rfl, ?_, rfl⟩
  rw [Machine.moved_disk, hdisk, disk.add_set]

theorem copyPermissions_ok (version : Version) {inode made : Inode} {disk : Disk} {s : Machine}
    (hreached : Reached setting.user s.disk source) (hinode : s.disk source = some inode)
    (hdisk : s.disk = disk.add name dir parent made)
    (hset : setPermissions setting.user (name :: dir) inode.mode s.disk =
      .ok (s.disk.set (name :: dir) { made with mode := setting.user.granted made.gid inode.mode })) :
    ∃ t, copyPermissions setting version source (name :: dir) s = .ok () t ∧
      t.disk = disk.add name dir parent { made with mode := setting.user.granted made.gid inode.mode } ∧
      t.reports = s.reports := by
  obtain ⟨t, happly, ht, hkept⟩ := applyPermissions_ok h hreached hinode hdisk hset
  refine ⟨t, ?_, ht, hkept⟩
  cases version with
  | blocking => exact happly
  | async =>
    rw [copyPermissions, bind_ok (succeeds_ok happly)]
    rfl

theorem copyFile_ok (version : Version) {rounds : Nat} (total k : Nat) {content : Bytes} {inode : Inode}
    {s : Machine} (hsource : Reached setting.user s.disk source) (hinode : s.disk source = some inode)
    (hread : setting.user.may inode Access.read) (hstream : inode.stream = some content)
    (hrounds : content.length < rounds) (hself : source ≠ name :: dir) (hne : source ≠ dir)
    (hreached : Reached setting.user s.disk (name :: dir)) (hdir : s.disk dir = some parent)
    (hwrite : setting.user.may parent Access.write) (hfree : s.disk (name :: dir) = none) :
    ∃ t more, copyFile setting version rounds source (name :: dir) total (saturating k) s =
        .ok (saturating (k + content.length)) t ∧
      t.disk = s.disk.add name dir parent ⟨setting.user.uid, setting.user.gidIn parent,
        version.leaves setting.user content (setting.user.granted (setting.user.gidIn parent) inode.mode), .file content⟩ ∧
      t.reports = s.reports ++ more ∧ Climbs total (saturating k) more (saturating (k + content.length)) := by
  have hopen := openRead_ok h hsource hinode hread hstream
  obtain ⟨mode, s', hcreate, hdisk, hnothing⟩ : ∃ mode s', change setting
      (createFile setting.user setting.umask (name :: dir)) (s.moved s.disk) = .ok () s' ∧
      s'.disk = s.disk.add name dir parent ⟨setting.user.uid, setting.user.gidIn parent, mode, .file []⟩ ∧
      s'.reports = s.reports :=
    ⟨_, _, createFile_ok (s := s.moved s.disk) h hreached hdir hwrite hfree, rfl, rfl⟩
  have hempty : ∀ mode, (⟨setting.user.uid, setting.user.gidIn parent, mode, .file []⟩ : Inode).body =
      .file (content.take 0) := fun mode => by rw [take_zero]
  have hstill : ∀ {t : Machine} {file}, t.disk = s.disk.add name dir parent file →
      Reached setting.user t.disk source ∧ t.disk source = some inode ∧ Reached setting.user t.disk (name :: dir) ∧
      t.disk (name :: dir) = some file := by
    intro t file ht
    rw [ht, s.disk.add_of_ne _ _ hself hne]
    exact ⟨hsource.add hdir hfree, hinode, hreached.add hdir hfree, s.disk.add_self ..⟩
  cases version with
  | blocking =>
    obtain ⟨t, more, hrun, ht, hreports, hclimbs⟩ := copyBytes_ok h hself hne hinode hstream total k (Nat.zero_le _)
      hrounds (hempty mode) hdisk
    obtain ⟨hsource', hinode', hreached', hfile'⟩ := hstill ht
    obtain ⟨u, hset, hu, hkept⟩ := applyPermissions_ok h hsource' hinode' ht
      (setPermissions_of_owner _ hreached' hfile' rfl)
    rw [Nat.add_zero] at hrun
    rw [copyFile, bind_ok hopen, bind_ok hcreate, bind_ok hrun, bind_ok (succeeds_ok hset)]
    exact ⟨u, more, rfl, hu, hkept.trans (hreports.trans (congrArg (· ++ more) hnothing)), hclimbs⟩
  | async =>
    obtain ⟨hsource', hinode', -, hfile'⟩ := hstill hdisk
    obtain ⟨t, hset, ht, hkept⟩ := applyPermissions_ok h hsource' hinode' hdisk
      (setOpenPermissions_of_owner _ hfile' rfl)
    obtain ⟨u, more, hrun, hu, hreports, hclimbs⟩ := copyBytes_ok h hself hne hinode hstream total k (Nat.zero_le _)
      hrounds (hempty _) ht
    rw [copyFile, bind_ok hopen, bind_ok hcreate, bind_ok (succeeds_ok hset)]
    grind [Version.leaves, length_pos_iff]

theorem copySymlink_ok (total k : Nat) {target : Bytes} {inode : Inode} {s : Machine}
    (hsource : Reached setting.user s.disk source) (hinode : s.disk source = some inode)
    (hbody : inode.body = .symlink target) (hreached : Reached setting.user s.disk (name :: dir))
    (hdir : s.disk dir = some parent) (hwrite : setting.user.may parent Access.write)
    (hfree : s.disk (name :: dir) = none) :
    ∃ t, copySymlink setting source (name :: dir) total inode.len (saturating k) s =
        .ok (min (saturating (k + inode.len)) total) t ∧
      t.disk = s.disk.add name dir parent ⟨setting.user.uid, setting.user.gidIn parent, .all, .symlink target⟩ ∧
      t.reports = s.reports ++ [⟨min (saturating (k + inode.len)) total, total⟩] := by
  have hlink : readLink setting.user source s.disk = .ok target := by
    rw [readLink, lookup_of_reached hsource, find_of_some hinode, except_ok_bind, hbody]
  have hcreate : change setting (symlink setting.user target (name :: dir)) (s.moved s.disk) = .ok () ((s.moved s.disk).moved _) :=
    change_ok h (create_of_mayChange (fun _ => .all) (.symlink target) hreached hdir hwrite hfree)
  rw [copySymlink, bind_ok (ensureNotCancelled_ok h), bind_ok (ask_ok h hlink), bind_ok hcreate,
    saturatingAdd_saturating, progress, bind_ok (modify_run _ _)]
  exact ⟨_, rfl, rfl, rfl⟩

theorem copyDirectory_made (version : Version) (inner : Location → Location → Nat → Task Nat) (done : Nat)
    {inode : Inode} {names : List Name} {s : Machine}
    (hsource : Reached setting.user s.disk source) (hinode : s.disk source = some inode)
    (hbody : inode.body = .directory names) (hread : setting.user.may inode Access.read) (hself : source ≠ name :: dir)
    (hne : source ≠ dir) (hreached : Reached setting.user s.disk (name :: dir)) (hdir : s.disk dir = some parent)
    (hwrite : setting.user.may parent Access.write) (hfree : s.disk (name :: dir) = none) :
    ∃ t, copyDirectory setting version inner source (name :: dir) done s =
        copyEntries setting inner source (name :: dir) names done t ∧
      t.disk = s.disk.add name dir parent ⟨setting.user.uid, setting.user.gidIn parent,
        setting.user.granted (setting.user.gidIn parent) inode.mode, .directory []⟩ ∧ t.reports = s.reports := by
  obtain ⟨mode, s', hcreate, hdisk, hnothing⟩ : ∃ mode s', change setting
      (createDir setting.user setting.umask (name :: dir)) s = .ok () s' ∧
      s'.disk = s.disk.add name dir parent ⟨setting.user.uid, setting.user.gidIn parent, mode, .directory []⟩ ∧
      s'.reports = s.reports :=
    ⟨_, _, change_ok h (create_of_mayChange _ _ hreached hdir hwrite hfree), rfl, rfl⟩
  have hstill : ∀ {t : Machine} {made}, t.disk = s.disk.add name dir parent made →
      Reached setting.user t.disk source ∧ t.disk source = some inode ∧ Reached setting.user t.disk (name :: dir) ∧
      t.disk (name :: dir) = some made := by
    intro t made ht
    rw [ht, s.disk.add_of_ne _ _ hself hne]
    exact ⟨hsource.add hdir hfree, hinode, hreached.add hdir hfree, s.disk.add_self ..⟩
  obtain ⟨hsource', hinode', hreached', hmade⟩ := hstill hdisk
  obtain ⟨t, hpermissions, ht, hkept⟩ := copyPermissions_ok h version hsource' hinode' hdisk
    (setPermissions_of_owner inode.mode hreached' hmade rfl)
  obtain ⟨hsource'', hinode'', -, -⟩ := hstill ht
  rw [copyDirectory, bind_ok hcreate, bind_ok hpermissions, bind_ok (readDir_ok h hsource'' hinode'' hread hbody)]
  exact ⟨_, rfl, ht, hkept.trans hnothing⟩

end

end CopyFile

end TensorDE.Files.Transfer
