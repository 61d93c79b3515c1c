import TensorDE.Files.TransferRuns

namespace TensorDE.Files.Transfer

open Effect FileSystem List

def CanRead (user : User) (inode : Inode) : Prop :=
  match inode.body with
  | .file _ => user.may inode Access.read
  | .directory _ => user.may inode Access.read ∧ user.may inode Access.execute
  | .symlink _ => True
  | .special stream => user.may inode Access.read ∧ ∃ content, stream = .ok content

variable {user : User}

theorem CanRead.stream {inode : Inode} (h : CanRead user inode) (hdirectory : inode.isDirectory = false)
    (hlink : inode.isSymlink = false) : user.may inode Access.read ∧ ∃ content, inode.stream = some content := by
  unfold CanRead at h
  cases hbody : inode.body with
  | file content =>
    rw [hbody] at h
    exact ⟨h, content, by simp [Inode.stream, hbody]⟩
  | special stream =>
    rw [hbody] at h
    obtain ⟨hread, content, rfl⟩ := h
    exact ⟨hread, content, by simp [Inode.stream, hbody]⟩
  | directory names => simp [Inode.isDirectory, hbody] at hdirectory
  | symlink target => simp [Inode.isSymlink, hbody] at hlink

/-- A tree that can be copied with the given bounds on its depth and on its files. -/
structure Copyable (user : User) (fuel rounds : Nat) (tree : Disk) : Prop where
  valid : tree.Valid
  present : ∃ inode, tree [] = some inode
  readable : ∀ inner inode, tree inner = some inode → CanRead user inode
  shallow : ∀ inner inode, tree inner = some inode → inner.length < fuel
  short : ∀ inner inode content, tree inner = some inode → inode.stream = some content → content.length < rounds

/-- The owner of a directory with entries may change and search it. -/
def Filled (user : User) (tree : Disk) : Prop :=
  ∀ inner inode names, tree inner = some inode → inode.body = .directory names → names ≠ [] →
    user.privileged ∨ inode.mode.owner.write ∧ inode.mode.owner.execute

def Plain (tree : Disk) : Prop := ∀ inner inode stream, tree inner = some inode → inode.body ≠ .special stream

variable (version : Version)

def Version.Image (user : User) (inode made : Inode) : Prop :=
  match inode.body with
  | .file content =>
    made.body = .file content ∧ made.mode = version.leaves user content (user.granted made.gid inode.mode)
  | .directory names => made.body = .directory names ∧ made.mode = user.granted made.gid inode.mode
  | .symlink target => made.body = .symlink target
  | .special _ => ∃ content, made.body = .file content

/-- The copy of a tree; `gid` is the group of its top. -/
structure Copied (version : Version) (user : User) (gid : Nat) (tree copy : Disk) : Prop where
  item : ∀ inner inode, tree inner = some inode → ∃ made, copy inner = some made ∧ version.Image user inode made ∧
    (inner = [] → made.gid = gid) ∧ (inner ≠ [] → user.keepsGroup made.gid)
  absent : ∀ inner, tree inner = none → copy inner = none

/-- A tree has been copied to a new name in a directory, and nothing else has changed. -/
structure Grafted (version : Version) (user : User) (name : Name) (dir : Location) (parent : Inode) (tree before after : Disk) :
    Prop where
  copied : Copied version user (user.gidIn parent) tree (after.under (name :: dir))
  parent : after dir = some (parent.addName name)
  frame : ∀ path, ¬name :: dir <:+ path → path ≠ dir → after path = before path

def size : Nat → Disk → Nat
  | 0, _ => 0
  | fuel + 1, tree =>
    match tree [] with
    | none => 0
    | some inode =>
      match inode.body with
      | .directory names => (names.map fun name => size fuel (tree.under [name])).sum
      | _ => inode.len

section Trees

variable {user : User} {fuel rounds : Nat} {tree : Disk} {inode : Inode} {names : List Name}

theorem under_single (disk : Disk) (path : Location) (name : Name) :
    (disk.under path).under [name] = disk.under (name :: path) := disk.under_under path [name]

variable {name : Name}

theorem Copyable.entry (h : Copyable user (fuel + 1) rounds tree) (hroot : tree [] = some inode)
    (hbody : inode.body = .directory names) (hname : name ∈ names) :
    Copyable user fuel rounds (tree.under [name]) where
  valid := h.valid.under [name]
  present := Option.isSome_iff_exists.mp ((h.valid.listed name []).mpr ⟨inode, names, hroot, hbody, hname⟩)
  readable := fun inner => h.readable (inner ++ [name])
  shallow := fun inner other hother => by
    have := h.shallow (inner ++ [name]) other hother
    grind
  short := fun inner => h.short (inner ++ [name])

theorem path_cases (inner : Location) : inner = [] ∨ ∃ rest name, inner = rest ++ [name] := by
  rcases eq_nil_or_concat inner with h | ⟨rest, name, h⟩
  · exact .inl h
  · exact .inr ⟨rest, name, by simpa using h⟩

theorem under_of_not_mem (h : tree.Valid) (hroot : tree [] = some inode) (hbody : inode.body = .directory names) (hname : name ∉ names) (inner : Location) : tree.under [name] inner = none := by
  have hfree : tree [name] = none := by
    rw [← Option.not_isSome_iff_eq_none, h.listed]
    rintro ⟨other, listed, hother, hlisted, hmem⟩
    obtain rfl : inode = other := Option.some.inj (hroot.symm.trans hother)
    rw [hbody] at hlisted
    cases hlisted
    exact hname hmem
  exact h.below_free hfree inner

theorem Filled.entry (h : Filled user tree) (name : Name) : Filled user (tree.under [name]) :=
  fun inner => h (inner ++ [name])

theorem Plain.entry (h : Plain tree) (name : Name) : Plain (tree.under [name]) := fun inner => h (inner ++ [name])

theorem filled_of_entries (h : tree.Valid) (hroot : tree [] = some inode) (hbody : inode.body = .directory names)
    (htop : names ≠ [] → user.privileged ∨ inode.mode.owner.write ∧ inode.mode.owner.execute)
    (hentries : ∀ name ∈ names, Filled user (tree.under [name])) : Filled user tree := by
  intro inner other listed hother hlisted hne
  rcases path_cases inner with rfl | ⟨before, entry, rfl⟩
  · grind
  · by_cases hentry : entry ∈ names
    · exact hentries entry hentry before other listed hother hlisted hne
    · have hnone : tree (before ++ [entry]) = none := under_of_not_mem h hroot hbody hentry before
      rw [hother] at hnone
      cases hnone

theorem filled_of_leaf (h : tree.Valid) (hroot : tree [] = some inode) (hleaf : inode.isDirectory = false) :
    Filled user tree := by
  intro inner other listed hother hlisted hne
  rcases path_cases inner with rfl | ⟨before, entry, rfl⟩
  · grind [Inode.isDirectory]
  grind -linarith [h.leaf]

variable {version : Version} {before : Disk}

/-- A file or a link is copied by making it. -/
theorem Grafted.of_add {dir : Location} {parent made : Inode}
    (h : tree.Valid) (hroot : tree [] = some inode) (hleaf : inode.isDirectory = false)
    (hfree : ∀ inner, before (inner ++ name :: dir) = none) (himage : version.Image user inode made)
    (hgid : made.gid = user.gidIn parent) :
    Grafted version user name dir parent tree before (before.add name dir parent made) where
  copied := {
    item := by
      intro inner other hother
      rcases path_cases inner with rfl | ⟨rest, entry, rfl⟩
      · obtain rfl : inode = other := Option.some.inj (hroot.symm.trans hother)
        exact ⟨made, before.add_self .., himage, fun _ => hgid, fun hne => absurd rfl hne⟩
      grind -linarith [h.leaf]
    absent := by
      intro inner hinner
      have hne : inner ≠ [] := by
        rintro rfl
        rw [hroot] at hinner
        cases hinner
      rw [Disk.under_apply, before.add_of_ne, hfree]
      · intro heq
        exact hne (by simpa using heq)
      grind [length_cons] }
  parent := before.add_parent ..
  frame := by
    grind [before.add_of_ne]

variable {parent : Inode} {after copied : Disk}

theorem Grafted.source {dir source : Location}
    (h : Grafted version user name dir parent copied before after) (hpresent : (before source).isSome)
    (hfree : ∀ inner, before (inner ++ name :: dir) = none) (hapart : ¬source <:+ name :: dir) :
    after.under source = before.under source := by
  funext inner
  refine h.frame (inner ++ source) ?_ ?_
  · intro hbelow
    rcases suffix_or_suffix_of_suffix hbelow (suffix_append inner source) with hle | hle
    · obtain ⟨rest, rfl⟩ := hle
      rw [hfree] at hpresent
      cases hpresent
    · exact hapart hle
  grind

theorem Grafted.passable {dir path : Location}
    (h : Grafted version user name dir parent copied before after) (hfree : ∀ inner, before (inner ++ name :: dir) = none)
    (hdir : before dir = some parent) (hpath : Passable user before path) : Passable user after path := by
  obtain ⟨found, hfound, hdirectory, hmay⟩ := hpath
  by_cases heq : path = dir
  · subst heq
    obtain rfl : found = parent := Option.some.inj (hfound.symm.trans hdir)
    exact ⟨_, h.parent, by simpa using hdirectory, by simpa using hmay⟩
  · refine ⟨found, (h.frame path ?_ heq).trans hfound, hdirectory, hmay⟩
    rintro ⟨rest, rfl⟩
    rw [hfree] at hfound
    cases hfound

end Trees

structure Ready (user : User) (disk : Disk) (tree : Disk) (source : Location) (name : Name) (dir : Location) (parent : Inode) :
    Prop where
  under : disk.under source = tree
  readable : Reached user disk source
  reached : Reached user disk (name :: dir)
  parent : disk dir = some parent
  free : ∀ inner, disk (inner ++ name :: dir) = none
  apart : ¬source <:+ name :: dir

variable {disk tree : Disk} {source dir : Location} {name : Name} {parent : Inode}

section

variable (h : Ready user disk tree source name dir parent)
include h

theorem Ready.top : disk source = tree [] := by
  rw [← h.under]
  rfl

theorem Ready.self_ne : source ≠ name :: dir := by
  rintro rfl
  exact h.apart (suffix_refl _)

theorem Ready.dir_ne : source ≠ dir := by
  rintro rfl
  exact h.apart (suffix_cons name _)

end

/-- What a copy of some bytes reports, when `done` of a whole have been copied before. -/
def Reported (total bytes : Nat) (plain : Prop) (before after : List TransferProgress) (done result : Nat) : Prop :=
  ∃ more, after = before ++ more ∧ ∀ k whole, done = saturating k → plain → total = saturating whole → k + bytes ≤ whole →
    result = saturating (k + bytes) ∧ Climbs total done more result

/-- How a copy comes back: with the tree copied, or with an error for a directory that cannot be filled. -/
def Comes (user : User) (fuel total : Nat) (tree : Disk) (name : Name) (dir : Location) (parent : Inode)
    (s : Machine) (done : Nat) (result : EStateM.Result (Fault Errno) Machine Nat) : Prop :=
  Returns (fun result t => (∃ k, result = saturating k) ∧ Grafted version user name dir parent tree s.disk t.disk ∧
      Filled user tree ∧ Reported total (size fuel tree) (Plain tree) s.reports t.reports done result)
    (fun _ _ => ¬Filled user tree) result

section Copy

variable {setting : Setting} {version : Version} {fuel rounds total k : Nat} {tree : Disk} {source dir : Location} {name : Name}
  {parent inode : Inode} {s : Machine}

theorem saturating_add_congr {j k : Nat} (h : saturating j = saturating k) (n : Nat) :
    saturating (j + n) = saturating (k + n) := by
  rw [← saturatingAdd_saturating, h, saturatingAdd_saturating]

theorem size_of_leaf (hroot : tree [] = some inode) (hleaf : inode.isDirectory = false) :
    size (fuel + 1) tree = inode.len := by
  grind [size, Inode.isDirectory]

theorem comes_symlink (h : setting.Calm) (hc : Copyable setting.user (fuel + 1) rounds tree)
    (hr : Ready setting.user s.disk tree source name dir parent) (hchange : setting.user.mayChange parent)
    (hroot : tree [] = some inode) {target : Bytes} (hbody : inode.body = .symlink target) :
    Comes version setting.user (fuel + 1) total tree name dir parent s (saturating k)
      (copySymlink setting source (name :: dir) total inode.len (saturating k) s) := by
  have hleaf : inode.isDirectory = false := by simp [Inode.isDirectory, hbody]
  obtain ⟨t, hrun, ht, hreports⟩ := copySymlink_ok h total k hr.readable (hr.top.trans hroot) hbody hr.reached hr.parent
    hchange.1 (hr.free [])
  rw [hrun]
  refine ⟨⟨min (k + inode.len) total, ?_⟩, ?_, filled_of_leaf hc.valid hroot hleaf, _, hreports, ?_⟩
  · unfold saturating
    omega
  · grind -linarith [Grafted.of_add, hc.valid, hr.free, Version.Image]
  · intro k' whole hk _ htotal hle
    rw [size_of_leaf hroot hleaf] at hle ⊢
    rw [hk, saturating_add_congr hk]
    have hdone : min (saturating (k' + inode.len)) total = saturating (k' + inode.len) := by
      rw [htotal]
      exact Nat.min_eq_left (saturating_mono hle)
    exact ⟨hdone, (saturating_mono (Nat.le_add_right _ _)).trans_eq hdone.symm, rfl, rfl⟩

variable {content : Bytes}

theorem saturating_add_len (k : Nat) (hbody : inode.body = .file content) :
    saturating (k + content.length) = saturating (k + inode.len) := by
  grind [Inode.len, saturating]

theorem comes_file (h : setting.Calm) (hc : Copyable setting.user (fuel + 1) rounds tree)
    (hr : Ready setting.user s.disk tree source name dir parent) (hchange : setting.user.mayChange parent)
    (hroot : tree [] = some inode) (hread : setting.user.may inode Access.read)
    (hstream : inode.stream = some content) :
    Comes version setting.user (fuel + 1) total tree name dir parent s (saturating k)
      (copyFile setting version rounds source (name :: dir) total (saturating k) s) := by
  have hbody : inode.body = .file content ∨ inode.body = .special (.ok content) := by
    unfold Inode.stream at hstream
    split at hstream <;> simp_all
  have hleaf : inode.isDirectory = false := by
    rcases hbody with hbody | hbody <;> simp [Inode.isDirectory, hbody]
  obtain ⟨t, more, hrun, ht, hreports, hclimbs⟩ := copyFile_ok h version total k hr.readable (hr.top.trans hroot) hread
    hstream (hc.short [] inode content hroot hstream) hr.self_ne hr.dir_ne hr.reached hr.parent hchange.1 (hr.free [])
  rw [hrun]
  refine ⟨⟨_, rfl⟩, ?_, filled_of_leaf hc.valid hroot hleaf, more, hreports, ?_⟩
  · grind -linarith [Grafted.of_add, hc.valid, hr.free, Version.Image]
  · intro k' whole hk hplain _ _
    have hfile := hbody.resolve_right (hplain [] inode _ hroot)
    rw [size_of_leaf hroot hleaf, ← saturating_add_len k' hfile]
    exact ⟨saturating_add_congr hk _, hclimbs⟩

variable (version total) in
/-- Nothing is copied into a directory that the user cannot change. -/
theorem copyPathInner_refused (h : setting.Calm) (hc : Copyable setting.user (fuel + 1) rounds tree)
    (hreadable : Reached setting.user s.disk source) (htop : s.disk source = tree []) (hdir : s.disk dir = some parent)
    (hfree : s.disk (name :: dir) = none) (hrefused : ¬setting.user.mayChange parent) (done : Nat) :
    ∃ e t, copyPathInner setting version rounds total (fuel + 1) source (name :: dir) done s = .error (.error e) t := by
  obtain ⟨inode, hroot⟩ := hc.present
  have hinode := htop.trans hroot
  rw [copyPathInner, bind_ok (symlinkMetadata_ok h hreadable hinode)]
  cases hbody : inode.body with
  | symlink target =>
    have hlink : readLink setting.user source s.disk = .ok target := by
      rw [readLink, lookup_of_reached hreadable, find_of_some hinode, except_ok_bind, hbody]
    obtain ⟨e, he⟩ := create_of_not_mayChange (fun _ => .all) (.symlink target) hdir hrefused
    have hcreate : change setting (symlink setting.user target (name :: dir)) ((s.moved s.disk).moved s.disk) =
        .error (.error e) _ := change_error h he
    rw [if_pos (by simp [Inode.isSymlink, hbody]), copySymlink, bind_ok (ensureNotCancelled_ok h),
      bind_ok (ask_ok (s := s.moved s.disk) h hlink)]
    exact ⟨e, _, bind_error hcreate⟩
  | directory names =>
    obtain ⟨e, he⟩ := create_of_not_mayChange (fun parent => { Mode.uniform ⟨true, true, true⟩ setting.umask with
      setgid := parent.mode.setgid }) (.directory []) hdir hrefused
    have hcreate : change setting (createDir setting.user setting.umask (name :: dir)) (s.moved s.disk) =
        .error (.error e) _ := change_error h he
    rw [if_neg (by simp [Inode.isSymlink, hbody]), if_pos (by simp [Inode.isDirectory, hbody]), copyDirectory]
    exact ⟨e, _, bind_error hcreate⟩
  | file content | special stream =>
    obtain ⟨e, he⟩ := createFile_of_not_mayChange setting.umask hdir hrefused hfree
    have hcreate : change setting (createFile setting.user setting.umask (name :: dir)) ((s.moved s.disk).moved s.disk) =
        .error (.error e) _ := change_error h he
    obtain ⟨hread, content, hstream⟩ := (hc.readable [] inode hroot).stream (by simp [Inode.isDirectory, hbody])
      (by simp [Inode.isSymlink, hbody])
    rw [if_neg (by simp [Inode.isSymlink, hbody]), if_neg (by simp [Inode.isDirectory, hbody])]
    cases version <;> rw [copyFile, bind_ok (openRead_ok (s := s.moved s.disk) h hreadable hinode hread hstream)] <;>
      exact ⟨e, _, bind_error hcreate⟩

/-- The directory that a tree's top has been made into. -/
def madeDirectory (user : User) (parent inode : Inode) (names : List Name) : Inode :=
  ⟨user.uid, user.gidIn parent, user.granted (user.gidIn parent) inode.mode, .directory names⟩

/-- A directory whose first entries have been copied. -/
structure Filling (version : Version) (user : User) (base tree : Disk) (source path : Location) (parent inode : Inode)
    (done : List Name) (disk : Disk) : Prop where
  under : disk.under source = tree
  readable : Reached user disk source
  pass : Passable user disk source
  reached : Reached user disk path
  self : disk path = some (madeDirectory user parent inode done)
  copied : ∀ entry ∈ done, Copied version user (user.gidIn (madeDirectory user parent inode [])) (tree.under [entry])
    (disk.under (entry :: path))
  rest : ∀ entry, entry ∉ done → ∀ inner, disk (inner ++ entry :: path) = none
  frame : ∀ other, ¬path <:+ other → disk other = base other

variable {names : List Name}

theorem mayChange_madeDirectory {user : User} : user.mayChange (madeDirectory user parent inode names) ↔
      user.privileged ∨ inode.mode.owner.write ∧ inode.mode.owner.execute := by
  rw [mayChange_of_owner rfl]
  simp [madeDirectory]

section Entry

variable {base : Disk} {path : Location} {disk : Disk} {entry : Name} {before : List Name}

theorem Filling.passable (hf : Filling version setting.user base tree source path parent inode before disk)
    (hchange : setting.user.mayChange (madeDirectory setting.user parent inode before)) :
    Passable setting.user disk path := ⟨_, hf.self, rfl, hchange.2⟩

theorem Filling.ready (hf : Filling version setting.user base tree source path parent inode before disk)
    (hchange : setting.user.mayChange (madeDirectory setting.user parent inode before)) (hentry : entry ∉ before)
    (hapart : ¬source <:+ path) :
    Ready setting.user disk (tree.under [entry]) (entry :: source) entry path (madeDirectory setting.user parent inode before) where
  under := by rw [← hf.under, under_single]
  readable := reached_cons.mpr ⟨hf.readable, hf.pass⟩
  reached := reached_cons.mpr ⟨hf.reached, hf.passable hchange⟩
  parent := hf.self
  free := hf.rest entry hentry
  apart := by
    intro hsuffix
    rcases suffix_cons_iff.mp hsuffix with heq | hsuffix
    · exact hapart (by rw [(List.cons.inj heq).2])
    grind [suffix_cons]

theorem suffix_entry_eq {other : Name} {inner : Location} (h : entry :: path <:+ inner ++ other :: path) :
    other = entry := by
  obtain ⟨rest, hrest⟩ := h
  grind [append_inj_right']

theorem append_cons_ne (inner : Location) (other : Name) : inner ++ other :: path ≠ path := by
  grind [length_cons]

/-- Copying an entry leaves the other entries alone. -/
theorem Filling.grafted (hf : Filling version setting.user base tree source path parent inode before disk)
    (hapart : ¬source <:+ path) {after : Disk} (hready : Ready setting.user disk (tree.under [entry])
      (entry :: source) entry path (madeDirectory setting.user parent inode before))
    (hg : Grafted version setting.user entry path (madeDirectory setting.user parent inode before) (tree.under [entry]) disk after) :
    Filling version setting.user base tree source path parent inode (before ++ [entry]) after := by
  have hother : ∀ other, other ≠ entry → ∀ inner, after (inner ++ other :: path) = disk (inner ++ other :: path) :=
    fun other hne inner => hg.frame _ (fun h => hne (suffix_entry_eq h)) (append_cons_ne inner other)
  obtain ⟨top, htop, -⟩ := hf.pass
  have hcons : ¬source <:+ entry :: path := by
    intro hsuffix
    rcases suffix_cons_iff.mp hsuffix with rfl | hsuffix
    · have hnone : disk (entry :: path) = none := hready.free []
      rw [htop] at hnone
      cases hnone
    · exact hapart hsuffix
  refine {
    under := (hg.source (Option.isSome_iff_exists.mpr ⟨top, htop⟩) hready.free hcons).trans hf.under
    readable := fun above habove hne => hg.passable hready.free hready.parent (hf.readable above habove hne)
    pass := hg.passable hready.free hready.parent hf.pass
    reached := fun above habove hne => hg.passable hready.free hready.parent (hf.reached above habove hne)
    self := hg.parent
    copied := ?_
    rest := ?_
    frame := ?_ }
  · intro other hmem
    by_cases heq : other = entry
    · subst heq
      exact hg.copied
    · have hbefore : other ∈ before := by
        rcases mem_append.mp hmem with h | h
        · exact h
        · exact absurd (mem_singleton.mp h) heq
      have hsame : after.under (other :: path) = disk.under (other :: path) := funext fun inner => hother other heq inner
      rw [hsame]
      exact hf.copied other hbefore
  · grind [hf.rest]
  grind [hg.frame, hf.frame]

theorem copyEntries_comes (h : setting.Calm) (hc : Copyable setting.user (fuel + 1) rounds tree) (hroot : tree [] = some inode)
    {names : List Name} (hbody : inode.body = .directory names) (hapart : ¬source <:+ path)
    (ih : ∀ {tree source name dir parent} {s : Machine} {k : Nat}, Copyable setting.user fuel rounds tree →
      Ready setting.user s.disk tree source name dir parent → setting.user.mayChange parent →
      Comes version setting.user fuel total tree name dir parent s (saturating k)
        (copyPathInner setting version rounds total fuel source (name :: dir) (saturating k) s))
    (rest : List Name) : ∀ {before : List Name} {s : Machine} {k : Nat}, before ++ rest = names →
      Filling version setting.user base tree source path parent inode before s.disk →
      Returns (fun result t => (∃ k', result = saturating k') ∧
          Filling version setting.user base tree source path parent inode names t.disk ∧
          (rest ≠ [] → setting.user.privileged ∨ inode.mode.owner.write ∧ inode.mode.owner.execute) ∧
          (∀ entry ∈ rest, Filled setting.user (tree.under [entry])) ∧
          Reported total (rest.map fun entry => size fuel (tree.under [entry])).sum (Plain tree) s.reports t.reports
            (saturating k) result) (fun _ _ => ¬Filled setting.user tree)
        (copyEntries setting (copyPathInner setting version rounds total fuel) source path rest (saturating k) s) := by
  induction rest with
  | nil =>
    intro before s k hnames hf
    rw [append_nil] at hnames
    subst hnames
    refine ⟨⟨k, rfl⟩, hf, fun hne => absurd rfl hne, by simp, [], by simp, ?_⟩
    intro k' whole hk _ _ _
    exact ⟨hk, rfl⟩
  | cons entry rest ihrest =>
    intro before s k hnames hf
    have hmem : entry ∈ names := by rw [← hnames]; simp
    have hnodup : (before ++ entry :: rest).Nodup := hnames ▸ hc.valid.once [] inode names hroot hbody
    have hentry : entry ∉ before := fun hb => (nodup_append.mp hnodup).2.2 entry hb entry mem_cons_self rfl
    have hcentry := hc.entry hroot hbody hmem
    have hassoc : before ++ [entry] ++ rest = before ++ entry :: rest := by simp
    rw [copyEntries, foldlM_cons, bind_assoc, bind_ok (ensureNotCancelled_ok h)]
    by_cases hchange : setting.user.mayChange (madeDirectory setting.user parent inode before)
    · have hready := hf.ready hchange hentry hapart
      refine Returns.bind (Returns.mono (ih hcentry hready hchange) (fun _ _ hresult => hresult)
        fun _ _ herror hfilled => herror (hfilled.entry entry)) ?_
      rintro result t ⟨⟨k', rfl⟩, hg, hfilled, more, hmore, hclimbs⟩
      refine Returns.mono (ihrest (hassoc.trans hnames) (hf.grafted hapart hready hg)) ?_
        fun _ _ herror => herror
      rintro result u ⟨hresult, hdone, -, hrest, more', hmore', hclimbs'⟩
      refine ⟨hresult, hdone, fun _ => mayChange_madeDirectory.mp hchange, forall_mem_cons.mpr ⟨hfilled, hrest⟩,
        more ++ more', by rw [hmore', hmore, append_assoc], ?_⟩
      intro j whole hj hplain htotal hle
      rw [map_cons, sum_cons] at hle ⊢
      obtain ⟨hk', hfirst⟩ := hclimbs j whole hj (hplain.entry entry) htotal (by omega)
      grind -linarith [hfirst.append]
    · obtain ⟨fuel, rfl⟩ : ∃ fuel', fuel = fuel' + 1 := by
        obtain ⟨top, htop⟩ := hcentry.present
        exact Nat.exists_eq_succ_of_ne_zero (Nat.ne_zero_of_lt (hcentry.shallow [] top htop))
      have htop : s.disk (entry :: source) = tree.under [entry] [] := by
        rw [← hf.under]
        rfl
      obtain ⟨e, t, herror⟩ := copyPathInner_refused version total h hcentry
        (reached_cons.mpr ⟨hf.readable, hf.pass⟩) htop hf.self (hf.rest entry hentry []) hchange (saturating k)
      rw [bind_error herror]
      exact fun hfilled => hchange (mayChange_madeDirectory.mpr (hfilled [] inode names hroot hbody
        (ne_nil_of_mem hmem)))

end Entry

theorem size_of_directory (hroot : tree [] = some inode) (hbody : inode.body = .directory names) :
    size (fuel + 1) tree = (names.map fun entry => size fuel (tree.under [entry])).sum := by
  rw [size, hroot]
  dsimp only
  rw [hbody]

theorem Ready.filling (hr : Ready setting.user s.disk tree source name dir parent)
    (hroot : tree [] = some inode) (hdirectory : inode.isDirectory) (hexecute : setting.user.may inode Access.execute)
    {disk : Disk} (hdisk : disk = s.disk.add name dir parent (madeDirectory setting.user parent inode [])) :
    Filling version setting.user disk tree source (name :: dir) parent inode [] disk where
  under := by
    rw [← hr.under, hdisk]
    funext inner
    refine s.disk.add_of_ne _ _ (fun heq => ?_) fun heq => ?_
    · exact hr.apart (heq ▸ suffix_append inner source)
    grind [hr.apart]
  readable := hdisk ▸ hr.readable.add hr.parent (hr.free [])
  pass := hdisk ▸ Passable.add ⟨inode, hr.top.trans hroot, hdirectory, hexecute⟩ hr.parent (hr.free [])
  reached := hdisk ▸ hr.reached.add hr.parent (hr.free [])
  self := by rw [hdisk, s.disk.add_self]
  copied := by simp
  rest := by
    intro entry _ inner
    rw [hdisk, s.disk.add_of_ne]
    · simpa using hr.free (inner ++ [entry])
    · exact append_cons_ne inner entry
    grind [length_cons]
  frame := fun _ _ => rfl

theorem Filling.finished {base disk : Disk} (hv : tree.Valid) (hroot : tree [] = some inode)
    (hbody : inode.body = .directory names) (hbase : base = s.disk.add name dir parent (madeDirectory setting.user parent inode []))
    (hf : Filling version setting.user base tree source (name :: dir) parent inode names disk) :
    Grafted version setting.user name dir parent tree s.disk disk where
  copied := {
    item := by
      intro inner other hother
      rcases path_cases inner with rfl | ⟨rest, entry, rfl⟩
      · obtain rfl : inode = other := Option.some.inj (hroot.symm.trans hother)
        refine ⟨_, hf.self, ?_, fun _ => rfl, fun hne => absurd rfl hne⟩
        simp [Version.Image, hbody, madeDirectory]
      · have hentry : entry ∈ names := by
          by_contra hnot
          have hnone : tree (rest ++ [entry]) = none := under_of_not_mem hv hroot hbody hnot rest
          rw [hother] at hnone
          cases hnone
        obtain ⟨made, hmade, himage, htop, hin⟩ := (hf.copied entry hentry).item rest other hother
        refine ⟨made, by simpa [Disk.under] using hmade, himage, fun hnil => by simp at hnil, fun _ => ?_⟩
        by_cases hrest : rest = []
        · rw [htop hrest]
          exact User.keepsGroup_gidIn rfl
        · exact hin hrest
    absent := by
      intro inner hinner
      rcases path_cases inner with rfl | ⟨rest, entry, rfl⟩
      · rw [hroot] at hinner
        cases hinner
      · by_cases hentry : entry ∈ names
        · simpa [Disk.under] using (hf.copied entry hentry).absent rest hinner
        grind [Disk.under, hf.rest] }
  parent := by
    rw [hf.frame dir fun h => absurd h.length_le (by simp), hbase, s.disk.add_parent]
  frame := by
    intro other hsuffix hne
    rw [hf.frame other hsuffix, hbase, s.disk.add_of_ne _ _ _ hne]
    grind

end Copy

theorem copyPathInner_comes {setting : Setting} (h : setting.Calm) (version : Version) (rounds total : Nat) {fuel : Nat} :
    ∀ {tree : Disk} {source dir : Location} {name : Name} {parent : Inode} {s : Machine} {k : Nat},
      Copyable setting.user fuel rounds tree → Ready setting.user s.disk tree source name dir parent →
      setting.user.mayChange parent → Comes version setting.user fuel total tree name dir parent s (saturating k)
        (copyPathInner setting version rounds total fuel source (name :: dir) (saturating k) s) := by
  induction fuel with
  | zero => grind +splitImp +splitIndPred
  | succ fuel ih =>
    intro tree source dir name parent s k hc hr hchange
    obtain ⟨inode, hroot⟩ := hc.present
    have hcan := hc.readable [] inode hroot
    have hr' : Ready setting.user (s.moved s.disk).disk tree source name dir parent := hr
    rw [copyPathInner, bind_ok (symlinkMetadata_ok h hr.readable (hr.top.trans hroot))]
    cases hbody : inode.body with
    | symlink target =>
      rw [if_pos (by simp [Inode.isSymlink, hbody])]
      exact comes_symlink h hc hr' hchange hroot hbody
    | directory names =>
      rw [if_neg (by simp [Inode.isSymlink, hbody]), if_pos (by simp [Inode.isDirectory, hbody])]
      obtain ⟨hread, hexecute⟩ : setting.user.may inode Access.read ∧ setting.user.may inode Access.execute := by
        rw [CanRead, hbody] at hcan
        exact hcan
      have hdirectory : inode.isDirectory := by simp [Inode.isDirectory, hbody]
      obtain ⟨t, hmade, ht, hkept⟩ := copyDirectory_made h version (copyPathInner setting version rounds total fuel)
        (saturating k) hr'.readable (hr'.top.trans hroot) hbody hread hr'.self_ne hr'.dir_ne hr'.reached hr'.parent hchange.1
        (hr'.free [])
      rw [hmade]
      refine Returns.mono (copyEntries_comes h hc hroot hbody hr.apart ih names (nil_append names)
        (hr.filling hroot hdirectory hexecute ht)) ?_ fun _ _ herror => herror
      rintro result u ⟨hresult, hdone, htop, hentries, more, hmore, hclimbs⟩
      refine ⟨hresult, hdone.finished hc.valid hroot hbody ht, filled_of_entries hc.valid hroot hbody htop hentries, more,
        hmore.trans (congrArg (· ++ more) hkept), ?_⟩
      grind [size_of_directory]
    | file content | special stream =>
      obtain ⟨hread, content, hstream⟩ := hcan.stream (by simp [Inode.isDirectory, hbody]) (by simp [Inode.isSymlink, hbody])
      rw [if_neg (by simp [Inode.isSymlink, hbody]), if_neg (by simp [Inode.isDirectory, hbody])]
      exact comes_file h hc hr' hchange hroot hread hstream

end TensorDE.Files.Transfer
