import TensorDE.Files.TransferTrees

namespace TensorDE.Files.Transfer

open Effect FileSystem List

theorem len_eq_saturating (inode : Inode) : inode.len = saturating inode.len := by
  have hle : inode.len ≤ 2 ^ 64 - 1 := by
    unfold Inode.len
    split <;> omega
  exact (Nat.min_eq_left hle).symm

variable {setting : Setting} {fuel rounds : Nat}

theorem pathSize_ok (h : setting.Calm) :
    ∀ {tree : Disk} {source : Location} {s : Machine}, Copyable setting.user fuel rounds tree →
      s.disk.under source = tree → Reached setting.user s.disk source →
      ∃ t, pathSize setting fuel source s = .ok (saturating (size fuel tree)) t ∧ t.disk = s.disk ∧ t.reports = s.reports := by
  induction fuel with
  | zero => grind +splitImp +splitIndPred
  | succ fuel ih =>
    intro tree source s hc htree hreached
    obtain ⟨inode, hroot⟩ := hc.present
    have hinode : s.disk source = some inode := by
      rw [← hroot, ← htree]
      rfl
    rw [pathSize, bind_ok (symlinkMetadata_ok h hreached hinode)]
    by_cases hdirectory : inode.isDirectory
    · obtain ⟨names, hbody⟩ : ∃ names, inode.body = .directory names := by
        grind [Inode.isDirectory]
      obtain ⟨hread, hexecute⟩ : setting.user.may inode Access.read ∧ setting.user.may inode Access.execute := by
        have hcan := hc.readable [] inode hroot
        rw [CanRead, hbody] at hcan
        exact hcan
      rw [if_pos hdirectory, bind_ok (readDir_ok (s := s.moved s.disk) h hreached hinode hread hbody),
        size_of_directory hroot hbody]
      -- the entries one after the other
      suffices hloop : ∀ (rest : List Name) (k : Nat) (t : Machine), (∀ entry ∈ rest, entry ∈ names) → t.disk = s.disk →
          ∃ u, (rest.foldlM (fun total name => do
              let bytes ← pathSize setting fuel (name :: source)
              pure (saturatingAdd total bytes)) (saturating k) : Task Nat) t =
            .ok (saturating (k + (rest.map fun entry => size fuel (tree.under [entry])).sum)) u ∧
            u.disk = s.disk ∧ u.reports = t.reports by
        obtain ⟨u, hu, hdisk, hreports⟩ := hloop names 0 ((s.moved s.disk).moved s.disk) (fun _ hentry => hentry) rfl
        rw [Nat.zero_add] at hu
        exact ⟨u, hu, hdisk, hreports⟩
      intro rest
      induction rest with
      | nil => exact fun k t _ ht => ⟨t, rfl, ht, rfl⟩
      | cons entry rest ihrest =>
        intro k t hrest ht
        obtain ⟨hentry, hrest⟩ := forall_mem_cons.mp hrest
        have hunder : t.disk.under (entry :: source) = tree.under [entry] := by rw [ht, ← htree, under_single]
        obtain ⟨u, hu, hdisk, hreports⟩ := ih (hc.entry hroot hbody hentry) hunder
          (ht ▸ reached_cons.mpr ⟨hreached, inode, hinode, hdirectory, hexecute⟩)
        obtain ⟨v, hv, hvdisk, hvreports⟩ := ihrest (k + size fuel (tree.under [entry])) u hrest (hdisk.trans ht)
        refine ⟨v, ?_, hvdisk, hvreports.trans hreports⟩
        have hsum : saturatingAdd (saturating k) (saturating (size fuel (tree.under [entry]))) =
            saturating (k + size fuel (tree.under [entry])) := by
          unfold saturatingAdd saturating
          omega
        rw [foldlM_cons, bind_assoc, bind_ok hu, pure_bind, hsum, hv, map_cons, sum_cons, Nat.add_assoc]
    · rw [if_neg hdirectory, size_of_leaf hroot (by simpa using hdirectory), ← len_eq_saturating]
      exact ⟨_, rfl, rfl, rfl⟩

variable {destination : Location} {preexisting : Bool} {copy : Task Nat}

theorem orDiscard_ok {s t : Machine}
    {done : Nat} (h : copy s = .ok done t) : orDiscard setting fuel destination preexisting copy s = .ok () t := by
  simp only [orDiscard, h]

theorem orDiscard_error {s t u : Machine} {e : Errno} (h : copy s = .error (.error e) t) :
    orDiscard setting fuel destination preexisting copy s ≠ .ok () u := by
  grind [orDiscard]

variable {source dir : Location} {name : Name} {parent : Inode} {s : Machine}

/-- A copy succeeds when every directory with entries can be filled, and only then. -/
theorem copyPathAs_comes (h : setting.Calm) (version : Version) {tree : Disk} (hc : Copyable setting.user fuel rounds tree)
    (hr : Ready setting.user s.disk tree source name dir parent) (hchange : setting.user.mayChange parent) :
    (∃ t more, copyPathAs setting version fuel rounds source (name :: dir) s = .ok () t ∧
        Grafted version setting.user name dir parent tree s.disk t.disk ∧ Filled setting.user tree ∧
        t.reports = s.reports ++ more ∧
        (Plain tree → Climbs (saturating (size fuel tree)) 0 more (saturating (size fuel tree)))) ∨
      (∀ t, copyPathAs setting version fuel rounds source (name :: dir) s ≠ .ok () t) ∧ ¬Filled setting.user tree := by
  have hfree : succeeds (symlinkMetadata setting (name :: dir)) s = .ok false (s.moved s.disk) := by
    have hlookup : lookup setting.user (name :: dir) s.disk = .error .notFound := by
      rw [lookup_of_reached hr.reached]
      exact find_of_none (hr.free [])
    simp only [succeeds, symlinkMetadata, ask_error h hlookup]
  obtain ⟨t, hsize, hdisk, hreports⟩ := pathSize_ok (s := s.moved s.disk) h hc hr.under hr.readable
  rw [copyPathAs, bind_ok (ensureNotCancelled_ok h), bind_ok hfree, bind_ok hsize]
  have hr' : Ready setting.user t.disk tree source name dir parent := hdisk ▸ hr
  have hcomes := copyPathInner_comes h version rounds (saturating (size fuel tree)) hc hr' hchange (k := 0)
  rcases hcomes.cases with ⟨done, u, hrun, -, hg, hfilled, more, hmore, hclimbs⟩ | ⟨e, u, hrun, hnot⟩
  · left
    rw [hdisk] at hg
    refine ⟨u, more, orDiscard_ok hrun, hg, hfilled, hmore.trans (congrArg (· ++ more) hreports), fun hplain => ?_⟩
    obtain ⟨hdone, hclimb⟩ := hclimbs 0 (size fuel tree) rfl hplain rfl (by omega)
    rw [Nat.zero_add] at hdone
    exact hdone ▸ hclimb
  · right
    exact ⟨fun v => orDiscard_error hrun, hnot⟩

/-- The same content, links and permissions; the names of a directory in any order. -/
def Alike (inode made : Inode) : Prop :=
  match inode.body, made.body with
  | .file content, .file copied => copied = content ∧ made.mode = inode.mode
  | .directory names, .directory copied => (∀ name, name ∈ copied ↔ name ∈ names) ∧ made.mode = inode.mode
  | .symlink target, .symlink copied => copied = target
  | .special _, .special _ => made.mode = inode.mode
  | _, _ => False

structure SameTree (tree copy : Disk) : Prop where
  item : ∀ inner inode, tree inner = some inode → ∃ made, copy inner = some made ∧ Alike inode made
  absent : ∀ inner, tree inner = none → copy inner = none

/-- A copy has succeeded and made the same tree, and its reports rise to the total. -/
def Exact (tree : Disk) (destination : Location) (total : Nat) (result : EStateM.Result (Fault Errno) Machine Unit) : Prop :=
  ∃ t, result = .ok () t ∧ SameTree tree (t.disk.under destination) ∧
    (t.reports.map TransferProgress.bytesDone).Pairwise (· ≤ ·) ∧ ∀ last ∈ t.reports.getLast?, last = ⟨total, total⟩

/-- What a tree must be like for its copy to be the same: the owner may change and search every directory that has entries,
nothing in it is a special file, the top keeps its set-group-id bit, and the asynchronous version finds no set-id bit on a
file with content. -/
structure Kept (version : Version) (user : User) (parent : Inode) (tree : Disk) : Prop where
  filled : Filled user tree
  plain : Plain tree
  group : ∀ inode, tree [] = some inode → inode.isSymlink = false → inode.mode.setgid → user.keepsGroup (user.gidIn parent)
  written : version = .async → ∀ inner inode content, tree inner = some inode → inode.body = .file content → content ≠ [] →
    user.privileged ∨ inode.mode.setuid = false ∧ (inode.mode.setgid → inode.mode.group.execute = false)

section Exact

variable {version : Version} {user : User} {tree copy : Disk} {parent : Inode}

variable {gid : Nat} {mode : Mode}

theorem granted_eq_self : user.granted gid mode = mode ↔ (mode.setgid → user.keepsGroup gid) := by
  obtain ⟨setuid, setgid, sticky, owner, group, other⟩ := mode
  grind -linarith [User.granted]

theorem afterWrite_eq_self :
    user.afterWrite mode = mode ↔ user.privileged ∨ mode.setuid = false ∧ (mode.setgid → mode.group.execute = false) := by
  obtain ⟨setuid, setgid, sticky, owner, ⟨read, write, execute⟩, other⟩ := mode
  unfold User.afterWrite
  cases user.privileged <;> cases setuid <;> cases setgid <;> cases execute <;> simp

/-- Neither setting a mode nor writing adds a bit. -/
theorem leaves_granted_eq {content : Bytes} : version.leaves user content (user.granted gid mode) = mode ↔
      (mode.setgid → user.keepsGroup gid) ∧ (version = .async → content ≠ [] → user.afterWrite mode = mode) := by
  have hsetgid : version.leaves user content (user.granted gid mode) = mode → mode.setgid → user.keepsGroup gid := by
    intro heq hset
    refine @User.keepsGroup_of_granted user gid mode ?_
    rw [← heq] at hset
    cases version with
    | blocking => exact hset
    | async => grind [Version.leaves, User.afterWrite]
  constructor
  · grind -linarith [granted_eq_self, Version.leaves]
  · rintro ⟨hkeeps, hwritten⟩
    rw [(granted_eq_self).mpr hkeeps]
    cases version with
    | blocking => rfl
    | async => grind -linarith [Version.leaves]

theorem alike_iff {inode made : Inode} (h : version.Image user inode made) :
    Alike inode made ↔ (∀ stream, inode.body ≠ .special stream) ∧
      (inode.isSymlink = false → inode.mode.setgid → user.keepsGroup made.gid) ∧
      (version = .async → ∀ content, inode.body = .file content → content ≠ [] → user.afterWrite inode.mode = inode.mode) := by
  grind -linarith [Version.Image, Alike, leaves_granted_eq, Inode.isSymlink, granted_eq_self]

/-- A copy is the same tree just when nothing of its permissions has been lost. -/
theorem Copied.sameTree_iff (h : Copied version user (user.gidIn parent) tree copy) (hfilled : Filled user tree) :
    SameTree tree copy ↔ Kept version user parent tree := by
  constructor
  · intro hsame
    have halike : ∀ {inner inode}, tree inner = some inode → ∃ made, version.Image user inode made ∧ Alike inode made ∧
        (inner = [] → made.gid = user.gidIn parent) := by
      intro inner inode hinode
      obtain ⟨made, hmade, himage, htop, -⟩ := h.item inner inode hinode
      obtain ⟨made', hmade', hlike⟩ := hsame.item inner inode hinode
      obtain rfl : made' = made := Option.some.inj (hmade'.symm.trans hmade)
      exact ⟨made', himage, hlike, htop⟩
    refine ⟨hfilled, fun inner inode stream hinode => ?_, fun inode hroot hlink hset => ?_, ?_⟩
    · obtain ⟨made, himage, hlike, -⟩ := halike hinode
      exact ((alike_iff himage).mp hlike).1 stream
    · grind -linarith [alike_iff]
    · intro hversion inner inode content hinode hbody hne
      obtain ⟨made, himage, hlike, -⟩ := halike hinode
      exact afterWrite_eq_self.mp (((alike_iff himage).mp hlike).2.2 hversion content hbody hne)
  · intro hkept
    refine ⟨fun inner inode hinode => ?_, h.absent⟩
    obtain ⟨made, hmade, himage, htop, hin⟩ := h.item inner inode hinode
    refine ⟨made, hmade, (alike_iff himage).mpr ⟨fun stream => hkept.plain inner inode stream hinode, fun hlink hset => ?_, ?_⟩⟩
    · grind -linarith [hkept.group]
    · intro hversion content hbody hne
      exact afterWrite_eq_self.mpr (hkept.written hversion inner inode content hinode hbody hne)

end Exact

/-- Copying is exact just for the trees whose permissions let it be. -/
theorem copyPathAs_exact_iff (h : setting.Calm) (version : Version) {fuel rounds calls : Nat} {disk : Disk} (hc : Copyable setting.user fuel rounds (disk.under source))
    (hr : Ready setting.user disk (disk.under source) source name dir parent) (hchange : setting.user.mayChange parent) :
    Exact (disk.under source) (name :: dir) (saturating (size fuel (disk.under source)))
        (copyPathAs setting version fuel rounds source (name :: dir) ⟨disk, calls, []⟩) ↔
      Kept version setting.user parent (disk.under source) := by
  rcases copyPathAs_comes (s := ⟨disk, calls, []⟩) h version hc hr hchange with
    ⟨t, more, hrun, hg, hfilled, hreports, hclimbs⟩ | ⟨hfails, hnot⟩
  · rw [← hg.copied.sameTree_iff hfilled]
    constructor
    · rintro ⟨u, hu, hsame, -⟩
      rw [hrun] at hu
      cases hu
      exact hsame
    · intro hsame
      have hclimb := hclimbs ((hg.copied.sameTree_iff hfilled).mp hsame).plain
      refine ⟨t, hrun, hsame, ?_, ?_⟩
      · rw [hreports]
        exact hclimb.pairwise
      · rw [hreports]
        exact hclimb.last
  · constructor
    · rintro ⟨u, hu, -⟩
      exact absurd hu (hfails u)
    · intro hkept
      exact absurd hkept.filled hnot

structure Readable (user : User) (disk : Disk) (source : Location) : Prop where
  reached : Reached user disk source
  present : ∃ inode, disk source = some inode
  items : ∀ inner inode, disk (inner ++ source) = some inode → CanRead user inode

structure Writable (user : User) (disk : Disk) (name : Name) (dir : Location) (parent : Inode) : Prop where
  reached : Reached user disk (name :: dir)
  directory : disk dir = some parent
  write : user.may parent Access.write
  free : disk (name :: dir) = none

/-- Both versions of the recursive copy, for a tree that the user can read and a free name outside of it. `fuel` and `rounds`
are more than the depth of the tree and the bytes of any of its files. -/
theorem copy_exact_iff {setting : Setting} (h : setting.Calm) {disk : Disk} (hv : disk.Valid) {source dir : Location}
    {name : Name} {parent : Inode} (hread : Readable setting.user disk source)
    (hwrite : Writable setting.user disk name dir parent) (hapart : ¬source <:+ name :: dir) {fuel rounds : Nat}
    (hfuel : ∀ inner inode, disk (inner ++ source) = some inode → inner.length < fuel)
    (hrounds : ∀ inner inode content, disk (inner ++ source) = some inode → inode.stream = some content →
      content.length < rounds) (calls : Nat) :
    (Exact (disk.under source) (name :: dir) (saturating (size fuel (disk.under source)))
        (copyPath setting fuel rounds source (name :: dir) ⟨disk, calls, []⟩) ↔
      Kept .blocking setting.user parent (disk.under source)) ∧
    (Exact (disk.under source) (name :: dir) (saturating (size fuel (disk.under source)))
        (copyPathAsync setting fuel rounds source (name :: dir) ⟨disk, calls, []⟩) ↔
      Kept .async setting.user parent (disk.under source)) := by
  have hc : Copyable setting.user fuel rounds (disk.under source) :=
    ⟨hv.under source, hread.present, hread.items, hfuel, hrounds⟩
  have hr : Ready setting.user disk (disk.under source) source name dir parent :=
    ⟨rfl, hread.reached, hwrite.reached, hwrite.directory, hv.below_free hwrite.free, hapart⟩
  have hchange : setting.user.mayChange parent := by
    obtain ⟨-, inode, hinode, -, hexecute⟩ := reached_cons.mp hwrite.reached
    obtain rfl : inode = parent := Option.some.inj (hinode.symm.trans hwrite.directory)
    exact ⟨hwrite.write, hexecute⟩
  exact ⟨copyPathAs_exact_iff h .blocking hc hr hchange, copyPathAs_exact_iff h .async hc hr hchange⟩

def ordinaryUser : User := ⟨1000, 1000, [], false⟩

def ordinarySetting : Setting := ⟨ordinaryUser, ⟨false, false, false, ⟨false, false, false⟩, ⟨false, true, false⟩, ⟨false, true, false⟩⟩,
  fun _ => none, fun _ => false, fun _ => 4096⟩

theorem ordinarySetting_calm : ordinarySetting.Calm := ⟨fun _ => rfl, fun _ => rfl⟩

def folderMode (write : Bool) : Mode :=
  ⟨false, false, false, ⟨true, write, true⟩, ⟨true, false, true⟩, ⟨true, false, true⟩⟩

/-- A folder `a` with a link `l` in it. -/
def folderDisk (write : Bool) : Disk := fun path =>
  if path = [] then some ⟨1000, 1000, folderMode true, .directory [[97]]⟩
  else if path = [[97]] then some ⟨1000, 1000, folderMode write, .directory [[108]]⟩
  else if path = [[108], [97]] then some ⟨1000, 1000, .all, .symlink [98]⟩
  else none

theorem folderDisk_cases {write : Bool} {path : Location} {inode : Inode} (h : folderDisk write path = some inode) :
    path = [] ∧ inode = ⟨1000, 1000, folderMode true, .directory [[97]]⟩ ∨
      path = [[97]] ∧ inode = ⟨1000, 1000, folderMode write, .directory [[108]]⟩ ∨
      path = [[108], [97]] ∧ inode = ⟨1000, 1000, .all, .symlink [98]⟩ := by
  grind [folderDisk]

variable (write : Bool)

theorem folderDisk_valid : (folderDisk write).Valid where
  listed := by
    intro name dir
    constructor
    · intro h
      obtain ⟨inode, hinode⟩ := Option.isSome_iff_exists.mp h
      rcases folderDisk_cases hinode with ⟨hpath, -⟩ | ⟨hpath, -⟩ | ⟨hpath, -⟩
      · cases hpath
      · cases hpath
        exact ⟨_, _, rfl, rfl, by simp⟩
      · cases hpath
        exact ⟨_, _, rfl, rfl, by simp⟩
    · rintro ⟨inode, names, hinode, hbody, hmem⟩
      rcases folderDisk_cases hinode with ⟨rfl, rfl⟩ | ⟨rfl, rfl⟩ | ⟨rfl, rfl⟩
      · cases hbody
        obtain rfl := mem_singleton.mp hmem
        rfl
      · cases hbody
        obtain rfl := mem_singleton.mp hmem
        rfl
      · cases hbody
  once := by
    intro dir inode names hinode hbody
    rcases folderDisk_cases hinode with ⟨-, rfl⟩ | ⟨-, rfl⟩ | ⟨-, rfl⟩ <;> cases hbody <;> exact nodup_singleton _

theorem folderDisk_readable : Readable ordinaryUser (folderDisk write) [[97]] where
  reached := reached_cons.mpr ⟨reached_nil, _, rfl, rfl, rfl⟩
  present := ⟨_, rfl⟩
  items := by
    intro inner inode hinode
    rcases folderDisk_cases hinode with ⟨-, rfl⟩ | ⟨-, rfl⟩ | ⟨-, rfl⟩
    · exact ⟨rfl, rfl⟩
    · cases write <;> exact ⟨rfl, rfl⟩
    · trivial

theorem folderDisk_writable :
    Writable ordinaryUser (folderDisk write) [98] [] ⟨1000, 1000, folderMode true, .directory [[97]]⟩ where
  reached := reached_cons.mpr ⟨reached_nil, _, rfl, rfl, rfl⟩
  directory := rfl
  write := rfl
  free := rfl

theorem copy_folder :
    Exact ((folderDisk true).under [[97]]) [[98]] 1 (copyPath ordinarySetting 3 1 [[97]] [[98]] ⟨folderDisk true, 0, []⟩) ∧
      Exact ((folderDisk true).under [[97]]) [[98]] 1
        (copyPathAsync ordinarySetting 3 1 [[97]] [[98]] ⟨folderDisk true, 0, []⟩) := by
  have hfuel : ∀ inner inode, folderDisk true (inner ++ [[97]]) = some inode → inner.length < 3 := by
    intro inner inode hinode
    rcases folderDisk_cases hinode with ⟨hpath, -⟩ | ⟨hpath, -⟩ | ⟨hpath, -⟩ <;>
    grind +splitImp +splitIndPred [length_cons]
  have hstream : ∀ inner inode content, folderDisk true (inner ++ [[97]]) = some inode → inode.stream = some content →
      content.length < 1 := by
    intro inner inode content hinode hcontent
    rcases folderDisk_cases hinode with ⟨-, rfl⟩ | ⟨-, rfl⟩ | ⟨-, rfl⟩ <;> cases hcontent
  have hkept : ∀ version, Kept version ordinaryUser ⟨1000, 1000, folderMode true, .directory [[97]]⟩
      ((folderDisk true).under [[97]]) := by
    intro version
    refine ⟨?_, ?_, ?_, ?_⟩
    · intro inner inode names hinode _ _
      rcases folderDisk_cases hinode with ⟨-, rfl⟩ | ⟨-, rfl⟩ | ⟨-, rfl⟩ <;> exact .inr ⟨rfl, rfl⟩
    · intro inner inode stream hinode
      rcases folderDisk_cases hinode with ⟨-, rfl⟩ | ⟨-, rfl⟩ | ⟨-, rfl⟩ <;> intro hbody <;> cases hbody
    · intro inode _ _ _
      rfl
    · intro _ inner inode content hinode hbody
      rcases folderDisk_cases hinode with ⟨-, rfl⟩ | ⟨-, rfl⟩ | ⟨-, rfl⟩ <;> cases hbody
  obtain ⟨hblocking, hasync⟩ := copy_exact_iff ordinarySetting_calm (folderDisk_valid true) (folderDisk_readable true)
    (folderDisk_writable true) (by decide) hfuel hstream 0
  exact ⟨hblocking.mpr (hkept .blocking), hasync.mpr (hkept .async)⟩

/-- A folder that the user can read but not write to cannot be copied. -/
theorem readOnly_folder_not_copied :
    ordinarySetting.Calm ∧ (folderDisk false).Valid ∧ Readable ordinaryUser (folderDisk false) [[97]] ∧
      Writable ordinaryUser (folderDisk false) [98] [] ⟨1000, 1000, folderMode true, .directory [[97]]⟩ ∧
      ¬Exact ((folderDisk false).under [[97]]) [[98]] 1
        (copyPath ordinarySetting 3 1 [[97]] [[98]] ⟨folderDisk false, 0, []⟩) := by
  refine ⟨ordinarySetting_calm, folderDisk_valid false, folderDisk_readable false, folderDisk_writable false, ?_⟩
  rintro ⟨t, ht, -⟩
  have hfails : (match copyPath ordinarySetting 3 1 [[97]] [[98]] ⟨folderDisk false, 0, []⟩ with
      | .ok _ _ => true
      | .error _ _ => false) = false := by decide +kernel
  rw [ht] at hfails
  cases hfails

end TensorDE.Files.Transfer
