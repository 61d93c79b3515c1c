import TensorDE.Lib.Trace
import TensorDE.Renderer.ColorTargetPool

set_option linter.dupNamespace false

namespace TensorDE.Renderer

open Effect Trace List

section Lists

variable {α : Type}

variable {values : List α} {index : Nat} {a : α}

theorem set_split (h : values[index]? = some a) :
    ∃ pre post, values = pre ++ a :: post ∧ ∀ b, values.set index b = pre ++ b :: post := by
  obtain ⟨hlt, rfl⟩ := List.getElem?_eq_some_iff.mp h
  refine ⟨values.take index, values.drop (index + 1), ?_, fun b => set_eq_take_cons_drop b hlt⟩
  simp

theorem swapRemove_perm (h : values[index]? = some a) : values.Perm (a :: swapRemove values index) := by
  obtain ⟨pre, post, rfl, hset⟩ := set_split h
  cases post using reverseRecOn with
  | nil => simp [swapRemove, hset]
  | append_singleton post last =>
    have hswap : swapRemove (pre ++ a :: (post ++ [last])) index = pre ++ last :: post := by
      have hlast : (pre ++ a :: (post ++ [last])).getLast? = some last := by
        rw [← cons_append, ← append_assoc, getLast?_concat]
      rw [swapRemove, hlast]
      simp only [hset]
      grind
    rw [hswap]
    refine perm_middle.trans (.cons a ?_)
    exact (@perm_append_comm _ post [last]).append_left pre

theorem filterMap_unique {β : Type} {f : α → Option β} {l : List α} {a a' : α} {b : β} (h : (l.filterMap f).Nodup)
    (ha : a ∈ l) (ha' : a' ∈ l) (hb : f a = some b) (hb' : f a' = some b) : a = a' := by
  induction l with
  | nil => cases ha
  | cons first l ih => grind

theorem subperm_replace {l pre post : List α} (b : α) (h : l.Subperm (pre ++ a :: post)) (ha : a ∉ l) :
    l.Subperm (pre ++ b :: post) := by
  obtain ⟨l', hperm, hsub⟩ := (perm_middle.subperm_left).mp h
  have hrest : l'.Sublist (pre ++ post) := by
    cases hsub with
    | cons _ hsub => exact hsub
    | cons_cons _ hsub => exact absurd (hperm.mem_iff.mp mem_cons_self) ha
  exact ⟨l', hperm, hrest.trans ((List.Sublist.refl pre).append (sublist_cons_self b post))⟩

end Lists

namespace RetainedPool

variable {T F : Type} {s t u : RetainedPool T F} {completed : Nat} (pool : RetainedPool T F)

def held : List Nat := pool.entries.filterMap PoolEntry.reservation

def allocated (entries : List (PoolEntry T F)) : Nat := (entries.map PoolEntry.allocationSize).sum

structure Sound (pool : RetainedPool T F) : Prop where
  bytes : pool.retainedBytes = allocated pool.entries
  limit : pool.retainedBytes ≤ pool.descriptor.maxRetainedBytes.toNat
  count : pool.entries.length ≤ pool.descriptor.maxTargets
  issued : ∀ id ∈ pool.held, id < pool.nextReservation
  distinct : pool.held.Nodup

/-- What acquisitions leave alone: the busy entries are all still there, and an entry without a
reservation has not been put there since. -/
structure Kept (completed : Nat) (s t : RetainedPool T F) : Prop where
  descriptor : t.descriptor = s.descriptor
  next : s.nextReservation ≤ t.nextReservation
  busy : (s.entries.filter fun entry => !entry.idle completed).Subperm t.entries
  spare : ∀ entry ∈ t.entries, entry.reservation = none → entry ∈ s.entries

theorem Kept.refl (completed : Nat) (s : RetainedPool T F) : Kept completed s s :=
  ⟨rfl, le_rfl, filter_sublist.subperm, fun _ h _ => h⟩

theorem Kept.trans (h : Kept completed s t) (h' : Kept completed t u) : Kept completed s u := by
  refine ⟨h'.descriptor.trans h.descriptor, h.next.trans h'.next, ?_, fun entry hmem hnone => ?_⟩
  · have hbusy := h.busy.filter (fun entry => !entry.idle completed)
    grind [filter_filter, hbusy.trans, h'.busy]
  grind [h.spare, h'.spare]

variable {entry : PoolEntry T F}

theorem idle_iff : entry.idle completed = true ↔ entry.reservation = none ∧ entry.retireTimeline ≤ completed := by
  simp [PoolEntry.idle]

variable {entries : List (PoolEntry T F)}

theorem oldestRetired_some {index found lastUsed : Nat}
    (h : oldestRetired completed index entries = some (found, lastUsed)) :
    index ≤ found ∧ ∃ entry, entries[found - index]? = some entry ∧ entry.idle completed := by
  induction entries generalizing index with
  | nil => cases h
  | cons entry rest ih => grind -linarith [oldestRetired]

/-- Idle entries have gone and nothing else has changed. -/
structure Evicted (completed : Nat) (s t : RetainedPool T F) : Prop where
  frame : t = { s with entries := t.entries, retainedBytes := t.retainedBytes }
  bytes : t.retainedBytes = allocated t.entries
  gone : ∃ gone, s.entries.Perm (gone ++ t.entries) ∧ ∀ entry ∈ gone, entry.idle completed

theorem Evicted.refl (h : s.retainedBytes = allocated s.entries) : Evicted completed s s :=
  ⟨rfl, h, [], by simp, by simp⟩

theorem Evicted.trans (h : Evicted completed s t) (h' : Evicted completed t u) : Evicted completed s u := by
  obtain ⟨gone, hperm, hidle⟩ := h.gone
  obtain ⟨gone', hperm', hidle'⟩ := h'.gone
  refine ⟨?_, h'.bytes, gone ++ gone', ?_, ?_⟩
  · grind [h'.frame, h.frame]
  · rw [append_assoc]
    exact hperm.trans (hperm'.append_left gone)
  grind

theorem held_eq_nil_of_idle {gone : List (PoolEntry T F)} (h : ∀ entry ∈ gone, entry.idle completed) :
    gone.filterMap PoolEntry.reservation = [] := by
  simp only [filterMap_eq_nil_iff]
  exact fun entry hmem => (idle_iff.mp (h entry hmem)).1

section

variable (h : Evicted completed s t)
include h

theorem Evicted.held_perm : s.held.Perm t.held := by
  obtain ⟨gone, hperm, hidle⟩ := h.gone
  have hmap := hperm.filterMap PoolEntry.reservation
  rwa [filterMap_append, held_eq_nil_of_idle hidle, nil_append] at hmap

theorem Evicted.kept : Kept completed s t := by
  obtain ⟨gone, hperm, hidle⟩ := h.gone
  refine ⟨by rw [h.frame], by rw [h.frame], ?_, fun entry hmem _ => hperm.mem_iff.mpr (by simp [hmem])⟩
  have hnone : gone.filter (fun entry => !entry.idle completed) = [] := by
    simpa using hidle
  have hfilter := hperm.filter fun entry => !entry.idle completed
  rw [filter_append, hnone, nil_append] at hfilter
  exact hfilter.subperm.trans filter_sublist.subperm

theorem Evicted.sound (hs : Sound s) : Sound t := by
  obtain ⟨gone, hperm, hidle⟩ := h.gone
  have hsum : allocated s.entries = allocated gone + allocated t.entries := by
    rw [allocated, (hperm.map _).sum_eq, map_append, sum_append]
    rfl
  have hlen := hperm.length_eq
  rw [length_append] at hlen
  have hlimit := hs.limit
  have hcount := hs.count
  rw [hs.bytes] at hlimit
  have hd : t.descriptor = s.descriptor := h.kept.descriptor
  refine ⟨h.bytes, ?_, ?_, ?_, ?_⟩
  · rw [h.bytes, hd]
    omega
  · rw [hd]
    omega
  · intro id hid
    exact lt_of_lt_of_le (hs.issued id (h.held_perm.mem_iff.mpr hid)) h.kept.next
  · exact h.held_perm.nodup_iff.mp hs.distinct

end

theorem evict_returns (completed allocationSize : Nat) {rounds : Nat} (h : s.retainedBytes = allocated s.entries)
    (hr : s.entries.length < rounds) :
    Returns (fun _ t => Evicted completed s t ∧ t.full allocationSize = false) (fun _ t => Evicted completed s t)
      (evict completed allocationSize rounds s) := by
  induction rounds generalizing s with
  | zero => omega
  | succ rounds ih =>
    simp only [evict, bind_run, get_run]
    by_cases hfull : s.full allocationSize
    · rw [if_pos hfull]
      cases hold : oldestRetired completed 0 s.entries with
      | none => exact Evicted.refl h
      | some found =>
        obtain ⟨index, lastUsed⟩ := found
        obtain ⟨_, removed, hget, hidle⟩ := oldestRetired_some hold
        rw [Nat.sub_zero] at hget
        have hperm := swapRemove_perm hget
        have hsum : allocated s.entries = removed.allocationSize + allocated (swapRemove s.entries index) := by
          rw [allocated, (hperm.map _).sum_eq]
          rfl
        have hlen := hperm.length_eq
        have hsub : checkedSub s.retainedBytes removed.allocationSize =
            some (allocated (swapRemove s.entries index)) := by
          rw [checkedSub, if_pos (by omega)]
          congr 1
          omega
        simp only [hget, expect_some, pure_run, hsub, bind_run]
        have hstep : Evicted completed s { s with
            entries := swapRemove s.entries index
            retainedBytes := allocated (swapRemove s.entries index) } :=
          ⟨rfl, rfl, [removed], hperm, by simpa using hidle⟩
        refine (ih rfl ?_).mono (fun _ t ht => ⟨hstep.trans ht.1, ht.2⟩) fun _ t ht => hstep.trans ht
        grind
    · rw [if_neg hfull]
      exact ⟨Evicted.refl h, by simpa using hfull⟩

def counted (useSerial nextReservation : Nat) : RetainedPool T F :=
  { pool with useSerial, nextReservation }

variable {useSerial nextReservation : Nat}

theorem Sound.counted (h : Sound s) (hn : s.nextReservation ≤ nextReservation) :
    Sound (s.counted useSerial nextReservation) :=
  ⟨h.bytes, h.limit, h.count, fun id hid => lt_of_lt_of_le (h.issued id hid) hn, h.distinct⟩

theorem kept_counted (completed : Nat) (hn : s.nextReservation ≤ nextReservation) :
    Kept completed s (s.counted useSerial nextReservation) :=
  ⟨rfl, hn, filter_sublist.subperm, fun _ h _ => h⟩

/-- Where a target handed out came from: an idle entry, or the allocator. -/
def Origin (completed : Nat) (s : RetainedPool T F) (create : Except Error (T × UInt64)) (target : T) : Prop :=
  (∃ entry ∈ s.entries, entry.idle completed ∧ entry.target = target) ∨ ∃ size, create = .ok (target, size)

/-- A target and its reservation as `t` records them after a call that began in `s`. -/
structure Handed (completed : Nat) (s t : RetainedPool T F) (create : Except Error (T × UInt64)) (target : T)
    (reservation : RetainedColorTargetReservation) : Prop where
  fresh : reservation.id ∉ s.held
  entry : ∃ entry ∈ t.entries, entry.reservation = some reservation.id ∧ entry.target = target
  origin : Origin completed s create target

/-- What a successful acquisition leaves. -/
structure Acquired (completed : Nat) (s t : RetainedPool T F) (create : Except Error (T × UInt64)) (target : T)
    (reservation : RetainedColorTargetReservation) : Prop where
  sound : Sound t
  kept : Kept completed s t
  held : t.held.Perm (reservation.id :: s.held)
  later : s.nextReservation ≤ reservation.id
  handed : Handed completed s t create target reservation

structure Refused (completed : Nat) (s t : RetainedPool T F) : Prop where
  sound : Sound t
  kept : Kept completed s t
  held : t.held.Perm s.held

theorem Refused.counted (h : Sound s) (hn : s.nextReservation ≤ nextReservation) :
    Refused completed s (s.counted useSerial nextReservation) :=
  ⟨h.counted hn, kept_counted completed hn, .refl _⟩

theorem Sound.fresh (h : Sound s) : s.nextReservation ∉ s.held := fun hid => lt_irrefl _ (h.issued _ hid)

variable {create : Except Error (T × UInt64)}

theorem acquired_reuse (h : Sound s) {pre post : List (PoolEntry T F)} (hs : s.entries = pre ++ entry :: post)
    (hidle : entry.idle completed) :
    Acquired completed s { (s.counted useSerial (s.nextReservation + 1)) with
      entries := pre ++ { entry with reservation := some s.nextReservation, lastUsed := useSerial } :: post }
      create entry.target ⟨s.nextReservation, completed⟩ := by
  have hnone := (idle_iff.mp hidle).1
  have hheld : s.held = pre.filterMap PoolEntry.reservation ++ post.filterMap PoolEntry.reservation := by
    simp [RetainedPool.held, hs, hnone]
  have hperm : (pre.filterMap PoolEntry.reservation ++ s.nextReservation :: post.filterMap PoolEntry.reservation).Perm
      (s.nextReservation :: s.held) := by
    rw [hheld]
    exact perm_middle
  have hnow : (pre ++ { entry with reservation := some s.nextReservation, lastUsed := useSerial } :: post).filterMap
      PoolEntry.reservation =
      pre.filterMap PoolEntry.reservation ++ s.nextReservation :: post.filterMap PoolEntry.reservation := by
    simp
  refine ⟨⟨?_, h.limit, ?_, ?_, ?_⟩, ⟨rfl, Nat.le_succ _, ?_, ?_⟩, ?_, le_rfl, ?_⟩
  · grind [h.bytes, allocated, counted]
  · grind [h.count, counted]
  · intro id hid
    simp only [RetainedPool.held, hnow] at hid
    obtain rfl | hid := mem_cons.mp (hperm.mem_iff.mp hid)
    · exact Nat.lt_succ_self _
    · exact Nat.lt_succ_of_lt (h.issued id hid)
  · grind [RetainedPool.held, h.fresh, h.distinct]
  · rw [hs]
    simp only [filter_append, filter_cons, hidle]
    exact (filter_sublist.append (filter_sublist.trans (sublist_cons_self _ _))).subperm
  · grind
  · grind [RetainedPool.held]
  · refine ⟨h.fresh, ⟨{ entry with reservation := some s.nextReservation, lastUsed := useSerial }, ?_, rfl, rfl⟩,
      .inl ⟨entry, by simp [hs], hidle, rfl⟩⟩
    exact mem_append_right _ mem_cons_self

theorem full_eq_false {size : Nat} (h : s.full size = false) : s.entries.length < s.descriptor.maxTargets ∧
    checkedAdd s.retainedBytes size = some (s.retainedBytes + size) ∧
    s.retainedBytes + size ≤ s.descriptor.maxRetainedBytes.toNat := by
  grind [full, checkedAdd]

theorem acquired_create (h : Sound s) (entry : PoolEntry T F)
    (size : UInt64) (hc : create = .ok (entry.target, size)) (hr : entry.reservation = some s.nextReservation)
    (he : Evicted completed (s.counted useSerial (s.nextReservation + 1)) t)
    (hroom : t.full entry.allocationSize = false) :
    Acquired completed s { t with
      entries := t.entries ++ [entry]
      retainedBytes := t.retainedBytes + entry.allocationSize } create entry.target ⟨s.nextReservation, completed⟩ := by
  have hsound := he.sound (h.counted (Nat.le_succ _))
  have hkept := (kept_counted completed (Nat.le_succ s.nextReservation)).trans he.kept
  have hheld : t.held.Perm s.held := he.held_perm.symm
  have hnext : t.nextReservation = s.nextReservation + 1 := by rw [he.frame, counted]
  obtain ⟨hcount, _, hlimit⟩ := full_eq_false hroom
  have hnow : (t.entries ++ [entry]).filterMap PoolEntry.reservation = t.held ++ [s.nextReservation] := by
    simp [RetainedPool.held, hr]
  have hperm : ((t.entries ++ [entry]).filterMap PoolEntry.reservation).Perm (s.nextReservation :: s.held) := by
    rw [hnow]
    exact (hheld.append_right _).trans perm_append_comm
  refine ⟨⟨?_, hlimit, ?_, ?_, ?_⟩, ⟨hkept.descriptor, hkept.next, ?_, ?_⟩, hperm, le_rfl, ?_⟩
  · simp [allocated, hsound.bytes]
  · rw [length_append]
    exact hcount
  · intro id hid
    simp only [hnext]
    obtain rfl | hid := mem_cons.mp (hperm.mem_iff.mp hid)
    · exact Nat.lt_succ_self _
    · exact Nat.lt_succ_of_lt (h.issued id hid)
  · exact hperm.nodup_iff.mpr (nodup_cons.mpr ⟨h.fresh, h.distinct⟩)
  · exact hkept.busy.trans (sublist_append_left _ _).subperm
  · grind [hkept.spare]
  · exact ⟨h.fresh, ⟨entry, mem_append_right _ (mem_singleton_self _), hr, rfl⟩, .inr ⟨size, hc⟩⟩

theorem validate_returns (request : RetainedColorTargetRequest F) (descriptor : RetainedColorTargetPoolDescriptor)
    (s : RetainedPool T F) :
    Returns (fun _ t => t = s) (fun _ t => t = s) ((request.validate descriptor : Op _ _ _) s) := by
  unfold RetainedColorTargetRequest.validate
  split
  · rfl
  split
  · rfl
  · rfl

theorem acquireWith_returns [DecidableEq F] (h : Sound s) (request : RetainedColorTargetRequest F)
    (completedTimeline : UInt64) (create : Except Error (T × UInt64)) :
    Returns (fun handed t => Acquired completedTimeline.toNat s t create handed.1 handed.2)
      (fun _ t => Refused completedTimeline.toNat s t) (acquireWith request completedTimeline create s) := by
  generalize hserial : min (s.useSerial + 1) (2 ^ 64 - 1) = serial
  have hfirst : Refused completedTimeline.toNat s (s.counted serial s.nextReservation) := Refused.counted h le_rfl
  have hcounted : Refused completedTimeline.toNat s (s.counted serial (s.nextReservation + 1)) :=
    Refused.counted h (Nat.le_succ _)
  simp only [acquireWith, bind_run, get_run]
  obtain ⟨_, t, hv, ht⟩ | ⟨e, t, hv, ht⟩ := (validate_returns request s.descriptor s).cases
  rotate_left
  · rw [hv, ht]
    exact Refused.counted h le_rfl
  simp only [hv, set_run, hserial]
  cases hnext : checkedAdd s.nextReservation 1 with
  | none => exact hfirst
  | some next =>
    obtain rfl : next = s.nextReservation + 1 := by
      simp only [checkedAdd, Option.ite_none_right_eq_some, Option.some.injEq] at hnext
      exact hnext.2.symm
    simp only [okOr_some, pure_run]
    cases hfind : s.entries.findIdx? fun entry =>
        entry.key = TargetKey.ofRequest request && entry.idle completedTimeline.toNat with
    | some index =>
      obtain ⟨hlt, hfound, _⟩ := findIdx?_eq_some_iff_getElem.mp hfind
      obtain ⟨pre, post, hs, hset⟩ := set_split (getElem?_eq_getElem hlt)
      simp only [getElem?_eq_getElem hlt, hset]
      exact acquired_reuse h hs (by simpa using (Bool.and_eq_true_iff.mp hfound).2)
    | none =>
      split
      · exact hcounted
      cases create with
      | error e => exact hcounted
      | ok created =>
        obtain ⟨target, size⟩ := created
        simp only [bind_run, pure_run]
        split
        · exact hcounted
        obtain ⟨_, u, hu, hevicted, hroom⟩ | ⟨e, u, hu, hevicted⟩ :=
          (evict_returns (s := s.counted serial (s.nextReservation + 1)) completedTimeline.toNat
            size.toNat h.bytes (Nat.lt_succ_self _)).cases
        · have hadd := (full_eq_false hroom).2.1
          simp only [counted] at hu
          simp only [bind_run, hu, get_run, hadd]
          exact acquired_create h ⟨TargetKey.ofRequest request, target, size.toNat, completedTimeline.toNat,
            some s.nextReservation, serial⟩ size rfl rfl hevicted hroom
        · simp only [counted] at hu
          simp only [bind_run, hu]
          exact ⟨hevicted.sound (h.counted (Nat.le_succ _)), hcounted.kept.trans hevicted.kept, hevicted.held_perm.symm⟩

structure Freed (update : PoolEntry T F → PoolEntry T F) (id : Nat) (s t : RetainedPool T F) : Prop where
  frame : t = { s with entries := t.entries }
  entry : ∃ pre entry post, s.entries = pre ++ entry :: post ∧ entry.reservation = some id ∧
    t.entries = pre ++ update entry :: post

def Frees (update : PoolEntry T F → PoolEntry T F) : Prop :=
  ∀ entry, (update entry).reservation = none ∧ (update entry).allocationSize = entry.allocationSize

section Freed

variable {update : PoolEntry T F → PoolEntry T F} {id : Nat}

theorem Freed.held_perm (hu : Frees update) (h : Freed update id s t) : s.held.Perm (id :: t.held) := by
  obtain ⟨pre, entry, post, hs, hr, ht⟩ := h.entry
  simp only [held, hs, ht, filterMap_append, filterMap_cons, hr, (hu entry).1]
  exact perm_middle

theorem Freed.sound (hu : Frees update) (h : Freed update id s t) (hs : Sound s) : Sound t := by
  have hperm := h.held_perm hu
  obtain ⟨pre, entry, post, hse, _, hte⟩ := h.entry
  have hd : t.descriptor = s.descriptor := by rw [h.frame]
  have hb : t.retainedBytes = s.retainedBytes := by rw [h.frame]
  have hn : t.nextReservation = s.nextReservation := by rw [h.frame]
  refine ⟨?_, ?_, ?_, ?_, ?_⟩
  · rw [hb, hs.bytes, hse, hte]
    simp [allocated, (hu entry).2]
  · rw [hb, hd]
    exact hs.limit
  · grind [hs.count]
  · intro i hi
    rw [hn]
    exact hs.issued i (hperm.mem_iff.mpr (mem_cons_of_mem _ hi))
  grind [hs.distinct]

theorem Freed.busy {pool : RetainedPool T F} (h : Freed update id s t) (hid : id ∉ pool.held)
    (hb : (pool.entries.filter fun entry => !entry.idle completed).Subperm s.entries) :
    (pool.entries.filter fun entry => !entry.idle completed).Subperm t.entries := by
  grind [h.entry, subperm_replace, held]

theorem updateReserved_run (update : PoolEntry T F → PoolEntry T F) {reservation : RetainedColorTargetReservation}
    (h : reservation.id ∈ s.held) :
    ∃ t, updateReserved reservation update s = .ok () t ∧ Freed update reservation.id s t := by
  obtain ⟨entry, hmem, hr⟩ := mem_filterMap.mp h
  cases hfind : s.entries.findIdx? fun entry => entry.reservation = some reservation.id with
  | none => grind
  | some index =>
    obtain ⟨hlt, hfound, _⟩ := findIdx?_eq_some_iff_getElem.mp hfind
    obtain ⟨pre, post, hs, hset⟩ := set_split (getElem?_eq_getElem hlt)
    refine ⟨{ s with entries := pre ++ update s.entries[index] :: post }, ?_, rfl, pre, _, post, hs, by simpa using hfound, rfl⟩
    simp [updateReserved, hfind, getElem?_eq_getElem hlt, hset]

end Freed

section Tokens

variable {reservations seen : List RetainedColorTargetReservation} {update : PoolEntry T F → PoolEntry T F}

/-- What giving back a list of reservations leaves. -/
structure FreedAll (ids : List Nat) (s t : RetainedPool T F) : Prop where
  sound : Sound t
  descriptor : t.descriptor = s.descriptor
  held : s.held.Perm (ids ++ t.held)
  busy : ∀ (pool : RetainedPool T F) (completed : Nat), (∀ id ∈ ids, id ∉ pool.held) →
    (pool.entries.filter fun entry => !entry.idle completed).Subperm s.entries →
      (pool.entries.filter fun entry => !entry.idle completed).Subperm t.entries

theorem FreedAll.append {ids ids' : List Nat} (h : FreedAll ids s t) (h' : FreedAll ids' t u) :
    FreedAll (ids ++ ids') s u := by
  refine ⟨h'.sound, h'.descriptor.trans h.descriptor, ?_, fun pool completed hids hb => ?_⟩
  · rw [append_assoc]
    exact h.held.trans (h'.held.append_left ids)
  · simp only [mem_append] at hids
    exact h'.busy pool completed (fun id hid => hids id (.inr hid))
      (h.busy pool completed (fun id hid => hids id (.inl hid)) hb)

variable {id : Nat}

theorem Freed.all (hu : Frees update) (h : Freed update id s t) (hs : Sound s) : FreedAll [id] s t := by
  refine ⟨h.sound hu hs, by rw [h.frame], h.held_perm hu, fun pool completed hids hb => ?_⟩
  exact h.busy (hids id (mem_singleton_self id)) hb

theorem FreedAll.mem_held {ids : List Nat} (h : FreedAll ids s t) (hid : id ∈ s.held) (hne : id ∉ ids) : id ∈ t.held :=
  (mem_append.mp (h.held.mem_iff.mp hid)).resolve_left hne

theorem updateEach_run (update : PoolEntry T F → PoolEntry T F) (hu : Frees update) (h : Sound s)
    (hn : (reservations.map (·.id)).Nodup) (hh : ∀ r ∈ reservations, r.id ∈ s.held) :
    ∃ t, updateEach update reservations s = .ok () t ∧ FreedAll (reservations.map (·.id)) s t := by
  induction reservations generalizing s with
  | nil => exact ⟨s, rfl, h, rfl, .refl _, fun _ _ _ hb => hb⟩
  | cons reservation rest ih =>
    simp only [map_cons, nodup_cons, mem_map, not_exists, not_and] at hn
    simp only [mem_cons, forall_eq_or_imp] at hh
    obtain ⟨t, ht, hfreed⟩ := updateReserved_run update hh.1
    have hone := hfreed.all hu h
    have hrest : ∀ r ∈ rest, r.id ∈ t.held := fun r hr => hone.mem_held (hh.2 r hr) (by simpa using hn.1 r hr)
    obtain ⟨u, hu', hall⟩ := ih hone.sound hn.2 hrest
    refine ⟨u, ?_, hone.append hall⟩
    simp only [updateEach, bind_run, ht, hu']

theorem validateReservations_returns (hs : (seen.map (·.id)).Nodup) :
    Returns (fun _ t => t = s ∧ ((seen ++ reservations).map (·.id)).Nodup ∧ ∀ r ∈ reservations, r.id ∈ s.held)
      (fun _ t => t = s) (validateReservations seen reservations s) := by
  induction reservations generalizing seen with
  | nil =>
    unfold validateReservations
    split
    · rfl
    · exact ⟨rfl, by simpa using hs, by simp⟩
  | cons reservation rest ih =>
    simp only [validateReservations, bind_run, get_run]
    split
    · rfl
    split
    · rfl
    rename_i hdup hstale
    have hnext : ((seen ++ [reservation]).map (·.id)).Nodup := by
      simp only [any_eq_true, decide_eq_true_eq, not_exists, not_and] at hdup
      simp only [map_append, map_cons, map_nil, nodup_append, mem_map]
      refine ⟨hs, by simp, ?_⟩
      rintro _ ⟨r, hr, rfl⟩ _ hid
      rw [mem_singleton.mp hid]
      exact hdup r hr
    have hlive : reservation.id ∈ s.held := by
      simp only [Bool.not_eq_true', any_eq_false, decide_eq_true_eq, not_forall, not_not] at hstale
      obtain ⟨entry, hmem, hr⟩ := hstale
      exact mem_filterMap.mpr ⟨entry, hmem, hr⟩
    grind

theorem checkRetirement_returns (retireTimeline : UInt64) :
    Returns (fun _ t => t = s) (fun _ t => t = s) (checkRetirement retireTimeline reservations s) := by
  induction reservations with
  | nil => rfl
  | cons reservation rest ih =>
    unfold checkRetirement
    split
    · rfl
    · exact ih

theorem releaseBatch_returns (h : Sound s) (reservations : List RetainedColorTargetReservation) :
    Returns (fun _ t => FreedAll (reservations.map (·.id)) s t) (fun _ t => t = s) (releaseBatch reservations s) := by
  refine Returns.bind (validateReservations_returns (by simp)) ?_
  rintro _ _ ⟨rfl, hnodup, hmem⟩
  obtain ⟨t, ht, hall⟩ := updateEach_run (fun entry => { entry with reservation := none })
    (fun _ => ⟨rfl, rfl⟩) h (by simpa using hnodup) hmem
  rw [ht]
  exact hall

theorem retireBatch_returns (h : Sound s) (reservations : List RetainedColorTargetReservation) (retireTimeline : UInt64) :
    Returns (fun _ t => FreedAll (reservations.map (·.id)) s t) (fun _ t => t = s)
      (retireBatch reservations retireTimeline s) := by
  refine Returns.bind (validateReservations_returns (by simp)) ?_
  rintro _ _ ⟨rfl, hnodup, hmem⟩
  refine Returns.bind (checkRetirement_returns retireTimeline) ?_
  rintro _ _ rfl
  obtain ⟨t, ht, hall⟩ := updateEach_run
    (fun entry => { entry with retireTimeline := retireTimeline.toNat, reservation := none })
    (fun _ => ⟨rfl, rfl⟩) h (by simpa using hnodup) hmem
  rw [ht]
  exact hall

theorem release_run (h : Sound s) {reservation : RetainedColorTargetReservation} (hh : reservation.id ∈ s.held) :
    ∃ t, release reservation s = .ok () t ∧ FreedAll [reservation.id] s t := by
  obtain ⟨entry, hmem, hr⟩ := mem_filterMap.mp hh
  have hlive : ¬ ∀ entry ∈ s.entries, ¬ entry.reservation = some reservation.id := fun h => h entry hmem hr
  obtain ⟨t, ht, hall⟩ := updateEach_run
    (fun entry => { entry with reservation := none }) (fun _ => ⟨rfl, rfl⟩) h (by simp) (forall_mem_singleton.mpr hh)
  refine ⟨t, ?_, hall⟩
  simp [release, releaseBatch, validateReservations, hlive, ht]

theorem rollback_run (h : Sound s) (hn : (reservations.map (·.id)).Nodup) (hh : ∀ r ∈ reservations, r.id ∈ s.held) :
    ∃ t, rollback reservations s = .ok () t ∧ FreedAll (reservations.map (·.id)) s t := by
  induction reservations generalizing s with
  | nil => exact ⟨s, rfl, h, rfl, .refl _, fun _ _ _ hb => hb⟩
  | cons reservation rest ih =>
    simp only [map_cons, nodup_cons, mem_map, not_exists, not_and] at hn
    simp only [mem_cons, forall_eq_or_imp] at hh
    obtain ⟨t, ht, hone⟩ := release_run h hh.1
    have hrest : ∀ r ∈ rest, r.id ∈ t.held := fun r hr => hone.mem_held (hh.2 r hr) (by simpa using hn.1 r hr)
    obtain ⟨u, hu, hall⟩ := ih hone.sound hn.2 hrest
    refine ⟨u, ?_, hone.append hall⟩
    simp only [rollback, ht, hu]

end Tokens

section Batch

variable {completedTimeline : UInt64}
  {create : Nat → RetainedColorTargetRequest F → Except Error (T × UInt64)}
  {requests done rest : List (RetainedColorTargetRequest F)} {acquired : List RetainedColorTargetReservation}

/-- A batch under way: it began in `s`, and `acquired` are the reservations made for the requests `done`. -/
structure Batch (completed : Nat) (create : Nat → RetainedColorTargetRequest F → Except Error (T × UInt64))
    (s t : RetainedPool T F) (done : List (RetainedColorTargetRequest F))
    (acquired : List RetainedColorTargetReservation) : Prop where
  sound : Sound t
  kept : Kept completed s t
  held : t.held.Perm (acquired.map (·.id) ++ s.held)
  length : acquired.length = done.length
  handed : ∀ index reservation, acquired[index]? = some reservation → ∃ request target,
    done[index]? = some request ∧ Handed completed s t (create index request) target reservation

variable {reservation : RetainedColorTargetReservation}

theorem Kept.handed {made : Except Error (T × UInt64)} {target : T} (h : Kept completed t u)
    (hh : Handed completed s t made target reservation) : Handed completed s u made target reservation := by
  obtain ⟨entry, hmem, hr, htarget⟩ := hh.entry
  refine ⟨hh.fresh, ⟨entry, h.busy.subset (mem_filter.mpr ⟨hmem, ?_⟩), hr, htarget⟩, hh.origin⟩
  simp [PoolEntry.idle, hr]

theorem Batch.snoc {completed : Nat} {request : RetainedColorTargetRequest F} {target : T}
    {reservation : RetainedColorTargetReservation} (h : Batch completed create s t done acquired)
    (ha : Acquired completed t u (create done.length request) target reservation) :
    Batch completed create s u (done ++ [request]) (acquired ++ [reservation]) := by
  have hsub : ∀ id ∈ s.held, id ∈ t.held := fun id hid => h.held.mem_iff.mpr (mem_append_right _ hid)
  refine ⟨ha.sound, h.kept.trans ha.kept, ?_, by simp [h.length], ?_⟩
  · refine ha.held.trans ((h.held.cons _).trans ?_)
    simpa using perm_middle.symm
  · intro index r hr
    obtain hlt | heq | hgt := Nat.lt_trichotomy index acquired.length
    · rw [getElem?_append_left hlt] at hr
      obtain ⟨req, tgt, hreq, hh⟩ := h.handed index r hr
      exact ⟨req, tgt, by grind, ha.kept.handed hh⟩
    · subst heq
      obtain rfl : reservation = r := by simpa using hr
      refine ⟨request, target, by simp [h.length], ?_, ha.handed.entry, ?_⟩
      · exact fun hid => ha.handed.fresh (hsub _ hid)
      · rw [h.length]
        obtain ⟨entry, hmem, hidle, htarget⟩ | hmade := ha.handed.origin
        · exact .inl ⟨entry, h.kept.spare entry hmem (idle_iff.mp hidle).1, hidle, htarget⟩
        · exact .inr hmade
    grind

/-- What a failed batch leaves: the old reservations, held by the old entries. -/
structure RolledBack (completed : Nat) (s t : RetainedPool T F) : Prop where
  sound : Sound t
  busy : (s.entries.filter fun entry => !entry.idle completed).Subperm t.entries
  held : t.held.Perm s.held

theorem acquireEach_returns [DecidableEq F] (rest : List (RetainedColorTargetRequest F))
    (hb : Batch completedTimeline.toNat create s t done acquired) :
    Returns (fun reservations u => Batch completedTimeline.toNat create s u (done ++ rest) reservations)
      (fun _ u => RolledBack completedTimeline.toNat s u) (acquireEach completedTimeline create acquired rest t) := by
  induction rest generalizing t done acquired with
  | nil => simpa [acquireEach, Returns] using hb
  | cons request rest ih =>
    rw [acquireEach]
    obtain ⟨⟨target, reservation⟩, u, hu, ha⟩ | ⟨e, u, hu, hr⟩ :=
      (acquireWith_returns hb.sound request completedTimeline (create acquired.length request)).cases
    · rw [hb.length] at ha
      simpa [hu] using ih (hb.snoc ha)
    · simp only [hu]
      have hheld : u.held.Perm (acquired.map (·.id) ++ s.held) := hr.held.trans hb.held
      have hnodup := nodup_append.mp (hheld.nodup_iff.mp hr.sound.distinct)
      have hlive : ∀ r ∈ acquired, r.id ∈ u.held := fun r hr' =>
        hheld.mem_iff.mpr (mem_append_left _ (mem_map_of_mem hr'))
      obtain ⟨v, hv, hall⟩ := rollback_run hr.sound hnodup.1 hlive
      simp only [bind_run, hv]
      refine ⟨hall.sound, ?_, ?_⟩
      · exact hall.busy s _ (fun id hid hs => hnodup.2.2 id hid id hs rfl) (hb.kept.trans hr.kept).busy
      · exact (perm_append_left_iff _).mp (hall.held.symm.trans hheld)

theorem Sound.entry_unique (h : Sound s) {id : Nat} {entry entry' : PoolEntry T F} (he : entry ∈ s.entries)
    (he' : entry' ∈ s.entries) (hr : entry.reservation = some id) (hr' : entry'.reservation = some id) :
    entry = entry' := filterMap_unique h.distinct he he' hr hr'

theorem reservedTarget_run (h : Sound s) {entry : PoolEntry T F}
    (hmem : entry ∈ s.entries) (hr : entry.reservation = some reservation.id) :
    reservedTarget reservation s = .ok (entry.target, reservation) s := by
  cases hfind : s.entries.find? fun entry => entry.reservation = some reservation.id with
  | none => grind
  | some found =>
    have hfound : found.reservation = some reservation.id := by simpa using find?_some hfind
    obtain rfl := h.entry_unique hmem (mem_of_find?_eq_some hfind) hr hfound
    simp [reservedTarget, hfind]

theorem lookups_run (h : Sound s) {reservations : List RetainedColorTargetReservation}
    (hlive : ∀ r ∈ reservations, ∃ entry ∈ s.entries, entry.reservation = some r.id) :
    ∃ handed, reservations.mapM reservedTarget s = .ok handed s ∧ handed.map Prod.snd = reservations ∧
      ∀ p ∈ handed, ∃ entry ∈ s.entries, entry.reservation = some p.2.id ∧ entry.target = p.1 := by
  induction reservations with
  | nil => exact ⟨[], rfl, rfl, by simp⟩
  | cons reservation rest ih =>
    simp only [mem_cons, forall_eq_or_imp] at hlive
    obtain ⟨⟨entry, hmem, hr⟩, hrest⟩ := hlive
    obtain ⟨handed, hrun, hsnd, hall⟩ := ih hrest
    refine ⟨(entry.target, reservation) :: handed, ?_, by simp [hsnd], ?_⟩
    · simp [reservedTarget_run h hmem hr, hrun]
    grind

/-- What a batch that succeeds leaves, with a target for each of its positions. -/
structure BatchAcquired (completed : Nat) (create : Nat → RetainedColorTargetRequest F → Except Error (T × UInt64))
    (s t : RetainedPool T F) (requests : List (RetainedColorTargetRequest F))
    (handed : List (T × RetainedColorTargetReservation)) : Prop where
  sound : Sound t
  busy : (s.entries.filter fun entry => !entry.idle completed).Subperm t.entries
  held : t.held.Perm (handed.map (·.2.id) ++ s.held)
  handed : ∀ index target reservation, handed[index]? = some (target, reservation) → ∃ request,
    requests[index]? = some request ∧ Handed completed s t (create index request) target reservation

theorem acquireBatchWith_returns [DecidableEq F] (h : Sound s) (requests : List (RetainedColorTargetRequest F))
    (completedTimeline : UInt64) (create : Nat → RetainedColorTargetRequest F → Except Error (T × UInt64)) :
    Returns (fun handed t => BatchAcquired completedTimeline.toNat create s t requests handed)
      (fun _ t => RolledBack completedTimeline.toNat s t) (acquireBatchWith requests completedTimeline create s) := by
  have hstart : Batch completedTimeline.toNat create s s [] [] := ⟨h, .refl _ _, .refl _, rfl, by simp⟩
  unfold acquireBatchWith
  split
  · exact ⟨h, (Kept.refl _ s).busy, .refl _⟩
  refine Returns.bind (acquireEach_returns requests hstart) fun reservations t hb => ?_
  have hlive : ∀ r ∈ reservations, ∃ entry ∈ t.entries, entry.reservation = some r.id := by
    intro r hr
    obtain ⟨index, hindex⟩ := mem_iff_getElem?.mp hr
    obtain ⟨_, _, _, hh⟩ := hb.handed index r hindex
    obtain ⟨entry, hmem, hr, _⟩ := hh.entry
    exact ⟨entry, hmem, hr⟩
  obtain ⟨handed, hrun, hsnd, hall⟩ := lookups_run hb.sound hlive
  rw [hrun]
  refine ⟨hb.sound, hb.kept.busy, ?_, fun index target reservation hindex => ?_⟩
  · have hheld := hb.held
    rw [← hsnd, map_map] at hheld
    exact hheld
  · have hres : reservations[index]? = some reservation := by simp [← hsnd, hindex]
    obtain ⟨request, target', hreq, hh⟩ := hb.handed index reservation hres
    obtain ⟨entry, hmem, hr, htarget⟩ := hall _ (mem_of_getElem? hindex)
    grind [hh.entry, hb.sound.entry_unique]

end Batch

theorem retainBusy_run (completed : Nat) {retainedBytes : Nat} (extra : Nat)
    (s : RetainedPool T F) (h : retainedBytes = allocated entries + extra) :
    retainBusy completed entries retainedBytes s = .ok (entries.filter (fun entry => !entry.idle completed),
        allocated (entries.filter fun entry => !entry.idle completed) + extra) s := by
  induction entries generalizing retainedBytes extra with
  | nil => simp [retainBusy, h]
  | cons entry entries ih =>
    rw [retainBusy]
    by_cases hidle : entry.idle completed
    · have hsub : checkedSub retainedBytes entry.allocationSize = some (allocated entries + extra) := by
        simp only [allocated, map_cons, sum_cons] at h ⊢
        rw [checkedSub, if_pos (by omega)]
        congr 1
        omega
      simp only [hidle, if_true, hsub, expect_some, bind_run, pure_run, ih _ rfl, filter_cons, Bool.not_true,
        Bool.false_eq_true, if_false]
    · have hrest : retainedBytes = allocated entries + (entry.allocationSize + extra) := by
        simp only [allocated, map_cons, sum_cons] at h ⊢
        omega
      grind [bind_run, pure_run, allocated]

theorem trim_returns (h : Sound s) (completedTimeline : UInt64) :
    Returns (fun _ t => Evicted completedTimeline.toNat s t) (fun _ _ => False) (trim completedTimeline s) := by
  have hrun := retainBusy_run completedTimeline.toNat 0 s h.bytes
  simp only [trim, bind_run, get_run, hrun]
  refine ⟨rfl, rfl, s.entries.filter (PoolEntry.idle completedTimeline.toNat), ?_, by simp⟩
  exact (filter_append_perm _ _).symm

/-- The calls and what they answered. A single token is a batch of one. -/
inductive Event (T F : Type) where
  | acquire (request : RetainedColorTargetRequest F) (completedTimeline : UInt64) (create : Except Error (T × UInt64))
      (result : Except Error (T × RetainedColorTargetReservation))
  | acquireBatch (requests : List (RetainedColorTargetRequest F)) (completedTimeline : UInt64)
      (create : Nat → RetainedColorTargetRequest F → Except Error (T × UInt64))
      (result : Except Error (List (T × RetainedColorTargetReservation)))
  | retire (reservations : List RetainedColorTargetReservation) (retireTimeline : UInt64) (result : Except Error Unit)
  | release (reservations : List RetainedColorTargetReservation) (result : Except Error Unit)
  | trim (completedTimeline : UInt64) (removed : Nat)

/-- A call that came back, as a result and the state it left. -/
inductive Answers {α : Type} (x : Op (RetainedPool T F) Error α) (s : RetainedPool T F) :
    Except Error α → RetainedPool T F → Prop where
  | ok {a t} : x s = .ok a t → Answers x s (.ok a) t
  | error {e t} : x s = .error (.error e) t → Answers x s (.error e) t

/-- The tokens are any at all: stale, duplicated, or of another pool. -/
def Step [DecidableEq F] (s : RetainedPool T F) (event : Event T F) (t : RetainedPool T F) : Prop :=
  match event with
  | .acquire request completed create result => Answers (acquireWith request completed create) s result t
  | .acquireBatch requests completed create result => Answers (acquireBatchWith requests completed create) s result t
  | .retire reservations timeline result => Answers (retireBatch reservations timeline) s result t
  | .release reservations result => Answers (releaseBatch reservations) s result t
  | .trim completed removed => RetainedPool.trim completed s = .ok removed t

structure Bounded (pool : RetainedPool T F) : Prop where
  bytes : pool.retainedBytes = (pool.entries.map PoolEntry.allocationSize).sum
  byteLimit : pool.retainedBytes ≤ pool.descriptor.maxRetainedBytes.toNat
  count : pool.entries.length ≤ pool.descriptor.maxTargets
  reservations : pool.held.Nodup

/-- No entry that is reserved or retired later than `completed` has been touched. -/
def Undisturbed (completed : UInt64) (s t : RetainedPool T F) : Prop :=
  (s.entries.filter fun entry => !entry.idle completed.toNat).Subperm t.entries

/-- What a single call owes. -/
def Event.Honest (s t : RetainedPool T F) : Event T F → Prop
  | .acquire _ completed create (.ok (target, reservation)) => Undisturbed completed s t ∧
      Handed completed.toNat s t create target reservation
  | .acquire _ completed _ (.error _) => Undisturbed completed s t ∧ t.held.Perm s.held
  | .acquireBatch requests completed create (.ok handed) => Undisturbed completed s t ∧
      ∀ index target reservation, handed[index]? = some (target, reservation) → ∃ request,
        requests[index]? = some request ∧ Handed completed.toNat s t (create index request) target reservation
  | .acquireBatch _ completed _ (.error _) => Undisturbed completed s t ∧ t.held.Perm s.held
  | .retire _ _ (.error _) => t = s
  | .release _ (.error _) => t = s
  | .trim completed _ => Undisturbed completed s t
  | _ => True

section Runs

variable {event : Event T F} {events : List (Event T F)}

theorem Step.honest [DecidableEq F] (h : Sound s) (hs : Step s event t) : Sound t ∧ event.Honest s t := by
  cases event with
  | acquire request completed create result =>
    have hr := acquireWith_returns h request completed create
    cases hs with
    | ok hx =>
      have ha := hr.of_ok hx
      exact ⟨ha.sound, ha.kept.busy, ha.handed⟩
    | error hx =>
      have ha := hr.of_error hx
      exact ⟨ha.sound, ha.kept.busy, ha.held⟩
  | acquireBatch requests completed create result =>
    have hr := acquireBatchWith_returns h requests completed create
    cases hs with
    | ok hx =>
      have ha := hr.of_ok hx
      exact ⟨ha.sound, ha.busy, ha.handed⟩
    | error hx =>
      have ha := hr.of_error hx
      exact ⟨ha.sound, ha.busy, ha.held⟩
  | retire reservations timeline result =>
    have hr := retireBatch_returns h reservations timeline
    cases hs with
    | ok hx => exact ⟨(hr.of_ok hx).sound, trivial⟩
    | error hx =>
      obtain rfl := hr.of_error hx
      exact ⟨h, rfl⟩
  | release reservations result =>
    have hr := releaseBatch_returns h reservations
    cases hs with
    | ok hx => exact ⟨(hr.of_ok hx).sound, trivial⟩
    | error hx =>
      obtain rfl := hr.of_error hx
      exact ⟨h, rfl⟩
  | trim completed removed =>
    have he := (trim_returns h completed).of_ok hs
    exact ⟨he.sound h, he.kept.busy⟩

theorem new_sound {descriptor : RetainedColorTargetPoolDescriptor} (h : new descriptor () = .ok s ()) : Sound s := by
  obtain ⟨_, _, _, hs⟩ := bind_eq_ok.mp h
  cases hs
  exact ⟨rfl, Nat.zero_le _, Nat.zero_le _, by simp [held], nodup_nil⟩

/-- In every run the pool keeps its accounts and limits, and each call is honest. -/
theorem pool_runs [DecidableEq F] {descriptor : RetainedColorTargetPoolDescriptor} {pool : RetainedPool T F}
    (hnew : new descriptor () = .ok pool ()) (hrun : Run Step pool events s) :
    Bounded s ∧ ∀ event t, Step s event t → event.Honest s t := by
  have hsound : Sound s := hrun.invariant (Q := fun _ => True) (fun _ _ _ h _ hs => (Step.honest h hs).1)
    (new_sound hnew) (by simp)
  exact ⟨⟨hsound.bytes, hsound.limit, hsound.count, hsound.distinct⟩, fun event t hs => (Step.honest hsound hs).2⟩

def smallPool : RetainedPool Nat Unit := ⟨⟨2, 300, ⟨512, 512⟩⟩, [], 0, 0, 1⟩

def smallRequest (width : UInt32) : RetainedColorTargetRequest Unit := ⟨⟨width, 64⟩, (), 8⟩

def reservedPool : RetainedPool Nat Unit :=
  ⟨⟨2, 300, ⟨512, 512⟩⟩, [⟨⟨⟨32, 64⟩, (), 8⟩, 10, 100, 0, some 1, 1⟩], 100, 1, 2⟩

theorem pool_runs_smallPool : ∃ e t,
    Run Step smallPool [.acquire (smallRequest 32) 0 (.ok (10, 100)) (.ok (10, ⟨1, 0⟩))] reservedPool ∧
    Bounded reservedPool ∧ Step reservedPool (.retire [⟨1, 0⟩, ⟨1, 0⟩] 4 (.error e)) t ∧ t = reservedPool ∧
    Step reservedPool (.trim 9 0) reservedPool ∧ Undisturbed 9 reservedPool reservedPool := by
  have hnew : new ⟨2, 300, ⟨512, 512⟩⟩ () = .ok smallPool () := rfl
  have hrun : Run Step smallPool [.acquire (smallRequest 32) 0 (.ok (10, 100)) (.ok (10, ⟨1, 0⟩))] reservedPool :=
    .cons (.ok rfl) (.nil reservedPool)
  have htwice : Step reservedPool (.retire [⟨1, 0⟩, ⟨1, 0⟩] 4 (.error _)) reservedPool := .error rfl
  have htrim : Step reservedPool (.trim 9 0) reservedPool := by
    change RetainedPool.trim 9 reservedPool = .ok 0 reservedPool
    rfl
  obtain ⟨hbounded, hhonest⟩ := pool_runs hnew hrun
  exact ⟨_, _, hrun, hbounded, htwice, hhonest _ _ htwice, htrim, hhonest _ _ htrim⟩

end Runs

end RetainedPool

end TensorDE.Renderer
