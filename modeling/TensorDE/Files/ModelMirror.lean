import TensorDE.Files.ModelStable

namespace TensorDE.Files

open Patch Sorting List

namespace ItemRange

variable (ranges : List ItemRange)

def covers (p : Nat) : Bool := ranges.any fun r => decide (r.start ≤ p ∧ p < r.start + r.len)

def inside (len : Nat) (ranges : List ItemRange) : Bool := ranges.all fun r => decide (r.start + r.len ≤ len)

def total : Nat := (ranges.map (·.len)).sum

variable {ranges : List ItemRange} {len p i : Nat}

theorem covers_iff : covers ranges p ↔ ∃ r ∈ ranges, r.start ≤ p ∧ p < r.start + r.len := by simp [covers]

theorem covers_append (ranges ranges' : List ItemRange) (p : Nat) :
    covers (ranges ++ ranges') p = (covers ranges p || covers ranges' p) := any_append

theorem inside_iff : inside len ranges ↔ ∀ r ∈ ranges, r.start + r.len ≤ len := by simp [inside]

def Proper (ranges : List ItemRange) : Prop := ∀ r ∈ ranges, 0 < r.len

theorem Proper.inside (h : Proper ranges) (hc : ∀ p, covers ranges p → p < len) : inside len ranges := by
  refine (inside_iff).mpr fun r hr => ?_
  have hpos := h r hr
  have hlast := hc (r.start + r.len - 1) (covers_iff.mpr ⟨r, hr, by omega, by omega⟩)
  omega

section Push

theorem getLast?_split {last : ItemRange} (h : ranges.getLast? = some last) : ranges = ranges.dropLast ++ [last] := by
  obtain ⟨front, rfl⟩ := getLast?_eq_some_iff.mp h
  rw [dropLast_concat]

theorem covers_pushIndex (ranges : List ItemRange) (i p : Nat) :
    covers (pushIndex ranges i) p = (covers ranges p || decide (p = i)) := by
  unfold pushIndex
  cases hlast : ranges.getLast? with
  | none => grind [covers]
  | some last =>
    simp only
    split
    · conv_rhs => rw [getLast?_split hlast]
      grind [covers]
    grind [covers]

theorem Proper.pushIndex (h : Proper ranges) (i : Nat) : Proper (pushIndex ranges i) := by
  grind [Files.pushIndex, mem_of_mem_dropLast, Proper]

variable (indexes : List Nat)

theorem foldl_pushIndex (h : Proper ranges) : Proper (indexes.foldl Files.pushIndex ranges) ∧
      ∀ p, covers (indexes.foldl Files.pushIndex ranges) p = (covers ranges p || decide (p ∈ indexes)) := by
  induction indexes generalizing ranges with
  | nil => exact ⟨h, fun p => by simp⟩
  | cons i indexes ih => grind [h.pushIndex, covers_pushIndex]

theorem covers_rangesFromIndexes (p : Nat) : covers (rangesFromIndexes indexes) p = decide (p ∈ indexes) := by
  have hall := (foldl_pushIndex (sortBy compare indexes).dedup (fun r hr => absurd hr not_mem_nil)).2 p
  rw [rangesFromIndexes, hall]
  simp [covers, mem_sortBy]

theorem inside_rangesFromIndexes {indexes : List Nat} (h : ∀ i ∈ indexes, i < len) :
    inside len (rangesFromIndexes indexes) := by
  have hproper := (foldl_pushIndex (sortBy compare indexes).dedup (fun r hr => absurd hr not_mem_nil)).1
  grind -linarith [Proper.inside, rangesFromIndexes, covers_rangesFromIndexes]

end Push

section Merge

theorem recordReverseInsertedRange_spec (ranges : List ItemRange) (i : Nat) :
    (∀ p, covers (recordReverseInsertedRange ranges i) p = (covers ranges p || decide (p = i))) ∧
      total (recordReverseInsertedRange ranges i) = total ranges + 1 ∧
      (Proper ranges → Proper (recordReverseInsertedRange ranges i)) ∧
      ((∀ r ∈ ranges, i ≤ r.start) → ∀ r ∈ recordReverseInsertedRange ranges i, i ≤ r.start) := by
  have hone : ∀ p, covers [⟨i, 1⟩] p = decide (p = i) := fun p => by
    grind [covers]
  unfold recordReverseInsertedRange
  cases hlast : ranges.getLast? with
  | none =>
    obtain rfl := getLast?_eq_none_iff.mp hlast
    grind [total, Proper, covers]
  | some last =>
    simp only
    split
    · rename_i hnext
      have hsplit := getLast?_split hlast
      refine ⟨fun p => ?_, ?_, fun h => ?_, fun h => ?_⟩
      · grind [covers]
      · grind [total]
      · intro r hr
        obtain hr | hr := mem_append.mp hr
        · exact h r (mem_of_mem_dropLast hr)
        · obtain rfl := mem_singleton.mp hr
          exact Nat.succ_pos _
      grind
    grind [covers_append, total, Proper]

structure Inserts (old : List ModelEntry) (count : Nat) (r : List ModelEntry × List ItemRange) : Prop where
  rest : dropFrom (covers r.2) 0 r.1 = old
  total : total r.2 = count
  inside : inside r.1.length r.2

theorem not_covers_of_lt (h : ∀ r ∈ ranges, i ≤ r.start) (hp : p < i) : covers ranges p = false := by
  grind [covers]

theorem inserts_reverse {existing done : List ModelEntry} (hs : ∀ r ∈ ranges, existing.length ≤ r.start)
    (hp : Proper ranges) (hc : ∀ p, covers ranges p → p < existing.length + done.length) :
    Inserts (existing.reverse ++ dropFrom (covers ranges) existing.length done) (total ranges)
      (existing.reverse ++ done, ranges.reverse) := by
  have hcovers : covers ranges.reverse = covers ranges := by
    funext p
    exact any_reverse
  refine ⟨?_, ?_, ?_⟩
  · grind -linarith [dropFrom_append, dropFrom_none, not_covers_of_lt]
  · simp only [ItemRange.total, map_reverse, sum_reverse]
  · refine Proper.inside (fun r hr => hp r (mem_reverse.mp hr)) fun p hcover => ?_
    rw [hcovers] at hcover
    simpa using hc p hcover

variable {sort : SortDescriptor}

theorem mergeLoop_nil (rounds : Nat) (n : ModelEntry) (new done : List ModelEntry)
    (ranges : List ItemRange) : mergeLoop sort (rounds + 1) [] (n :: new) done ranges =
      mergeLoop sort rounds [] new (n :: done) (recordReverseInsertedRange ranges new.length) := rfl

theorem mergeLoop_inserts {rounds : Nat} {existing new done : List ModelEntry}
    (hr : existing.length + new.length ≤ rounds) (hs : ∀ r ∈ ranges, existing.length + new.length ≤ r.start)
    (hp : Proper ranges) (hc : ∀ p, covers ranges p → p < existing.length + new.length + done.length) :
    Inserts (existing.reverse ++ dropFrom (covers ranges) (existing.length + new.length) done)
      (total ranges + new.length) (mergeLoop sort rounds existing new done ranges) := by
  induction rounds generalizing existing new done ranges with
  | zero =>
    obtain ⟨rfl, rfl⟩ : existing = [] ∧ new = [] := by
      simpa using hr
    exact inserts_reverse hs hp hc
  | succ rounds ih =>
    cases new with
    | nil => exact inserts_reverse hs hp hc
    | cons n new =>
      have hn : (n :: new).length = new.length + 1 := rfl
      obtain ⟨hcovers, htotal, hproper, hstarts⟩ := recordReverseInsertedRange_spec ranges
        (existing.length + new.length)
      -- The slot of a new item is one of the ranges, so that dropping them leaves it out.
      have hstep : Inserts (existing.reverse ++ dropFrom
          (covers (recordReverseInsertedRange ranges (existing.length + new.length)))
          (existing.length + new.length) (n :: done))
          (total (recordReverseInsertedRange ranges (existing.length + new.length)) + new.length)
          (mergeLoop sort rounds existing new (n :: done)
            (recordReverseInsertedRange ranges (existing.length + new.length))) := ih (by omega)
        (hstarts fun r hr => Nat.le_trans (by omega) (hs r hr)) (hproper hp) fun p hcover => by
          grind -linarith
      have hdrop : dropFrom (covers (recordReverseInsertedRange ranges (existing.length + new.length)))
          (existing.length + new.length) (n :: done) =
            dropFrom (covers ranges) (existing.length + (n :: new).length) done := by
        rw [dropFrom, if_pos (by rw [hcovers]; simp)]
        refine dropFrom_congr fun p hle _ => ?_
        grind -linarith
      rw [hdrop, htotal] at hstep
      replace hstep := (show total ranges + 1 + new.length = total ranges + (n :: new).length by omega) ▸ hstep
      cases existing with
      | nil =>
        rw [mergeLoop_nil]
        simpa using hstep
      | cons e rest =>
        have he : (e :: rest).length = rest.length + 1 := rfl
        rw [DirectoryModel.mergeLoop_cons]
        split
        · have hkeep : Inserts (rest.reverse ++ dropFrom (covers ranges) (rest.length + (n :: new).length) (e :: done))
              (total ranges + (n :: new).length) (mergeLoop sort rounds rest (n :: new) (e :: done) ranges) :=
            ih (by omega) (fun r hr => Nat.le_trans (by omega) (hs r hr)) hp fun p hcover => by
              grind -linarith
          have hfree : covers ranges (rest.length + (n :: new).length) = false :=
            not_covers_of_lt hs (by omega)
          rw [dropFrom, hfree] at hkeep
          have hnext : rest.length + (n :: new).length + 1 = (e :: rest).length + (n :: new).length := by omega
          rw [hnext] at hkeep
          simpa using hkeep
        · exact hstep

end Merge

end ItemRange

namespace DirectoryModel

open ItemRange

/-- What a list that shows the entries does with one signal. It reads from the entries that the model has by then, and
fails at a range outside of the list the range is about. -/
def mirror (entries shown : List ModelEntry) : DirectoryModelSignal → Option (List ModelEntry)
  | .itemsRemoved ranges => if inside shown.length ranges then some (dropFrom (covers ranges) 0 shown) else none
  | .itemsInserted ranges =>
    if inside (shown.length + total ranges) ranges ∧ inside entries.length ranges then
      some (weaveFrom entries (covers ranges) 0 (shown.length + total ranges) shown)
    else none
  | .itemsChanged ranges _ =>
    if inside shown.length ranges ∧ inside entries.length ranges then
      some (rereadFrom entries (covers ranges) 0 shown)
    else none
  | .itemsMoved _ => some shown
  | .groupsChanged => some shown
  | .sortChanged => some entries
  | .modelReset => some entries

def mirrorAll (entries : List ModelEntry) (signals : List DirectoryModelSignal) (shown : List ModelEntry) :
    Option (List ModelEntry) :=
  signals.foldlM (mirror entries) shown

/-- The signals of an operation tell a list that shows the entries all it has to know. -/
def Faithful (shown : List ModelEntry) (r : List DirectoryModelSignal × DirectoryModel) : Prop :=
  mirrorAll r.2.entries r.1 shown = some r.2.entries

theorem mirrorAll_append (entries : List ModelEntry) (signals signals' : List DirectoryModelSignal)
    (shown : List ModelEntry) : mirrorAll entries (signals ++ signals') shown =
      (mirrorAll entries signals shown).bind (mirrorAll entries signals') :=
  foldlM_append

theorem mirrorAll_reset (entries shown : List ModelEntry) : mirrorAll entries [.modelReset] shown = some entries := rfl

variable {entries shown : List ModelEntry} {ranges : List ItemRange}

theorem mirrorAll_changed (roles : ChangedRoles)
    (hlen : shown.length = entries.length) (hin : inside entries.length ranges)
    (h : ∀ i, covers ranges i = false → shown[i]? = entries[i]?) :
    mirrorAll entries [.itemsChanged ranges roles] shown = some entries := by
  grind -linarith [mirror, reread_eq, mirrorAll]

theorem mirrorAll_inserted {count : Nat}
    (h : Inserts shown count (entries, ranges)) (hlen : entries.length = shown.length + count) :
    mirrorAll entries [.itemsInserted ranges] shown = some entries := by
  grind +splitImp +splitIndPred [mirror, weave_drop, mirrorAll]

theorem mirrorAll_removed {indexes : List Nat} (hlt : ∀ i ∈ indexes, i < shown.length) :
    mirrorAll entries [.itemsRemoved (rangesFromIndexes indexes)] shown = some (removeIndexes shown indexes) := by
  grind [removeIndexes, dropFrom_zipIdx, covers_rangesFromIndexes, mirror, inside_rangesFromIndexes, mirrorAll]

/-- Whether a range is outside of a list is a matter of lengths. -/
theorem mirrorAll_length {entries entries' shown shown' out : List ModelEntry} {signals : List DirectoryModelSignal}
    (h : mirrorAll entries signals shown = some out) (he : entries.length = entries'.length)
    (hs : shown.length = shown'.length) : ∃ out', mirrorAll entries' signals shown' = some out' := by
  induction signals generalizing shown shown' with
  | nil => exact ⟨shown', rfl⟩
  | cons signal signals ih =>
    have hstep : ∀ next, mirror entries shown signal = some next →
        ∃ next', mirror entries' shown' signal = some next' ∧ next.length = next'.length := by
      intro next hnext
      cases signal with
      | itemsRemoved ranges => grind [mirror, length_dropFrom_congr]
      | itemsInserted ranges => grind [mirror, length_weaveFrom_congr]
      | itemsChanged ranges roles => grind [mirror, length_rereadFrom]
      | itemsMoved moves => exact ⟨shown', rfl, Option.some.inj hnext ▸ hs⟩
      | groupsChanged => exact ⟨shown', rfl, Option.some.inj hnext ▸ hs⟩
      | sortChanged => exact ⟨entries', rfl, Option.some.inj hnext ▸ he⟩
      | modelReset => exact ⟨entries', rfl, Option.some.inj hnext ▸ he⟩
    obtain ⟨next, hnext, hrest⟩ := Option.bind_eq_some_iff.mp h
    grind [mirrorAll]

end DirectoryModel

end TensorDE.Files
