import TensorDE.Lib.Patch
import TensorDE.Lib.Sorting

namespace TensorDE.BackMerge

open Patch Sorting Std List

variable {α R : Type}

/-- The slots of a buffer. A slot is none while it is not initialised: nothing was written to it yet, or what it
held was moved out. -/
abbrev Slots (α : Type) := List (Option α)

variable (slots : Slots α)

/-- A shared reference to what a slot holds. -/
def peek (i : Nat) : Option α := slots[i]?.join

/-- `ptr::read`: what a slot holds moves out. -/
def read (i : Nat) : Option (α × Slots α) := (peek slots i).map fun a => (a, slots.set i none)

/-- `ptr::write` does not drop what a slot holds, so the slot must hold nothing. -/
def write (i : Nat) (a : α) : Option (Slots α) :=
  match slots[i]? with
  | some none => some (slots.set i (some a))
  | _ => none

/-- `set_len`: the vector takes the slots for items, so each must hold one. -/
def publish : Slots α → Option (List α)
  | [] => some []
  | slot :: slots => do
    let a ← slot
    let rest ← publish slots
    some (a :: rest)

/-- The loop of a merge that works backwards inside one buffer. It is none where it touches a slot that holds
nothing, or overwrites one that holds something. -/
structure Merge (α R : Type) where
  entries : Slots α
  added : Slots α
  target : Nat
  existing : Nat
  new : Nat
  record : R

namespace Merge

variable (cmp : α → α → Ordering) (note : R → Nat → R) (m : Merge α R)

def takeExisting : Option Bool :=
  if 0 < m.existing then do
    let a ← peek m.added (m.new - 1)
    let e ← peek m.entries (m.existing - 1)
    some (cmp a e = .lt)
  else some false

def round : Option (Merge α R) := do
  let take ← m.takeExisting cmp
  match m.target with
  | 0 => none
  | target + 1 =>
    if take then
      let (e, entries) ← read m.entries (m.existing - 1)
      let entries ← write entries target e
      some { m with entries, target, existing := m.existing - 1 }
    else
      let (a, added) ← read m.added (m.new - 1)
      let entries ← write m.entries target a
      some { m with entries, added, target, new := m.new - 1, record := note m.record target }

def loop : Nat → Merge α R → Option (Merge α R)
  | 0, m => if m.new = 0 then some m else none
  | rounds + 1, m => if m.new = 0 then some m else (m.round cmp note).bind (loop rounds)

end Merge

/-- Merge the added items into the buffer of the existing ones. What is left of the other buffer is given up, so
every item of it must have moved out. -/
def mergeInPlace (cmp : α → α → Ordering) (note : R → Nat → R) (record : R) (entries added : List α) :
    Option (List α × R) := do
  let total := entries.length + added.length
  let m ← Merge.loop cmp note total ⟨entries.map some ++ List.replicate added.length none, added.map some, total,
    entries.length, added.length, record⟩
  let merged ← publish m.entries
  if m.added.all Option.isNone then some (merged, m.record) else none

/-- The merge on lists. Both are reversed, `done` holds what is written so far, and what is written next goes to the
position `existing.length + new.length`. -/
def walk (cmp : α → α → Ordering) (note : R → Nat → R) : Nat → List α → List α → List α → R → List α × R
  | rounds + 1, existing, n :: new, done, record =>
    match existing with
    | e :: rest =>
      if cmp n e = .lt then walk cmp note rounds rest (n :: new) (e :: done) record
      else walk cmp note rounds (e :: rest) new (n :: done) (note record (rest.length + 1 + new.length))
    | [] => walk cmp note rounds [] new (n :: done) (note record new.length)
  | _, existing, _, done, record => (existing.reverse ++ done, record)

variable {cmp : α → α → Ordering} {note : R → Nat → R}

section Buffer

@[simp] theorem peek_append (front back : Slots α) (slot : Option α) :
    peek (front ++ slot :: back) front.length = slot := by
  simp [peek]

theorem read_append (front back : Slots α) (a : α) :
    read (front ++ some a :: back) front.length = some (a, front ++ none :: back) := by
  simp [read]

theorem write_append (front back : Slots α) (a : α) :
    write (front ++ none :: back) front.length a = some (front ++ some a :: back) := by
  simp [write]

@[simp] theorem publish_map (xs : List α) : publish (xs.map some) = some xs := by
  induction xs with
  | nil => rfl
  | cons a xs ih =>
    rw [map_cons, publish, ih]
    rfl

/-- The buffers in the middle of the loop: the room between what is left and what is done is as wide as the number
of items still to come from the other buffer. -/
def shape (existing new done : List α) (moved : Nat) (record : R) : Merge α R where
  entries := existing.reverse.map some ++ List.replicate new.length none ++ done.map some
  added := new.reverse.map some ++ List.replicate moved none
  target := existing.length + new.length
  existing := existing.length
  new := new.length
  record := record

variable {existing new done : List α} {moved : Nat} {record : R}

theorem shape_writes (a n : α) :
    write (shape existing (n :: new) done moved record).entries (existing.length + new.length) a =
      some (shape existing new (a :: done) moved record).entries := by
  have hslots : (shape existing (n :: new) done moved record).entries =
      (existing.reverse.map some ++ replicate new.length none) ++ none :: done.map some := by
    simp [shape, replicate_succ']
  have hlen : existing.length + new.length =
      (existing.reverse.map some ++ replicate new.length (none : Option α)).length := by
    simp
  rw [hslots, hlen, write_append]
  simp [shape]

theorem takeExisting_shape (e n : α) :
    (shape (e :: existing) (n :: new) done moved record).takeExisting cmp = some (decide (cmp n e = .lt)) := by
  have hpeek : peek (shape (e :: existing) (n :: new) done moved record).added new.length = some n := by
    simpa [shape] using peek_append (new.reverse.map some) (replicate moved none) (some n)
  have hentry : peek (shape (e :: existing) (n :: new) done moved record).entries existing.length = some e := by
    simpa [shape] using peek_append (existing.reverse.map some)
      (replicate (n :: new).length none ++ done.map some) (some e)
  change ((peek _ new.length).bind fun a => (peek _ existing.length).bind fun e => some (decide (cmp a e = .lt))) = _
  rw [hpeek, hentry]
  rfl

theorem round_existing {e n : α} (hlt : cmp n e = .lt) :
    (shape (e :: existing) (n :: new) done moved record).round cmp note =
      some (shape existing (n :: new) (e :: done) moved record) := by
  have hslots : (shape (e :: existing) (n :: new) done moved record).entries = existing.reverse.map some ++
      some e :: (replicate (n :: new).length none ++ done.map some) := by
    simp [shape]
  have hlen : existing.length = (existing.reverse.map some).length := by simp
  have hread : read (shape (e :: existing) (n :: new) done moved record).entries existing.length =
      some (e, (shape existing (n :: n :: new) done moved record).entries) := by
    rw [hslots, hlen, read_append]
    simp [shape, replicate_succ]
  have hwrite : write (shape existing (n :: n :: new) done moved record).entries
      (existing.length + (n :: new).length) e = some (shape existing (n :: new) (e :: done) moved record).entries :=
    shape_writes e n
  have htarget : (shape (e :: existing) (n :: new) done moved record).target =
      existing.length + (n :: new).length + 1 := by
    simp only [shape, length_cons]
    omega
  rw [Merge.round, takeExisting_shape, hlt]
  simp only [htarget]
  change (read _ existing.length).bind _ = _
  rw [hread]
  simp only [Option.bind_some, hwrite]
  rfl

theorem round_new {n : α} (htake : (shape existing (n :: new) done moved record).takeExisting cmp = some false) :
    (shape existing (n :: new) done moved record).round cmp note =
      some (shape existing new (n :: done) (moved + 1) (note record (existing.length + new.length))) := by
  have hslots : (shape existing (n :: new) done moved record).added =
      new.reverse.map some ++ some n :: replicate moved none := by
    simp [shape]
  have hlen : new.length = (new.reverse.map some).length := by simp
  have hread : read (shape existing (n :: new) done moved record).added new.length =
      some (n, (shape existing new done (moved + 1) record).added) := by
    rw [hslots, hlen, read_append]
    simp [shape, replicate_succ]
  have htarget : (shape existing (n :: new) done moved record).target = existing.length + new.length + 1 := rfl
  rw [Merge.round, htake]
  simp only [htarget]
  change (read _ new.length).bind _ = _
  rw [hread]
  simp only [shape_writes]
  rfl

theorem loop_shape (cmp : α → α → Ordering) (note : R → Nat → R) (done : List α) (moved : Nat) (record : R)
    {rounds : Nat} (hr : existing.length + new.length ≤ rounds) :
    ∃ left done' moved' record', Merge.loop cmp note rounds (shape existing new done moved record) =
        some (shape left [] done' moved' record') ∧
      walk cmp note rounds existing new done record = (left.reverse ++ done', record') := by
  induction rounds generalizing existing new done moved record with
  | zero =>
    obtain ⟨rfl, rfl⟩ : existing = [] ∧ new = [] := by
      simpa using hr
    exact ⟨[], done, moved, record, rfl, rfl⟩
  | succ rounds ih =>
    cases new with
    | nil => exact ⟨existing, done, moved, record, rfl, rfl⟩
    | cons n new =>
      have hnew : ∀ {m : Merge α R}, (shape existing (n :: new) done moved record).round cmp note = some m →
          Merge.loop cmp note (rounds + 1) (shape existing (n :: new) done moved record) =
            Merge.loop cmp note rounds m := by
        intro m hround
        rw [Merge.loop, hround]
        exact if_neg (Nat.succ_ne_zero _)
      simp only [length_cons] at hr
      cases existing with
      | nil =>
        have htake : (shape [] (n :: new) done moved record).takeExisting cmp = some false := rfl
        rw [hnew (round_new htake), length_nil, Nat.zero_add]
        have hrest : ([] : List α).length + new.length ≤ rounds := by
          omega
        exact ih _ _ _ hrest
      | cons e rest =>
        simp only [length_cons] at hr
        rw [walk]
        by_cases hlt : cmp n e = .lt
        · rw [hnew (round_existing hlt), if_pos hlt]
          exact ih _ _ _ (by simp only [length_cons]; omega)
        · have htake : (shape (e :: rest) (n :: new) done moved record).takeExisting cmp = some false := by
            rw [takeExisting_shape, decide_eq_false hlt]
          rw [hnew (round_new htake), if_neg hlt]
          exact ih _ _ _ (by simp only [length_cons]; omega)

/-- The merge in the buffer never fails, and leaves what the merge on lists does. -/
theorem mergeInPlace_eq (cmp : α → α → Ordering) (note : R → Nat → R) (record : R) (entries added : List α) :
    mergeInPlace cmp note record entries added =
      some (walk cmp note (entries.length + added.length) entries.reverse added.reverse [] record) := by
  have hlen : entries.reverse.length + added.reverse.length ≤ entries.length + added.length := by simp
  obtain ⟨left, done, moved, record', hloop, hwalk⟩ := loop_shape cmp note [] 0 record hlen
  have hpublish : publish (shape left [] done moved record').entries = some (left.reverse ++ done) := by
    have hslots : (shape left [] done moved record').entries = (left.reverse ++ done).map some := by
      simp [shape]
    rw [hslots, publish_map]
  grind [shape, mergeInPlace]

end Buffer

section Stable

/-- What a stable merge leaves at `merged`: both lists, each in its order, and together sorted. Where items are equal
the existing ones come first, so an added item before an existing one is less. -/
structure StableMerge (cmp : α → α → Ordering) (existing added merged : List α) (isAdded : Nat → Bool) : Prop where
  existing : dropFrom isAdded 0 merged = existing
  added : dropFrom (fun i => !isAdded i) 0 merged = added
  inside : ∀ i, isAdded i = true → i < merged.length
  sorted : merged.Pairwise fun a b => le cmp a b
  ties : ∀ i j a b, i < j → merged[i]? = some a → merged[j]? = some b → isAdded i = true → isAdded j = false →
    cmp a b = .lt

/-- The order of a stable merge of marked items into others. -/
def Before (cmp : α → α → Ordering) (p : α → Bool) (a b : α) : Prop :=
  le cmp a b ∧ (p a = true → p b = false → cmp a b = .lt)

variable {p : α → Bool} {rounds : Nat} {existing new done : List α} {record : R}

theorem le_of_not_lt (h : TransCmp cmp) {a b : α} (hab : cmp a b ≠ .lt) : le cmp b a := by
  have hswap : cmp b a = (cmp a b).swap := h.eq_swap
  cases hcmp : cmp a b with
  | lt => exact absurd hcmp hab
  | eq => simp [le, hswap, hcmp]
  | gt => simp [le, hswap, hcmp]

theorem walk_perm (hr : existing.length + new.length ≤ rounds) :
    (walk cmp note rounds existing new done record).1.Perm (existing ++ new ++ done) := by
  induction rounds generalizing existing new done record with
  | zero =>
    obtain ⟨rfl, rfl⟩ : existing = [] ∧ new = [] := by
      simpa using hr
    exact .refl _
  | succ rounds ih =>
    cases new with
    | nil =>
      rw [append_nil]
      exact (reverse_perm existing).append_right done
    | cons n new =>
      cases existing with
      | nil => exact (ih (by simp at hr ⊢; omega)).trans perm_middle
      | cons e rest =>
        simp only [length_cons] at hr
        rw [walk]
        split
        · exact (ih (by simp only [length_cons]; omega)).trans perm_middle
        · refine (ih (by simp only [length_cons]; omega)).trans ?_
          have hmove : (e :: rest ++ new ++ n :: done).Perm (n :: (e :: rest ++ new ++ done)) := perm_middle
          refine hmove.trans ?_
          have hback : (n :: (e :: rest ++ (new ++ done))).Perm (e :: rest ++ n :: (new ++ done)) :=
            perm_middle.symm
          simpa using hback

/-- The merge of sorted lists is sorted: what is written so far is behind both of what is left. -/
theorem walk_sorted (h : TransCmp cmp) (hr : existing.length + new.length ≤ rounds)
    (he : (existing.reverse ++ done).Pairwise fun a b => le cmp a b)
    (hn : (new.reverse ++ done).Pairwise fun a b => le cmp a b) :
    (walk cmp note rounds existing new done record).1.Pairwise fun a b => le cmp a b := by
  induction rounds generalizing existing new done record with
  | zero => grind [length_eq_zero_iff, walk]
  | succ rounds ih =>
    cases new with
    | nil => exact he
    | cons n new =>
      simp only [reverse_cons, append_assoc, singleton_append] at hn
      cases existing with
      | nil =>
        refine ih (by simp at hr ⊢; omega) ?_ hn
        exact (pairwise_append.mp hn).2.1
      | cons e rest =>
        simp only [length_cons] at hr
        simp only [reverse_cons, append_assoc, singleton_append] at he
        have hedone := (pairwise_append.mp he)
        have hndone := (pairwise_append.mp hn)
        rw [walk]
        split
        · rename_i hlt
          have hle : le cmp n e := by simp [le, hlt]
          refine ih (by simp only [length_cons]; omega) he ?_
          simp only [reverse_cons, append_assoc]
          refine pairwise_append.mpr ⟨hndone.1, pairwise_cons.mpr ⟨?_, hedone.2.1⟩, ?_⟩
          · simp_all
          · intro a ha x hx
            have han := hndone.2.2 a ha n mem_cons_self
            obtain rfl | hx := mem_cons.mp hx
            · exact han
            · obtain rfl | hx := mem_cons.mp hx
              · exact le_trans h han hle
              grind
        · rename_i hlt
          have hle := le_of_not_lt h hlt
          refine ih (by simp only [length_cons]; omega) ?_ hn
          simp only [reverse_cons, append_assoc]
          refine pairwise_append.mpr ⟨hedone.1, pairwise_cons.mpr ⟨?_, hndone.2.1⟩, ?_⟩
          · simp_all
          · intro a ha x hx
            have hae := hedone.2.2 a ha e mem_cons_self
            obtain rfl | hx := mem_cons.mp hx
            · exact hae
            · obtain rfl | hx := mem_cons.mp hx
              · exact le_trans h hae hle
              grind

theorem Before.trans_lt (h : TransCmp cmp) {a b c : α} (hab : Before cmp p a b) (hbc : cmp b c = .lt) :
    Before cmp p a c := by
  have hlt : cmp a c = .lt := TransCmp.lt_of_isLE_of_lt (le_iff.mp hab.1) hbc
  exact ⟨by simp [le, hlt], fun _ _ => hlt⟩

theorem walk_before (h : TransCmp cmp) (hr : existing.length + new.length ≤ rounds)
    (hpe : ∀ e ∈ existing, p e = false) (hpn : ∀ n ∈ new, p n = true)
    (he : (existing.reverse ++ done).Pairwise (Before cmp p)) (hn : (new.reverse ++ done).Pairwise (Before cmp p)) :
    (walk cmp note rounds existing new done record).1.Pairwise (Before cmp p) := by
  induction rounds generalizing existing new done record with
  | zero => grind [length_eq_zero_iff, walk]
  | succ rounds ih =>
    cases new with
    | nil => exact he
    | cons n new =>
      simp only [reverse_cons, append_assoc] at hn
      simp only [length_cons] at hr
      have hpn' := (forall_mem_cons.mp hpn).2
      cases existing with
      | nil => exact ih (by omega) hpe hpn' (pairwise_append.mp hn).2.1 hn
      | cons e rest =>
        simp only [length_cons] at hr
        simp only [reverse_cons, append_assoc] at he
        obtain ⟨hrest, hedone, herest⟩ := pairwise_append.mp he
        obtain ⟨hnew, hndone, hnrest⟩ := pairwise_append.mp hn
        obtain ⟨hpe0, hpe'⟩ := forall_mem_cons.mp hpe
        rw [walk]
        split
        · rename_i hlt
          have hbefore : Before cmp p n e := ⟨by simp [le, hlt], fun _ _ => hlt⟩
          refine ih (by simp only [length_cons]; omega) hpe' hpn he ?_
          simp only [reverse_cons, append_assoc]
          refine pairwise_append.mpr ⟨hnew, pairwise_cons.mpr ⟨?_, hedone⟩, ?_⟩
          · simp_all
          · intro a ha x hx
            have han := hnrest a ha n mem_cons_self
            obtain rfl | hx := mem_cons.mp hx
            · exact han
            · obtain rfl | hx := mem_cons.mp hx
              · exact han.trans_lt h hlt
              grind
        · rename_i hlt
          have hle := le_of_not_lt h hlt
          refine ih (by simp only [length_cons]; omega) hpe hpn' ?_ hn
          simp only [reverse_cons, append_assoc]
          refine pairwise_append.mpr ⟨hrest, pairwise_cons.mpr ⟨?_, hndone⟩, ?_⟩
          · intro x hx
            obtain rfl | hx := mem_cons.mp hx
            · exact ⟨hle, fun hp => absurd hp (by simp [hpe0])⟩
            · exact (pairwise_cons.mp hedone).1 x hx
          · intro a ha x hx
            have hae := herest a ha e mem_cons_self
            obtain rfl | hx := mem_cons.mp hx
            · exact hae
            · obtain rfl | hx := mem_cons.mp hx
              · exact ⟨le_trans h hae.1 hle, fun hp => absurd hp (by simp [hpe' a (mem_reverse.mp ha)])⟩
              grind

theorem walk_filter (hr : existing.length + new.length ≤ rounds) (hpe : ∀ e ∈ existing, p e = false)
    (hpn : ∀ n ∈ new, p n = true) :
    (walk cmp note rounds existing new done record).1.filter p = new.reverse ++ done.filter p ∧
      (walk cmp note rounds existing new done record).1.filter (fun a => !p a) =
        existing.reverse ++ done.filter fun a => !p a := by
  have hstop : ∀ existing done : List α, (∀ e ∈ existing, p e = false) →
      (existing.reverse ++ done).filter p = done.filter p ∧ (existing.reverse ++ done).filter (fun a => !p a) =
        existing.reverse ++ done.filter fun a => !p a := by
    intro existing done hpe
    have hnone : existing.reverse.filter p = [] := filter_eq_nil_iff.mpr fun e he => by
      simp [hpe e (mem_reverse.mp he)]
    have hall : existing.reverse.filter (fun a => !p a) = existing.reverse := filter_eq_self.mpr fun e he => by
      simp [hpe e (mem_reverse.mp he)]
    exact ⟨by rw [filter_append, hnone, nil_append], by rw [filter_append, hall]⟩
  induction rounds generalizing existing new done record with
  | zero =>
    obtain ⟨rfl, rfl⟩ : existing = [] ∧ new = [] := by
      simpa using hr
    exact hstop [] done (by simp)
  | succ rounds ih =>
    cases new with
    | nil => exact hstop existing done hpe
    | cons n new =>
      simp only [length_cons] at hr
      obtain ⟨hpn0, hpn'⟩ := forall_mem_cons.mp hpn
      cases existing with
      | nil =>
        obtain ⟨hyes, hno⟩ := @ih [] new (n :: done) (note record new.length) (by omega) hpe hpn'
        grind [walk]
      | cons e rest =>
        simp only [length_cons] at hr
        obtain ⟨hpe0, hpe'⟩ := forall_mem_cons.mp hpe
        rw [walk]
        split
        · obtain ⟨hyes, hno⟩ := @ih rest (n :: new) (e :: done) record (by simp only [length_cons]; omega) hpe' hpn
          grind
        · obtain ⟨hyes, hno⟩ := @ih (e :: rest) new (n :: done) (note record (rest.length + 1 + new.length))
            (by simp only [length_cons]; omega) hpe hpn'
          grind

theorem walk_map {β : Type} (cmp : α → α → Ordering) (note : R → Nat → R) (f : β → α) (rounds : Nat)
    (existing new done : List β) (record : R) : walk cmp note rounds (existing.map f) (new.map f) (done.map f) record =
      Prod.map (List.map f) id (walk (fun a b => cmp (f a) (f b)) note rounds existing new done record) := by
  induction rounds generalizing existing new done record with
  | zero => simp [walk]
  | succ rounds ih =>
    cases new with
    | nil => simp [walk]
    | cons n new =>
      cases existing with
      | nil => grind [walk]
      | cons e rest => grind [walk]

/-- The positions of the marked items of a list whose first position is `k`. -/
def marks (p : α → Bool) (k : Nat) (xs : List α) (i : Nat) : Bool := decide (k ≤ i) && (xs[i - k]?).any p

theorem marks_cons (k : Nat) (a : α) (xs : List α) (i : Nat) :
    marks p k (a :: xs) i = (marks p (k + 1) xs i || (decide (i = k) && p a)) := by
  grind [marks]

variable {P : R → Nat → (Nat → Bool) → Prop}

/-- A rule for what the loop records: `P record k f` is about the positions from `k` on, of which `f` marks those
of added items. -/
theorem walk_record (hnote : ∀ record k f, P record (k + 1) f → P (note record k) k fun i => f i || decide (i = k))
    (hskip : ∀ record k f, P record (k + 1) f → P record k f) (hr : existing.length + new.length ≤ rounds)
    (hpe : ∀ e ∈ existing, p e = false) (hpn : ∀ n ∈ new, p n = true)
    (h : P record (existing.length + new.length) (marks p (existing.length + new.length) done)) :
    P (walk cmp note rounds existing new done record).2 0 (marks p 0 (walk cmp note rounds existing new done record).1) := by
  have hkeep : ∀ (e : α) (k : Nat) (done : List α) (record : R), p e = false → P record (k + 1) (marks p (k + 1) done) →
      P record k (marks p k (e :: done)) := by
    intro e k done record he hP
    have hmarks : marks p k (e :: done) = marks p (k + 1) done := by
      funext i
      simp [marks_cons, he]
    exact hmarks ▸ hskip record k _ hP
  have hstop : ∀ (existing done : List α) (record : R), (∀ e ∈ existing, p e = false) →
      P record existing.length (marks p existing.length done) → P record 0 (marks p 0 (existing.reverse ++ done)) := by
    intro existing
    induction existing with
    | nil => exact fun done record _ hP => hP
    | cons e rest ih => simp_all
  have htake : ∀ (n : α) (k : Nat) (done : List α) (record : R), p n = true → P record (k + 1) (marks p (k + 1) done) →
      P (note record k) k (marks p k (n :: done)) := by
    intro n k done record hn hP
    have hmarks : marks p k (n :: done) = fun i => marks p (k + 1) done i || decide (i = k) := by
      funext i
      simp [marks_cons, hn]
    exact hmarks ▸ hnote record k _ hP
  induction rounds generalizing existing new done record with
  | zero =>
    obtain ⟨rfl, rfl⟩ : existing = [] ∧ new = [] := by
      simpa using hr
    exact h
  | succ rounds ih =>
    cases new with
    | nil => exact hstop existing done record hpe h
    | cons n new =>
      simp only [length_cons] at hr
      obtain ⟨hpn0, hpn'⟩ := forall_mem_cons.mp hpn
      cases existing with
      | nil =>
        have hP := htake n new.length done record hpn0 (by simpa using h)
        exact @ih [] new (n :: done) (note record new.length) (by omega) hpe hpn' (by simpa using hP)
      | cons e rest =>
        simp only [length_cons] at hr h
        obtain ⟨hpe0, hpe'⟩ := forall_mem_cons.mp hpe
        rw [walk]
        split
        · have hP := hkeep e (rest.length + (n :: new).length) done record hpe0
            (by rw [length_cons, Nat.add_right_comm]; exact h)
          exact @ih rest (n :: new) (e :: done) record (by simp only [length_cons]; omega) hpe' hpn hP
        · have hP := htake n (rest.length + 1 + new.length) done record hpn0 h
          exact @ih (e :: rest) new (n :: done) _ (by simp only [length_cons]; omega) hpe hpn' hP

theorem dropFrom_marks (p : α → Bool) (k : Nat) (xs : List α) :
    dropFrom (marks p k xs) k xs = xs.filter (fun a => !p a) ∧
      dropFrom (fun i => !marks p k xs i) k xs = xs.filter p := by
  induction xs generalizing k with
  | nil => exact ⟨rfl, rfl⟩
  | cons a xs ih =>
    obtain ⟨hno, hyes⟩ := ih (k + 1)
    have hself : marks p k (a :: xs) k = p a := by simp [marks]
    have hrest : ∀ i, k + 1 ≤ i → i < k + 1 + xs.length → marks p k (a :: xs) i = marks p (k + 1) xs i := by
      intro i hi _
      have hne : i ≠ k := by omega
      simp [marks_cons, hne]
    grind [dropFrom, dropFrom_congr]

/-- Every item with a mark that says which list it is from. -/
def tag (b : Bool) (xs : List α) : List (α × Bool) := xs.map fun a => (a, b)

@[simp] theorem tag_fst (b : Bool) (xs : List α) : (tag b xs).map Prod.fst = xs := by
  induction xs with
  | nil => rfl
  | cons a xs ih => exact congrArg (a :: ·) ih

variable {xs : List α}

theorem mem_tag {b : Bool} {a : α × Bool} (h : a ∈ tag b xs) : a.2 = b := by
  obtain ⟨x, _, rfl⟩ := mem_map.mp h
  rfl

@[simp] theorem length_tag (b : Bool) (xs : List α) : (tag b xs).length = xs.length := length_map _

theorem tag_before {b : Bool} (h : xs.Pairwise fun a b => le cmp a b) :
    (tag b xs).Pairwise (Before (fun a b : α × Bool => cmp a.1 b.1) Prod.snd) := by
  grind -linarith [Before, tag, le]

/-- The merge in the buffer is a stable merge, and what it records is about the positions of the added items. -/
theorem mergeInPlace_stable (h : TransCmp cmp) {entries added : List α}
    (he : entries.Pairwise fun a b => le cmp a b) (ha : added.Pairwise fun a b => le cmp a b)
    (hnote : ∀ record k f, P record (k + 1) f → P (note record k) k fun i => f i || decide (i = k))
    (hskip : ∀ record k f, P record (k + 1) f → P record k f)
    (hstart : P record (entries.length + added.length) fun _ => false) :
    ∃ merged record' isAdded, mergeInPlace cmp note record entries added = some (merged, record') ∧
      StableMerge cmp entries added merged isAdded ∧ P record' 0 isAdded := by
  have hpe : ∀ e ∈ (tag false entries).reverse, e.2 = false := fun e he => mem_tag (mem_reverse.mp he)
  have hpn : ∀ n ∈ (tag true added).reverse, n.2 = true := fun n hn => mem_tag (mem_reverse.mp hn)
  have hlen : (tag false entries).reverse.length + (tag true added).reverse.length ≤
      entries.length + added.length := by simp
  let result := walk (fun a b : α × Bool => cmp a.1 b.1) note (entries.length + added.length)
    (tag false entries).reverse (tag true added).reverse [] record
  have hwalk : walk cmp note (entries.length + added.length) entries.reverse added.reverse [] record =
      (result.1.map Prod.fst, result.2) := by
    have hmap := walk_map cmp note Prod.fst (entries.length + added.length) (tag false entries).reverse
      (tag true added).reverse [] record
    simp only [map_reverse, tag_fst] at hmap
    exact hmap
  have hfilter : result.1.filter Prod.snd = (tag true added).reverse.reverse ++ [].filter Prod.snd ∧
      result.1.filter (fun a => !a.2) = (tag false entries).reverse.reverse ++ [].filter fun a => !a.2 :=
    walk_filter hlen hpe hpn
  simp only [reverse_reverse, filter_nil, append_nil] at hfilter
  have hbefore : result.1.Pairwise (Before (fun a b : α × Bool => cmp a.1 b.1) Prod.snd) :=
    walk_before (transCmp_comap h Prod.fst) hlen hpe hpn (by simpa using tag_before he) (by simpa using tag_before ha)
  have hrecord : P result.2 0 (marks Prod.snd 0 result.1) := by
    refine walk_record hnote hskip hlen hpe hpn ?_
    have hmarks : marks Prod.snd ((tag false entries).reverse.length + (tag true added).reverse.length)
        ([] : List (α × Bool)) = fun _ => false := by
      funext i
      simp [marks]
    rw [hmarks]
    simpa using hstart
  obtain ⟨hkept, hnew⟩ := dropFrom_marks Prod.snd 0 result.1
  refine ⟨_, _, marks Prod.snd 0 result.1, (mergeInPlace_eq cmp note record entries added).trans (by rw [hwalk]), ?_,
    hrecord⟩
  refine ⟨?_, ?_, fun i hi => ?_, pairwise_map.mpr (hbefore.imp fun hab => hab.1), ?_⟩
  · rw [dropFrom_map, hkept, hfilter.2, tag_fst]
  · rw [dropFrom_map, hnew, hfilter.1, tag_fst]
  · grind [marks]
  · intro i j a b hlt hi hj hyes hno
    simp only [getElem?_map, Option.map_eq_some_iff] at hi hj
    obtain ⟨a', ha', rfl⟩ := hi
    obtain ⟨b', hb', rfl⟩ := hj
    obtain ⟨hi', rfl⟩ := List.getElem?_eq_some_iff.mp ha'
    obtain ⟨hj', rfl⟩ := List.getElem?_eq_some_iff.mp hb'
    have hpair := pairwise_iff_getElem.mp hbefore i j hi' hj' hlt
    simp only [marks, Nat.sub_zero, ha', hb'] at hyes hno
    exact hpair.2 hyes hno

end Stable

end TensorDE.BackMerge
