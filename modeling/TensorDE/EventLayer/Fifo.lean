import TensorDE.EventLayer.Queue
import Mathlib.Data.List.TakeWhile

namespace TensorDE.EventLayer

open List

variable {a b c : Event}

namespace Event

/-- What an event is about, for the events that a newer one can replace. -/
inductive Subject where
  | motion
  | vblank (output : Nat)
  | gpu (output : Nat)
  | redraw
deriving DecidableEq, Repr

def Subject.phase : Subject → Phase
  | .motion => .input
  | .vblank _ => .present
  | .gpu _ => .gpu
  | .redraw => .scene

def subject : Event → Option Subject
  | .input (.pointerMotion ..) => some .motion
  | .output (.vblank crtc _) => some (.vblank crtc)
  | .gpu timeline => some (.gpu timeline.output)
  | .redrawAll => some .redraw
  | _ => none

theorem subject_of_coalesces (h : a.coalescesWith b = true) : ∃ subject, a.subject = some subject ∧ b.subject = some subject := by
  rcases a with (_ | _) | (_ | _) | _ | ⟨n, _⟩ | _ | _ | _ | _ | _ <;>
    rcases b with (_ | _) | (_ | _) | _ | ⟨m, _⟩ | _ | _ | _ | _ | _ <;> grind -linarith [subject, coalescesWith]

theorem coalesces_of_subject {subject : Subject} (ha : a.subject = some subject) (hb : b.subject = some subject) :
    a.coalescesWith b = true := by
  cases subject <;> rcases a with (_ | _) | (_ | _) | _ | ⟨n, _⟩ | _ | _ | _ | _ | _ <;> cases ha <;>
    rcases b with (_ | _) | (_ | _) | _ | ⟨m, _⟩ | _ | _ | _ | _ | _ <;> cases hb <;> first
    | rfl
    | exact decide_eq_true rfl

theorem coalescesWith_iff : a.coalescesWith b = true ↔ ∃ subject, a.subject = some subject ∧ b.subject = some subject := by
  grind -linarith [subject_of_coalesces, coalesces_of_subject]

theorem phase_of_subject {subject : Subject} (h : a.subject = some subject) : a.phase = subject.phase := by
  rcases a with (_ | _) | (_ | _) | _ | _ | _ | _ | _ | _ | _ <;> cases h <;> rfl

theorem coalescesWith_comm (a b : Event) : a.coalescesWith b = b.coalescesWith a := by
  rw [Bool.eq_iff_iff, coalescesWith_iff, coalescesWith_iff]
  exact exists_congr fun _ => and_comm

theorem coalescesWith_congr (h : a.coalescesWith b = true) (c : Event) : a.coalescesWith c = b.coalescesWith c := by
  grind [coalescesWith_iff]

theorem isMotion_iff : a.isMotion = true ↔ a.subject = some .motion := by
  rcases a with (_ | _) | (_ | _) | _ | _ | _ | _ | _ | _ | _ <;>
    exact ⟨fun h => by cases h <;> rfl, fun h => by cases h <;> rfl⟩

theorem phase_of_motion (h : a.isMotion = true) : a.phase = .input := phase_of_subject ((isMotion_iff).mp h)

theorem coalescesWith_motion (h : a.isMotion = true) : a.coalescesWith b = b.isMotion := by
  grind [coalescesWith_iff, isMotion_iff]

theorem motion_of_coalesces (hphase : b.phase = .input) (h : a.coalescesWith b = true) : b.isMotion = true := by
  obtain ⟨subject, -, hb⟩ := subject_of_coalesces h
  rw [phase_of_subject hb] at hphase
  cases subject with
  | motion => exact (isMotion_iff).mpr hb
  | vblank | gpu | redraw => cases hphase

end Event

/-- What the queue is for: a line of events for each phase, in which a coalescing event takes the place of its partner. -/
structure Fifo where
  queued : Phase → List Stamped
  pushes : List Push
  delivered : List Delivery

namespace Fifo

def start : Fifo := ⟨fun _ => [], [], []⟩

variable (f : Fifo)

def setQueued (phase : Phase) (events : List Stamped) : Fifo :=
  { f with queued := Function.update f.queued phase events }

def replace (event : Event) (before : List Stamped) (old : Stamped) (after : List Stamped) : Fifo :=
  { f.setQueued event.phase (before ++ ⟨event, f.pushes.length⟩ :: after) with
    pushes := f.pushes ++ [⟨event, .coalesced, some old.serial⟩] }

def enqueue (event : Event) : Fifo :=
  { f.setQueued event.phase (f.queued event.phase ++ [⟨event, f.pushes.length⟩]) with
    pushes := f.pushes ++ [⟨event, .queued, none⟩] }

def drop (event : Event) : Fifo := { f with pushes := f.pushes ++ [⟨event, .dropped, none⟩] }

def deliver (phase : Phase) (front : Stamped) (rest : List Stamped) : Fifo :=
  { f.setQueued phase rest with delivered := f.delivered ++ [⟨front, f.pushes.length⟩] }

def Alone (event : Event) : Prop := ∀ x ∈ f.queued event.phase, x.event.coalescesWith event = false

inductive Step (capacity : Nat) (f : Fifo) : Fifo → Prop where
  | replace {event : Event} {before after : List Stamped} {old : Stamped}
    (line : f.queued event.phase = before ++ old :: after) (partner : old.event.coalescesWith event = true) :
    Step capacity f (f.replace event before old after)
  | enqueue {event : Event} (alone : f.Alone event) (room : (f.queued event.phase).length < capacity) :
    Step capacity f (f.enqueue event)
  | drop {event : Event} (alone : f.Alone event) (full : (f.queued event.phase).length = capacity) :
    Step capacity f (f.drop event)
  | deliver {phase : Phase} {front : Stamped} {rest : List Stamped} (line : f.queued phase = front :: rest) :
    Step capacity f (f.deliver phase front rest)

variable {f f' : Fifo} {capacity : Nat}

@[simp] theorem queued_setQueued_self (f : Fifo) (phase : Phase) (events : List Stamped) :
    (f.setQueued phase events).queued phase = events := Function.update_self ..

@[simp] theorem queued_setQueued_of_ne (f : Fifo) {phase other : Phase} (events : List Stamped) (h : other ≠ phase) :
    (f.setQueued phase events).queued other = f.queued other := Function.update_of_ne h ..

/-- The lines have room, their events belong to them and do not coalesce. -/
structure Lined (capacity : Nat) (f : Fifo) : Prop where
  fits : ∀ phase, (f.queued phase).length ≤ capacity
  own : ∀ phase, ∀ x ∈ f.queued phase, x.event.phase = phase
  apart : ∀ phase, (f.queued phase).Pairwise fun x y => x.event.coalescesWith y.event = false

theorem Lined.start (capacity : Nat) : Fifo.start.Lined capacity :=
  ⟨fun _ => Nat.zero_le _, fun _ _ hx => absurd hx not_mem_nil, fun _ => List.Pairwise.nil⟩

theorem Lined.setQueued (h : f.Lined capacity) {phase : Phase} {events : List Stamped}
    (hfits : events.length ≤ capacity) (hown : ∀ x ∈ events, x.event.phase = phase)
    (hapart : events.Pairwise fun x y => x.event.coalescesWith y.event = false) :
    (f.setQueued phase events).Lined capacity := by
  constructor <;> intro other <;> by_cases hother : other = phase
  · grind [queued_setQueued_self]
  · rw [queued_setQueued_of_ne _ _ hother]
    exact h.fits other
  · grind [queued_setQueued_self]
  · rw [queued_setQueued_of_ne _ _ hother]
    exact h.own other
  · grind [queued_setQueued_self]
  grind [queued_setQueued_of_ne, h.apart]

theorem Lined.step (h : f.Lined capacity) (hstep : Step capacity f f') : f'.Lined capacity := by
  cases hstep with
  | @replace event before after old hline hpartner =>
    have hfits := h.fits event.phase
    have hown := h.own event.phase
    have hapart := h.apart event.phase
    rw [hline] at hfits hown hapart
    have hset : (f.setQueued event.phase (before ++ ⟨event, f.pushes.length⟩ :: after)).Lined capacity := by
      refine h.setQueued ?_ ?_ ?_
      · rw [length_append] at hfits ⊢
        exact hfits
      · intro x hx
        obtain hx | hx := mem_append.mp hx
        · exact hown x (mem_append_left _ hx)
        · obtain rfl | hx := mem_cons.mp hx
          · rfl
          · exact hown x (mem_append_right _ (mem_cons_of_mem _ hx))
      · rw [pairwise_append, pairwise_cons] at hapart ⊢
        obtain ⟨hbefore, ⟨hold, hafter⟩, hacross⟩ := hapart
        refine ⟨hbefore, ⟨fun y hy => ?_, hafter⟩, fun x hx y hy => ?_⟩
        · exact (Event.coalescesWith_congr hpartner y.event).symm.trans (hold y hy)
        · obtain rfl | hy := mem_cons.mp hy
          · have hx' := hacross x hx old mem_cons_self
            rw [Event.coalescesWith_comm] at hx' ⊢
            exact (Event.coalescesWith_congr hpartner x.event).symm.trans hx'
          · exact hacross x hx y (mem_cons_of_mem _ hy)
    exact ⟨hset.fits, hset.own, hset.apart⟩
  | @enqueue event halone hroom =>
    have hset : (f.setQueued event.phase (f.queued event.phase ++ [⟨event, f.pushes.length⟩])).Lined capacity := by
      refine h.setQueued ?_ ?_ ?_
      · rw [length_append]
        exact hroom
      · grind [h.own]
      · refine pairwise_append.mpr ⟨h.apart _, pairwise_singleton _ _, fun x hx y hy => ?_⟩
        rw [mem_singleton.mp hy]
        exact halone x hx
    exact ⟨hset.fits, hset.own, hset.apart⟩
  | drop => exact ⟨h.fits, h.own, h.apart⟩
  | @deliver phase front rest hline =>
    have hfits := h.fits phase
    have hown := h.own phase
    have hapart := h.apart phase
    rw [hline] at hfits hown hapart
    have hset := h.setQueued (Nat.le_of_succ_le hfits) (fun x hx => hown x (mem_cons_of_mem _ hx))
      (pairwise_cons.mp hapart).2
    exact ⟨hset.fits, hset.own, hset.apart⟩

def line (f : Fifo) (phase : Phase) : List Stamped :=
  ((f.delivered.map Delivery.item).filter fun x => x.event.phase = phase) ++ f.queued phase

def serials (f : Fifo) (phase : Phase) : List Nat := (f.line phase).map Stamped.serial

def replaced (f : Fifo) : List Nat := f.pushes.filterMap Push.replaced

def wasQueued (f : Fifo) (x : Stamped) : Bool := (f.pushes[x.serial]?).any fun push => push.result = .queued

/-- What comes out of the lines is what was accepted, once each and in order. A coalesced event comes out in the place
of its partner instead of it. -/
structure Kept (f : Fifo) : Prop where
  known : ∀ phase, ∀ x ∈ f.line phase, ∃ push : Push, f.pushes[x.serial]? = some push ∧ push.event = x.event
    ∧ push.event.phase = phase ∧ push.result ≠ .dropped
  once : ∀ (i : Nat) (push : Push), f.pushes[i]? = some push →
    (f.serials push.event.phase).count i + f.replaced.count i = if push.result = .dropped then 0 else 1
  partner : ∀ (i : Nat) (push : Push), f.pushes[i]? = some push → (push.result = .coalesced ↔ push.replaced.isSome)
    ∧ ∀ j, push.replaced = some j → j < i
      ∧ ∃ older : Push, f.pushes[j]? = some older ∧ older.event.coalescesWith push.event = true
  order : ∀ phase, ((f.line phase).filter f.wasQueued).Pairwise fun x y => x.serial < y.serial

theorem Kept.start : Fifo.start.Kept :=
  ⟨fun _ _ hx => absurd hx not_mem_nil, (fun _ _ hpush => by cases hpush), (fun _ _ hpush => by cases hpush),
    fun _ => List.Pairwise.nil⟩

variable {phase : Phase} {x : Stamped}

theorem Kept.serial_lt (h : f.Kept) (hx : x ∈ f.line phase) : x.serial < f.pushes.length := by
  grind [h.known]

theorem Kept.replaced_lt (h : f.Kept) {i : Nat} (hi : i ∈ f.replaced) : i < f.pushes.length := by
  obtain ⟨push, hpush, hreplaced⟩ := mem_filterMap.mp hi
  obtain ⟨j, hj⟩ := mem_iff_getElem?.mp hpush
  grind +splitImp +splitIndPred

theorem line_deliver {front : Stamped} {rest : List Stamped} (hline : f.queued phase = front :: rest)
    (hown : front.event.phase = phase) : (f.deliver phase front rest).line = f.line := by
  funext other
  rw [line, line]
  change ((f.delivered ++ [(⟨front, f.pushes.length⟩ : Delivery)]).map Delivery.item).filter _
    ++ (f.setQueued phase rest).queued other = _
  grind [queued_setQueued_self, queued_setQueued_of_ne]

theorem Kept.deliver (h : f.Kept) {front : Stamped} {rest : List Stamped} (hline : f.queued phase = front :: rest)
    (hown : front.event.phase = phase) : (f.deliver phase front rest).Kept := by
  have hlines := line_deliver hline hown
  constructor
  · rw [hlines]
    exact h.known
  · intro i push hpush
    rw [serials, hlines]
    exact h.once i push hpush
  · exact h.partner
  · rw [hlines]
    exact h.order

variable {queued : Phase → List Stamped}

theorem Kept.push (h : f.Kept) (replaced : Option Nat) {event : Event}
    {result : PushResult} (hf' : f' = ⟨queued, f.pushes ++ [⟨event, result, replaced⟩], f.delivered⟩)
    (hmem : ∀ phase, ∀ x ∈ f'.line phase, x ∈ f.line phase
      ∨ x = ⟨event, f.pushes.length⟩ ∧ event.phase = phase ∧ result ≠ .dropped)
    (hold : ∀ (i : Nat) (push : Push), f.pushes[i]? = some push →
      (f'.serials push.event.phase).count i + f'.replaced.count i
        = (f.serials push.event.phase).count i + f.replaced.count i)
    (hnew : (f'.serials event.phase).count f.pushes.length + f'.replaced.count f.pushes.length
      = if result = .dropped then 0 else 1)
    (hpartner : (result = .coalesced ↔ replaced.isSome) ∧ ∀ j, replaced = some j →
      ∃ older : Push, f.pushes[j]? = some older ∧ older.event.coalescesWith event = true)
    (horder : ∀ phase, ((f'.line phase).filter f'.wasQueued).Pairwise fun x y => x.serial < y.serial) : f'.Kept := by
  have hpushes : f'.pushes = f.pushes ++ [⟨event, result, replaced⟩] := hf' ▸ rfl
  have hkeep : ∀ (i : Nat) (push : Push), f.pushes[i]? = some push → f'.pushes[i]? = some push := by
    intro i push hpush
    rw [hpushes, getElem?_append_left (List.getElem?_eq_some_iff.mp hpush).1]
    exact hpush
  have hcases : ∀ (i : Nat) (push : Push), f'.pushes[i]? = some push →
      f.pushes[i]? = some push ∨ i = f.pushes.length ∧ push = ⟨event, result, replaced⟩ := by
    intro i push hpush
    rw [hpushes] at hpush
    obtain hlt | rfl | hgt := Nat.lt_trichotomy i f.pushes.length
    · rw [getElem?_append_left hlt] at hpush
      exact .inl hpush
    · rw [getElem?_concat_length] at hpush
      exact .inr ⟨rfl, (Option.some.inj hpush).symm⟩
    · rw [getElem?_eq_none (by rw [length_append]; exact hgt)] at hpush
      cases hpush
  refine ⟨fun phase x hx => ?_, fun i push hpush => ?_, fun i push hpush => ?_, horder⟩
  · grind [h.known, getElem?_concat_length]
  · grind [h.once]
  grind -linarith [h.partner]

theorem Kept.wasQueued_push (h : f.Kept) (queued : Phase → List Stamped) (push : Push) (hx : x ∈ f.line phase) :
    wasQueued ⟨queued, f.pushes ++ [push], f.delivered⟩ x = f.wasQueued x := by
  rw [wasQueued, wasQueued, getElem?_append_left (h.serial_lt hx)]

theorem wasQueued_last (f : Fifo) (queued : Phase → List Stamped) (push : Push) (event : Event) :
    wasQueued ⟨queued, f.pushes ++ [push], f.delivered⟩ ⟨event, f.pushes.length⟩ = decide (push.result = .queued) := by
  rw [wasQueued, getElem?_concat_length]
  rfl

theorem Kept.count_length (h : f.Kept) (phase : Phase) :
    (f.serials phase).count f.pushes.length = 0 ∧ f.replaced.count f.pushes.length = 0 := by
  refine ⟨count_eq_zero.mpr fun hmem => ?_, count_eq_zero.mpr fun hmem => ?_⟩
  · obtain ⟨x, hx, heq⟩ := mem_map.mp hmem
    exact absurd (h.serial_lt hx) (Nat.not_lt_of_le heq.ge)
  · exact absurd (h.replaced_lt hmem) (Nat.lt_irrefl _)

theorem Kept.drop (h : f.Kept) (event : Event) : (f.drop event).Kept := by
  have hreplaced : (f.drop event).replaced = f.replaced := by
    change (f.pushes ++ [_]).filterMap Push.replaced = _
    rw [filterMap_append]
    exact append_nil _
  refine h.push none rfl (fun phase x hx => .inl hx) (fun i push _ => ?_) ?_
    ⟨⟨(fun heq => by cases heq), (fun heq => by cases heq)⟩, (fun _ heq => by cases heq)⟩ fun phase => ?_
  · rw [hreplaced]
    rfl
  · rw [hreplaced]
    obtain ⟨hserials, hnone⟩ := h.count_length event.phase
    rw [hnone]
    exact hserials
  · have heq : (f.line phase).filter (f.drop event).wasQueued = (f.line phase).filter f.wasQueued :=
      filter_congr fun x hx => h.wasQueued_push _ _ hx
    exact heq ▸ h.order phase

theorem Kept.enqueue (h : f.Kept) (event : Event) : (f.enqueue event).Kept := by
  have hreplaced : (f.enqueue event).replaced = f.replaced := by
    change (f.pushes ++ [_]).filterMap Push.replaced = _
    rw [filterMap_append]
    exact append_nil _
  have hself : (f.enqueue event).line event.phase = f.line event.phase ++ [⟨event, f.pushes.length⟩] := by
    rw [line, line, append_assoc]
    exact congrArg (_ ++ ·) (queued_setQueued_self ..)
  have hother : ∀ phase, phase ≠ event.phase → (f.enqueue event).line phase = f.line phase := by
    intro phase hne
    exact congrArg (_ ++ ·) (queued_setQueued_of_ne _ _ hne)
  refine h.push none rfl (fun phase x hx => ?_) (fun i push hpush => ?_) ?_
    ⟨⟨(fun heq => by cases heq), (fun heq => by cases heq)⟩, (fun _ heq => by cases heq)⟩ fun phase => ?_
  · by_cases hphase : phase = event.phase
    · grind
    · exact .inl (hother phase hphase ▸ hx)
  · have hne : f.pushes.length ≠ i := (List.getElem?_eq_some_iff.mp hpush).1.ne'
    rw [hreplaced]
    by_cases hphase : push.event.phase = event.phase
    · rw [hphase, serials, hself, map_append, count_append]
      simp [serials, hne]
    · rw [serials, hother _ hphase]
      rfl
  · obtain ⟨hserials, hnone⟩ := h.count_length event.phase
    grind [serials]
  · have heq : (f.line phase).filter (f.enqueue event).wasQueued = (f.line phase).filter f.wasQueued :=
      filter_congr fun x hx => h.wasQueued_push _ _ hx
    grind +splitImp +splitIndPred [h.serial_lt]

theorem Kept.replace (h : f.Kept) {event : Event} {before after : List Stamped} {old : Stamped}
    (hline : f.queued event.phase = before ++ old :: after) (hpartner : old.event.coalescesWith event = true) :
    (f.replace event before old after).Kept := by
  set delivered := (f.delivered.map Delivery.item).filter fun x => x.event.phase = event.phase with hdelivered
  have hold : f.line event.phase = (delivered ++ before) ++ old :: after := by
    rw [line, hline, append_assoc]
  have hself : (f.replace event before old after).line event.phase
      = (delivered ++ before) ++ ⟨event, f.pushes.length⟩ :: after := by
    rw [append_assoc]
    exact congrArg (_ ++ ·) (queued_setQueued_self ..)
  have hother : ∀ phase, phase ≠ event.phase → (f.replace event before old after).line phase = f.line phase := by
    intro phase hne
    exact congrArg (_ ++ ·) (queued_setQueued_of_ne _ _ hne)
  have hreplaced : (f.replace event before old after).replaced = f.replaced ++ [old.serial] := filterMap_append
  have hmem : old ∈ f.line event.phase := hold ▸ mem_append_right _ mem_cons_self
  obtain ⟨older, holder, hevent, hphase, -⟩ := h.known _ _ hmem
  refine h.push (some old.serial) rfl (fun phase x hx => ?_) (fun i push hpush => ?_) ?_
    ⟨⟨fun _ => rfl, fun _ => rfl⟩, fun j hj => ?_⟩ fun phase => ?_
  · by_cases hcase : phase = event.phase
    · grind
    · exact .inl (hother phase hcase ▸ hx)
  · have hne : f.pushes.length ≠ i := (List.getElem?_eq_some_iff.mp hpush).1.ne'
    by_cases hcase : push.event.phase = event.phase
    · grind [serials]
    grind [serials]
  · obtain ⟨hserials, hnone⟩ := h.count_length event.phase
    grind [serials]
  · grind
  · by_cases hcase : phase = event.phase
    · subst hcase
      have heq : ∀ x ∈ f.line event.phase, (f.replace event before old after).wasQueued x = f.wasQueued x :=
        fun x hx => h.wasQueued_push _ _ hx
      have hsub : (((f.replace event before old after).line event.phase).filter
          (f.replace event before old after).wasQueued).Sublist ((f.line event.phase).filter f.wasQueued) := by
        rw [hself, ← filter_congr heq, hold, filter_append, filter_append (delivered ++ before)]
        apply List.Sublist.append_left
        rw [filter_cons_of_neg]
        · exact (sublist_cons_self old after).filter _
        · exact Bool.eq_false_iff.mp (wasQueued_last f _ _ event)
      exact (h.order _).sublist hsub
    · have heq : (f.line phase).filter (f.replace event before old after).wasQueued = (f.line phase).filter f.wasQueued :=
        filter_congr fun x hx => h.wasQueued_push _ _ hx
      grind [h.order]

theorem Kept.step (h : f.Kept) (hlined : f.Lined capacity) (hstep : Step capacity f f') : f'.Kept := by
  grind +splitImp +splitIndPred [replace, enqueue, drop, deliver]

def lastMotion (pushes : List Push) : Nat → Option Nat
  | 0 => none
  | n + 1 =>
    if (pushes[n]?).any fun push => push.event.isMotion && push.result ≠ .dropped then some n else lastMotion pushes n

def lastDelivered (delivered : List Delivery) : Option Delivery :=
  (delivered.filter fun delivery => delivery.item.event.isMotion).getLast?

/-- The motion before an event is the last one that was accepted before the event was pushed or, if it was delivered
after that, the last one that was accepted before it was delivered. -/
def Led (pushes : List Push) (last : Option Delivery) (serial : Nat) : Prop :=
  lastMotion pushes (max serial ((last.map Delivery.pushes).getD 0)) = last.map fun delivery => delivery.item.serial

def still (x : Stamped) : Bool := !x.event.isMotion

structure Moving (f : Fifo) : Prop where
  newest : ∀ x ∈ f.queued .input, x.event.isMotion = true → lastMotion f.pushes f.pushes.length = some x.serial
  gone : (f.queued .input).all still → lastMotion f.pushes f.pushes.length
    = (lastDelivered f.delivered).map fun delivery => delivery.item.serial
  ahead : ∀ x ∈ (f.queued .input).takeWhile still, Led f.pushes (lastDelivered f.delivered) x.serial
  past : ∀ before (x : Delivery) after, f.delivered = before ++ x :: after → x.item.event.phase = .input →
    still x.item = true → Led f.pushes (lastDelivered before) x.item.serial
  times : ∀ x ∈ f.delivered, x.pushes ≤ f.pushes.length ∧ x.item.serial ≤ f.pushes.length

theorem lastMotion_append (pushes more : List Push) {n : Nat} (hn : n ≤ pushes.length) :
    lastMotion (pushes ++ more) n = lastMotion pushes n := by
  induction n with
  | zero => rfl
  | succ n ih => rw [lastMotion, lastMotion, getElem?_append_left hn, ih (Nat.le_of_succ_le hn)]

theorem lastMotion_concat (pushes : List Push) (push : Push) : lastMotion (pushes ++ [push]) (pushes ++ [push]).length
      = if push.event.isMotion && push.result ≠ .dropped then some pushes.length
        else lastMotion pushes pushes.length := by
  grind [length_singleton, lastMotion, getElem?_concat_length, lastMotion_append]

theorem Led.append {pushes : List Push} {last : Option Delivery} {serial : Nat} (h : Led pushes last serial)
    (more : List Push) (hserial : serial ≤ pushes.length)
    (hlast : ∀ delivery, last = some delivery → delivery.pushes ≤ pushes.length) :
    Led (pushes ++ more) last serial := by
  rw [Led, lastMotion_append _ _ (max_le hserial ?_)]
  · exact h
  · cases last with
    | none => exact Nat.zero_le _
    | some delivery => exact hlast delivery rfl

variable {delivery : Delivery}

theorem mem_of_lastDelivered {delivered : List Delivery}
    (h : lastDelivered delivered = some delivery) : delivery ∈ delivered :=
  mem_of_mem_filter (mem_of_getLast? h)

theorem lastDelivered_concat (delivered : List Delivery) (x : Delivery) :
    lastDelivered (delivered ++ [x]) = if x.item.event.isMotion then some x else lastDelivered delivered := by
  grind [lastDelivered]

theorem Moving.start : Fifo.start.Moving :=
  ⟨fun _ hx => absurd hx not_mem_nil, fun _ => rfl, fun _ hx => absurd hx not_mem_nil,
    fun before x after heq => absurd (congrArg List.length heq) (by simp [Fifo.start]),
    fun _ hx => absurd hx not_mem_nil⟩

section

variable (h : f.Moving)
include h

theorem Moving.last_le (hlast : lastDelivered f.delivered = some delivery) :
    delivery.pushes ≤ f.pushes.length := (h.times _ (mem_of_lastDelivered hlast)).1

theorem Moving.push {push : Push} (hf' : f' = ⟨queued, f.pushes ++ [push], f.delivered⟩)
    (hnewest : ∀ x ∈ queued .input, x.event.isMotion = true → lastMotion f'.pushes f'.pushes.length = some x.serial)
    (hgone : (queued .input).all still → lastMotion f'.pushes f'.pushes.length
      = (lastDelivered f.delivered).map fun delivery => delivery.item.serial)
    (hahead : ∀ x ∈ (queued .input).takeWhile still, Led f'.pushes (lastDelivered f.delivered) x.serial) :
    f'.Moving := by
  subst hf'
  refine ⟨hnewest, hgone, hahead, fun before x after heq hphase hstill => ?_, fun x hx => ?_⟩
  · have hmem : x ∈ f.delivered := heq ▸ mem_append_right _ mem_cons_self
    refine (h.past before x after heq hphase hstill).append _ (h.times x hmem).2 fun delivery hlast => ?_
    exact (h.times delivery (heq ▸ mem_append_left _ (mem_of_lastDelivered hlast))).1
  grind +splitImp +splitIndPred

theorem Moving.led (hkept : f.Kept) (push : Push) (hx : x ∈ (f.queued .input).takeWhile still) :
    Led (f.pushes ++ [push]) (lastDelivered f.delivered) x.serial := by
  have hmem : x ∈ f.line .input := mem_append_right _ ((takeWhile_sublist _).subset hx)
  exact (h.ahead x hx).append _ (hkept.serial_lt hmem).le fun _ hlast => h.last_le hlast

theorem Moving.quiet (hkept : f.Kept) {push : Push}
    (hqueued : queued .input = f.queued .input) (hpush : (push.event.isMotion && push.result ≠ .dropped) = false) :
    Moving ⟨queued, f.pushes ++ [push], f.delivered⟩ := by
  grind -linarith [lastMotion_concat, h.push, h.newest, h.gone, h.led]

end

theorem still_eq_true_iff : still x = true ↔ x.event.isMotion = false := by
  rw [still, Bool.not_eq_true']

theorem Moving.enqueue (h : f.Moving) (hkept : f.Kept) {event : Event} (halone : f.Alone event) :
    (f.enqueue event).Moving := by
  by_cases hphase : event.phase = .input
  · let new : Stamped := ⟨event, f.pushes.length⟩
    have hqueued : (f.enqueue event).queued .input = f.queued .input ++ [new] := by
      rw [← hphase]
      exact queued_setQueued_self ..
    have hlast := lastMotion_concat f.pushes ⟨event, .queued, none⟩
    cases hmotion : event.isMotion with
    | true =>
      have hstill : ∀ x ∈ f.queued .input, still x = true := by
        intro x hx
        refine (still_eq_true_iff).mpr (Bool.eq_false_iff.mpr fun hx' => ?_)
        have hfalse := halone x (hphase ▸ hx)
        rw [Event.coalescesWith_motion hx', hmotion] at hfalse
        cases hfalse
      apply h.push rfl
      · grind [enqueue, still]
      · intro hall
        have hall : (f.queued .input ++ [new]).all still := hqueued ▸ hall
        grind [still]
      · intro x hx
        have hx : x ∈ (f.queued .input ++ [new]).takeWhile still := hqueued ▸ hx
        grind -linarith [still, takeWhile_append_of_pos, takeWhile_cons_of_neg, h.led]
    | false =>
      apply h.push rfl
      · intro x hx hx'
        have hx : x ∈ f.queued .input ++ [new] := hqueued ▸ hx
        grind -linarith [h.newest]
      · intro hall
        have hall : (f.queued .input ++ [new]).all still := hqueued ▸ hall
        grind -linarith [h.gone]
      · intro x hx
        have hx : x ∈ (f.queued .input ++ [new]).takeWhile still := hqueued ▸ hx
        rw [takeWhile_append] at hx
        split_ifs at hx with hlength
        · have hself : (f.queued .input).takeWhile still = f.queued .input :=
            (takeWhile_sublist _).eq_of_length hlength
          obtain hx | hx := mem_append.mp hx
          · exact h.led hkept _ (hself.symm ▸ hx)
          · -- the new event follows the last motion that was delivered
            rw [mem_singleton.mp ((takeWhile_sublist _).subset hx)]
            have hgone := h.gone (all_eq_true.mpr (takeWhile_eq_self_iff.mp hself))
            grind [lastDelivered, h.last_le, Led, lastMotion_append]
        · exact h.led hkept _ hx
  · have hmotion : event.isMotion = false := Bool.eq_false_iff.mpr fun hm => hphase (Event.phase_of_motion hm)
    refine h.quiet hkept (queued_setQueued_of_ne _ _ (Ne.symm hphase)) ?_
    rw [hmotion, Bool.false_and]

theorem Lined.still_around (h : f.Lined capacity) {before after : List Stamped}
    (hline : f.queued .input = before ++ x :: after) (hmotion : x.event.isMotion = true) :
    (∀ y ∈ before, still y = true) ∧ ∀ y ∈ after, still y = true := by
  have hapart := h.apart .input
  grind -linarith [still_eq_true_iff, mem_cons_self, Event.coalescesWith_comm, Event.coalescesWith_motion]

theorem Moving.replace (h : f.Moving) (hkept : f.Kept) (hlined : f.Lined capacity) {event : Event}
    {before after : List Stamped} {old : Stamped} (hline : f.queued event.phase = before ++ old :: after)
    (hpartner : old.event.coalescesWith event = true) : (f.replace event before old after).Moving := by
  by_cases hphase : event.phase = .input
  · let new : Stamped := ⟨event, f.pushes.length⟩
    have hmotion : event.isMotion = true := Event.motion_of_coalesces hphase hpartner
    have hold : old.event.isMotion = true := by
      rw [Event.coalescesWith_comm] at hpartner
      rw [← Event.coalescesWith_motion hmotion, hpartner]
    rw [hphase] at hline
    obtain ⟨hbefore, hafter⟩ := hlined.still_around hline hold
    have hqueued : (f.replace event before old after).queued .input = before ++ new :: after := by
      rw [← hphase]
      exact queued_setQueued_self ..
    have hlast := lastMotion_concat f.pushes ⟨event, .coalesced, some old.serial⟩
    have hnew : ¬still new = true := fun hnew => by cases (still_eq_true_iff.mp hnew).symm.trans hmotion
    apply h.push rfl
    · grind [still, replace]
    · intro hall
      have hall : (before ++ new :: after).all still := hqueued ▸ hall
      grind
    · intro x hx
      have hx : x ∈ (before ++ new :: after).takeWhile still := hqueued ▸ hx
      grind -linarith [h.led, takeWhile_append_of_pos, takeWhile_cons_of_neg]
  · have hmotion : event.isMotion = false := Bool.eq_false_iff.mpr fun hm => hphase (Event.phase_of_motion hm)
    refine h.quiet hkept (queued_setQueued_of_ne _ _ (Ne.symm hphase)) ?_
    rw [hmotion, Bool.false_and]

theorem Moving.deliver (h : f.Moving) (hkept : f.Kept) (hlined : f.Lined capacity) {front : Stamped}
    {rest : List Stamped} (hline : f.queued phase = front :: rest) : (f.deliver phase front rest).Moving := by
  have hmem : front ∈ f.queued phase := hline ▸ mem_cons_self
  have hown : front.event.phase = phase := hlined.own phase front hmem
  have hlt : front.serial < f.pushes.length := hkept.serial_lt (mem_append_right _ hmem)
  have hlast := lastDelivered_concat f.delivered ⟨front, f.pushes.length⟩
  have hpast : ∀ before (x : Delivery) after, f.delivered ++ [(⟨front, f.pushes.length⟩ : Delivery)] = before ++ x :: after →
      x.item.event.phase = .input → still x.item = true → Led f.pushes (lastDelivered before) x.item.serial := by
    intro before x after heq hphase hstill
    obtain rfl | ⟨init, last, rfl⟩ := after.eq_nil_or_concat'
    · grind -linarith [append_inj', h.ahead, takeWhile_cons_of_pos]
    · grind -linarith [append_inj', h.past]
  have htimes : ∀ x ∈ f.delivered ++ [(⟨front, f.pushes.length⟩ : Delivery)],
      x.pushes ≤ f.pushes.length ∧ x.item.serial ≤ f.pushes.length := by
    intro x hx
    obtain hx | hx := mem_append.mp hx
    · exact h.times x hx
    · rw [mem_singleton.mp hx]
      exact ⟨Nat.le_refl _, hlt.le⟩
  cases hmotion : front.event.isMotion with
  | true =>
    have hinput : phase = .input := hown.symm.trans (Event.phase_of_motion hmotion)
    subst hinput
    have hqueued : (f.deliver .input front rest).queued .input = rest := queued_setQueued_self f .input rest
    obtain ⟨-, hstill⟩ := hlined.still_around (hline.trans (nil_append _).symm) hmotion
    rw [hmotion, if_pos rfl] at hlast
    refine ⟨fun x hx hx' => ?_, fun _ => ?_, fun x hx => ?_, hpast, htimes⟩
    · rw [hqueued] at hx
      cases (still_eq_true_iff.mp (hstill x hx)).symm.trans hx'
    · exact (h.newest front hmem hmotion).trans
        (congrArg (Option.map fun delivery : Delivery => delivery.item.serial) hlast).symm
    · have hserial : x.serial ≤ f.pushes.length := (hkept.serial_lt (mem_append_right _
        (hline ▸ mem_cons_of_mem _ ((takeWhile_sublist _).subset hx)))).le
      change lastMotion f.pushes (max x.serial (((lastDelivered (f.delivered ++ [_])).map Delivery.pushes).getD 0)) = _
      rw [hlast]
      change lastMotion f.pushes (max x.serial f.pushes.length) = Option.map _ (lastDelivered (f.delivered ++ [_]))
      grind -linarith [h.newest]
  | false =>
    have hstill : still front = true := (still_eq_true_iff).mpr hmotion
    rw [hmotion, if_neg Bool.false_ne_true] at hlast
    -- what is left of the input has its motion in the same place
    have hleft : ((f.deliver phase front rest).queued .input).Sublist (f.queued .input)
        ∧ (((f.deliver phase front rest).queued .input).all still → (f.queued .input).all still)
        ∧ ∀ x ∈ ((f.deliver phase front rest).queued .input).takeWhile still, x ∈ (f.queued .input).takeWhile still := by
      by_cases hinput : phase = .input
      · subst hinput
        have hqueued : (f.deliver .input front rest).queued .input = rest := queued_setQueued_self f .input rest
        grind -linarith [takeWhile_cons_of_pos]
      · have hqueued : (f.deliver phase front rest).queued .input = f.queued .input :=
          queued_setQueued_of_ne _ _ (Ne.symm hinput)
        grind -linarith
    refine ⟨fun x hx hx' => h.newest x (hleft.1.subset hx) hx', fun hall => ?_, fun x hx => ?_, hpast, htimes⟩
    · exact (h.gone (hleft.2.1 hall)).trans (congrArg (Option.map _) hlast).symm
    · have hled := h.ahead x (hleft.2.2 x hx)
      rw [← hlast] at hled
      exact hled

theorem Moving.step (h : f.Moving) (hkept : f.Kept) (hlined : f.Lined capacity) (hstep : Step capacity f f') :
    f'.Moving := by
  grind +splitImp +splitIndPred [replace, enqueue, drop, h.quiet, deliver]

def total (f : Fifo) : Nat := (phaseOrder.map fun phase => (f.queued phase).length).sum

theorem total_setQueued (f : Fifo) (phase : Phase) (events : List Stamped) :
    (f.setQueued phase events).total + (f.queued phase).length = f.total + events.length := by
  have hother : ∀ other, other ≠ phase → (f.setQueued phase events).queued other = f.queued other :=
    fun _ hne => queued_setQueued_of_ne f events hne
  have hself : (f.setQueued phase events).queued phase = events := queued_setQueued_self f phase events
  rw [total, total]
  cases phase <;> simp only [phaseOrder, map_cons, map_nil, sum_cons, hself,
    hother, ne_eq, reduceCtorEq, not_false_eq_true] <;> omega

def Counted (f : Fifo) : Prop :=
  f.pushes.countP (fun push => push.result = .queued)
    = f.delivered.length + f.total

theorem Counted.step (h : f.Counted) (hstep : Step capacity f f') : f'.Counted := by
  have hcount : ∀ (pushes : List Push) (push : Push),
      (pushes ++ [push]).countP (fun push => push.result = .queued)
        = pushes.countP (fun push => push.result = .queued) + if push.result = .queued then 1 else 0 := by
    simp
  cases hstep with
  | @replace event before after old hline _ =>
    have htotal := total_setQueued f event.phase (before ++ ⟨event, f.pushes.length⟩ :: after)
    rw [hline, length_append, length_append] at htotal
    have htotal : (f.replace event before old after).total = f.total := Nat.add_right_cancel htotal
    change (f.pushes ++ [_]).countP _ = f.delivered.length + _
    rw [hcount, htotal]
    exact h
  | @enqueue event =>
    have htotal := total_setQueued f event.phase (f.queued event.phase ++ [⟨event, f.pushes.length⟩])
    rw [length_append] at htotal
    have htotal : (f.enqueue event).total = f.total + 1 := by
      change (f.setQueued _ _).total = _
      rw [length_singleton] at htotal
      omega
    change (f.pushes ++ [_]).countP _ = f.delivered.length + _
    rw [hcount, htotal]
    exact congrArg (· + 1) h
  | drop =>
    change (f.pushes ++ [_]).countP _ = f.delivered.length + f.total
    rw [hcount]
    exact h
  | @deliver phase front rest hline =>
    have htotal := total_setQueued f phase rest
    rw [hline, length_cons] at htotal
    have htotal : (f.deliver phase front rest).total + 1 = f.total := by
      change (f.setQueued _ _).total + 1 = _
      omega
    change f.pushes.countP _ = (f.delivered ++ [_]).length + _
    rw [length_append, length_singleton, Nat.add_assoc, Nat.add_comm 1, htotal]
    exact h

end Fifo

end TensorDE.EventLayer
