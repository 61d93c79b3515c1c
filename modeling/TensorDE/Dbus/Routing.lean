import Mathlib.Data.List.Perm.Basic
import Mathlib.Algebra.BigOperators.Group.List.Basic
import TensorDE.Dbus.Connection

namespace TensorDE.Dbus

open Effect List

variable {M : Type} (view : M → Message)

def isReplyTo (serial : UInt32) (message : M) : Prop := (view message).replySerial = some serial

def queuedBytes (queue : List M) : Nat := (queue.map fun message => (view message).wireLen).sum

/-- The counter is the size of the queue, and both limits hold. -/
structure Connection.Consistent (connection : Connection M) : Prop where
  bytes : connection.pendingBytes = queuedBytes view connection.pending
  bytesLimit : connection.pendingBytes ≤ maxPendingBytes
  countLimit : connection.pending.length ≤ maxPendingMessages

def Connection.Overflowed (connection : Connection M) (message : M) : Prop :=
  connection.routingFailed = true ∧ (connection.pending.length = maxPendingMessages ∨
    maxPendingBytes < connection.pendingBytes + (view message).wireLen)

def messagesOf (items : List (Except Error M)) : List M := items.filterMap fun item =>
  match item with
  | .ok message => some message
  | .error _ => none

/-- What a call has done with the messages it took from the queue and the reader:
some were delivered, some dropped as replies nobody waits for, some lost. -/
structure Moved (before after : Connection M) (reads delivered dropped lost : List M) : Prop where
  consistent : after.Consistent view
  items : ∃ items, before.incoming = items ++ after.incoming ∧ messagesOf items = reads
  perm : (before.pending ++ reads).Perm (delivered ++ after.pending ++ dropped ++ lost)
  order : after.pending.Sublist (before.pending ++ reads)
  abandoned : after.abandonedReplies ⊆ before.abandonedReplies
  taken : ∀ serial ∈ before.abandonedReplies, serial ∉ after.abandonedReplies →
    ∃ message ∈ dropped, isReplyTo view serial message
  dropped : ∀ message ∈ dropped, ∃ serial ∈ before.abandonedReplies, isReplyTo view serial message
  delivered : ∀ message ∈ delivered, ∀ serial, isReplyTo view serial message → serial ∉ after.abandonedReplies
  lost : lost = [] ∨ ∃ message, lost = [message] ∧ after.Overflowed view message

variable {view} {before middle after : Connection M} {reads delivered dropped lost : List M}

theorem Moved.refl (h : before.Consistent view) : Moved view before before [] [] [] [] where
  consistent := h
  items := ⟨[], rfl, rfl⟩
  perm := by simp
  order := by simp
  abandoned := Finset.Subset.refl _
  taken := fun serial h h' => absurd h h'
  dropped := by simp
  delivered := by simp
  lost := .inl rfl

theorem messagesOf_append (items more : List (Except Error M)) :
    messagesOf (items ++ more) = messagesOf items ++ messagesOf more := filterMap_append

/-- A call that goes on after a part that delivered nothing and lost nothing. -/
theorem Moved.trans {reads' dropped' : List M} (h : Moved view before middle reads [] dropped [])
    (h' : Moved view middle after reads' delivered dropped' lost) :
    Moved view before after (reads ++ reads') delivered (dropped ++ dropped') lost where
  consistent := h'.consistent
  items := by
    grind [h.items, h'.items, messagesOf_append]
  perm := by
    classical
    rw [perm_iff_count]
    intro message
    have h1 := h.perm.count_eq message
    have h2 := h'.perm.count_eq message
    simp only [count_append, count_nil] at h1 h2 ⊢
    omega
  order := by
    grind [h.order.append_right, h'.order.trans]
  abandoned := h'.abandoned.trans h.abandoned
  taken := by
    intro serial hin hout
    by_cases hmid : serial ∈ middle.abandonedReplies
    · grind [h'.taken]
    grind [h.taken]
  dropped := by
    grind [h.dropped, h'.dropped, h.abandoned]
  delivered := h'.delivered
  lost := h'.lost

def IsOverflow (e : Error) : Prop := e = .pendingQueueFull maxPendingMessages ∨ e = .pendingBytesFull maxPendingBytes

/-- How a call may end from a consistent state: with an answer or an error, never
with a panic and never running for ever. A message is lost only by a call that
reports it. -/
def Routed (view : M → Message) (before : Connection M) :
    EStateM.Result (Fault Error) (Connection M) (Option M) → Prop
  | .ok result after => ∃ reads dropped, Moved view before after reads result.toList dropped []
  | .error (.error e) after => ∃ reads dropped lost, Moved view before after reads [] dropped lost ∧
      (lost = [] ∨ IsOverflow e)
  | .error _ _ => False

section Primitives

variable {message : M} {c : Connection M}

theorem ensureUsable_run (c : Connection M) : (ensureUsable : Op (Connection M) Error Unit) c =
    if c.isUsable then .ok () c else .error (.error .connectionUnusable) c := by
  cases h : c.isUsable <;> simp [ensureUsable, h]

/-- Reading takes the next item and changes nothing else but the reader's state. -/
theorem readMessage_run (hc : c.Consistent view) :
    (readMessage : Op (Connection M) Error (Option M)) c = .ok none c ∨
      (∃ message rest, c.incoming = .ok message :: rest ∧
        (readMessage : Op (Connection M) Error (Option M)) c = .ok (some message) { c with incoming := rest }) ∨
      ∃ e after, (readMessage : Op (Connection M) Error (Option M)) c = .error (.error e) after ∧
        Moved view c after [] [] [] [] := by
  cases husable : c.isUsable with
  | false =>
    exact .inr (.inr ⟨.connectionUnusable, c, by simp [readMessage, ensureUsable_run, husable], Moved.refl hc⟩)
  | true =>
    cases hin : c.incoming with
    | nil => exact .inl (by simp [readMessage, ensureUsable_run, husable, hin])
    | cons item rest =>
      cases item with
      | ok message => exact .inr (.inl ⟨message, rest, rfl, by simp [readMessage, ensureUsable_run, husable, hin]⟩)
      | error e =>
        refine .inr (.inr ⟨e, { c with incoming := rest, readerFailed := true },
          by simp [readMessage, ensureUsable_run, husable, hin], ?_⟩)
        exact { Moved.refl hc with
          consistent := ⟨hc.bytes, hc.bytesLimit, hc.countLimit⟩
          items := ⟨[.error e], hin, rfl⟩
          abandoned := Finset.Subset.refl _ }

theorem discardIfAbandonedReply_run (view : M → Message) (message : M) (c : Connection M) :
    ∃ taken after, discardIfAbandonedReply view message c = .ok taken after ∧
      (taken = true → ∃ serial ∈ c.abandonedReplies, isReplyTo view serial message ∧
        after = { c with abandonedReplies := c.abandonedReplies.erase serial }) ∧
      (taken = false → after = c ∧ ∀ serial, isReplyTo view serial message → serial ∉ c.abandonedReplies) := by
  cases hreply : (view message).replySerial with
  | none =>
    refine ⟨false, c, by simp [discardIfAbandonedReply, hreply], by simp, fun _ => ⟨rfl, ?_⟩⟩
    grind [isReplyTo]
  | some serial =>
    refine ⟨decide (serial ∈ c.abandonedReplies),
      { c with abandonedReplies := c.abandonedReplies.erase serial }, by simp [discardIfAbandonedReply, hreply],
      ?_, ?_⟩
    · intro h
      exact ⟨serial, by simpa using h, hreply, rfl⟩
    · intro h
      have hnot : serial ∉ c.abandonedReplies := by simpa using h
      refine ⟨by rw [Finset.erase_eq_of_notMem hnot], ?_⟩
      grind [isReplyTo]

variable {queue : List M} {index : Nat}

theorem queuedBytes_eraseIdx (view : M → Message) (h : queue[index]? = some message) :
    queuedBytes view queue = (view message).wireLen + queuedBytes view (queue.eraseIdx index) := by
  obtain ⟨hlt, rfl⟩ := List.getElem?_eq_some_iff.mp h
  have hperm := (getElem_cons_eraseIdx_perm hlt).map fun message => (view message).wireLen
  rw [queuedBytes, ← hperm.sum_eq, map_cons, sum_cons]
  rfl

/-- Removing from the queue never takes the counter below zero. -/
theorem removePending_run (hc : c.Consistent view) (h : c.pending[index]? = some message) :
    ∃ bytes, removePending view index c =
        .ok message { c with pending := c.pending.eraseIdx index, pendingBytes := bytes } ∧
      Connection.Consistent view { c with pending := c.pending.eraseIdx index, pendingBytes := bytes } := by
  have hbytes := queuedBytes_eraseIdx view h
  have hle : (view message).wireLen ≤ c.pendingBytes := by
    rw [hc.bytes, hbytes]
    omega
  refine ⟨c.pendingBytes - (view message).wireLen, by simp [removePending, h, subUsize, hle], ?_, ?_, ?_⟩
  · rw [hc.bytes, hbytes]
    simp
  · exact Nat.le_trans (Nat.sub_le _ _) hc.bytesLimit
  · exact Nat.le_trans (eraseIdx_sublist _ _).length_le hc.countLimit

theorem perm_of_getElem? (h : queue[index]? = some message) : queue.Perm (message :: queue.eraseIdx index) := by
  obtain ⟨hlt, rfl⟩ := List.getElem?_eq_some_iff.mp h
  exact (getElem_cons_eraseIdx_perm hlt).symm

theorem Moved.deliver_pending {index bytes : Nat} (h : c.pending[index]? = some message)
    (hclean : ∀ serial, isReplyTo view serial message → serial ∉ c.abandonedReplies)
    (hc : Connection.Consistent view { c with pending := c.pending.eraseIdx index, pendingBytes := bytes }) :
    Moved view c { c with pending := c.pending.eraseIdx index, pendingBytes := bytes } [] [message] [] [] where
  consistent := hc
  items := ⟨[], rfl, rfl⟩
  perm := by simpa using perm_of_getElem? h
  order := by simpa using eraseIdx_sublist c.pending index
  abandoned := Finset.Subset.refl _
  taken := fun serial hin hout => absurd hin hout
  dropped := by simp
  delivered := by simpa using hclean
  lost := .inl rfl

theorem mem_of_erase {serial serial' : UInt32} (hin : serial' ∈ c.abandonedReplies)
    (hout : serial' ∉ c.abandonedReplies.erase serial) : serial' = serial := by
  grind

/-- A queued reply to an abandoned call is dropped, and its serial is done with. -/
theorem Moved.drop_pending (bytes : Nat) {serial : UInt32} (h : c.pending[index]? = some message)
    (hserial : serial ∈ c.abandonedReplies) (hreply : isReplyTo view serial message)
    (hc : Connection.Consistent view { c with pending := c.pending.eraseIdx index, pendingBytes := bytes }) :
    Moved view c { c with
      pending := c.pending.eraseIdx index, pendingBytes := bytes,
      abandonedReplies := c.abandonedReplies.erase serial } [] [] [message] [] where
  consistent := ⟨hc.bytes, hc.bytesLimit, hc.countLimit⟩
  items := ⟨[], rfl, rfl⟩
  perm := by simpa using (perm_of_getElem? h).trans (perm_append_singleton _ _).symm
  order := by simpa using eraseIdx_sublist c.pending index
  abandoned := Finset.erase_subset _ _
  taken := fun serial' hin hout => ⟨message, by simp, mem_of_erase hin hout ▸ hreply⟩
  dropped := by simpa using ⟨serial, hserial, hreply⟩
  delivered := by simp
  lost := .inl rfl

section Incoming

variable {rest : List (Except Error M)} (hin : c.incoming = .ok message :: rest)
include hin

theorem Moved.deliver_read (hc : c.Consistent view)
    (hclean : ∀ serial, isReplyTo view serial message → serial ∉ c.abandonedReplies) :
    Moved view c { c with incoming := rest } [message] [message] [] [] where
  consistent := ⟨hc.bytes, hc.bytesLimit, hc.countLimit⟩
  items := ⟨[.ok message], hin, rfl⟩
  perm := by simp
  order := by simp
  abandoned := Finset.Subset.refl _
  taken := fun serial hin hout => absurd hin hout
  dropped := by simp
  delivered := by simpa using hclean
  lost := .inl rfl

theorem Moved.drop_read {serial : UInt32} (hc : c.Consistent view) (hserial : serial ∈ c.abandonedReplies)
    (hreply : isReplyTo view serial message) :
    Moved view c { c with incoming := rest, abandonedReplies := c.abandonedReplies.erase serial }
      [message] [] [message] [] where
  consistent := ⟨hc.bytes, hc.bytesLimit, hc.countLimit⟩
  items := ⟨[.ok message], hin, rfl⟩
  perm := by simp
  order := by simp
  abandoned := Finset.erase_subset _ _
  taken := fun serial' hin hout => ⟨message, by simp, mem_of_erase hin hout ▸ hreply⟩
  dropped := by simpa using ⟨serial, hserial, hreply⟩
  delivered := by simp
  lost := .inl rfl

theorem Moved.queue_read {bytes : Nat} (hc : Connection.Consistent view
      { c with incoming := rest, pendingBytes := bytes, pending := c.pending ++ [message] }) :
    Moved view c { c with incoming := rest, pendingBytes := bytes, pending := c.pending ++ [message] }
      [message] [] [] [] where
  consistent := hc
  items := ⟨[.ok message], hin, rfl⟩
  perm := by simp
  order := by simp
  abandoned := Finset.Subset.refl _
  taken := fun serial hin hout => absurd hin hout
  dropped := by simp
  delivered := by simp
  lost := .inl rfl

theorem Moved.lose_read (hc : c.Consistent view) (hfull : c.pending.length = maxPendingMessages ∨
      maxPendingBytes < c.pendingBytes + (view message).wireLen) :
    Moved view c { c with incoming := rest, routingFailed := true } [message] [] [] [message] where
  consistent := ⟨hc.bytes, hc.bytesLimit, hc.countLimit⟩
  items := ⟨[.ok message], hin, rfl⟩
  perm := by simp
  order := by simp
  abandoned := Finset.Subset.refl _
  taken := fun serial hin hout => absurd hin hout
  dropped := by simp
  delivered := by simp
  lost := .inr ⟨message, rfl, rfl, hfull⟩

/-- A message that is not for the caller goes to the back of the queue, or the
connection fails for good. -/
theorem queuePending_run (hc : c.Consistent view) :
    (∃ after, queuePending view message { c with incoming := rest } = .ok () after ∧
        Moved view c after [message] [] [] [] ∧ after.incoming = rest) ∨
      ∃ e after, queuePending view message { c with incoming := rest } = .error (.error e) after ∧
        Moved view c after [message] [] [] [message] ∧ IsOverflow e := by
  by_cases hcount : c.pending.length = maxPendingMessages
  · refine .inr ⟨.pendingQueueFull maxPendingMessages, { c with incoming := rest, routingFailed := true }, ?_,
      Moved.lose_read hin hc (.inl hcount), .inl rfl⟩
    simp [queuePending, hcount]
  cases hadd : checkedAdd c.pendingBytes (view message).wireLen with
  | none =>
    refine .inr ⟨.pendingBytesFull maxPendingBytes, { c with incoming := rest, routingFailed := true }, ?_,
      Moved.lose_read hin hc (.inr ?_), .inr rfl⟩
    · simp [queuePending, hcount, hadd]
    grind [checkedAdd, maxPendingBytes]
  | some bytes =>
    have hsum : bytes = c.pendingBytes + (view message).wireLen := by
      rw [checkedAdd, Option.ite_none_right_eq_some] at hadd
      exact (Option.some.inj hadd.2).symm
    by_cases hbytes : bytes > maxPendingBytes
    · refine .inr ⟨.pendingBytesFull maxPendingBytes, { c with incoming := rest, routingFailed := true }, ?_,
        Moved.lose_read hin hc (.inr (hsum ▸ hbytes)), .inr rfl⟩
      simp [queuePending, hcount, hadd, hbytes]
    · have hafter : Connection.Consistent view
          { c with incoming := rest, pendingBytes := bytes, pending := c.pending ++ [message] } := by
        refine ⟨?_, Nat.le_of_not_lt hbytes, ?_⟩
        · simp [queuedBytes, hsum, hc.bytes]
        · grind [hc.countLimit]
      exact .inl ⟨_, by simp [queuePending, hcount, hadd, hbytes], Moved.queue_read hin hafter, rfl⟩

end Incoming

/-- The scan drops the queued replies to abandoned calls; no other message that is
left waits for one. -/
theorem discardLoop_run (rest done : List M) (hc : c.Consistent view) (hpending : c.pending = done ++ rest)
    (hdone : ∀ message ∈ done, ∀ serial, isReplyTo view serial message → serial ∉ c.abandonedReplies) :
    ∃ after dropped, discardLoop view done rest c = .ok () after ∧ Moved view c after [] [] dropped [] ∧
      after.incoming = c.incoming ∧
      ∀ message ∈ after.pending, ∀ serial, isReplyTo view serial message → serial ∉ after.abandonedReplies := by
  induction rest generalizing c done with
  | nil =>
    refine ⟨c, [], rfl, Moved.refl hc, rfl, ?_⟩
    rw [hpending, append_nil]
    exact hdone
  | cons message rest ih =>
    obtain ⟨taken, after, hrun, htaken, hfree⟩ := discardIfAbandonedReply_run view message c
    cases taken with
    | true =>
      obtain ⟨serial, hserial, hreply, rfl⟩ := htaken rfl
      have hget : c.pending[done.length]? = some message := by simp [hpending]
      obtain ⟨bytes, hremove, hconsistent⟩ := removePending_run
        (c := { c with abandonedReplies := c.abandonedReplies.erase serial })
        ⟨hc.bytes, hc.bytesLimit, hc.countLimit⟩ hget
      have hmoved := Moved.drop_pending bytes hget hserial hreply
        ⟨hconsistent.bytes, hconsistent.bytesLimit, hconsistent.countLimit⟩
      obtain ⟨final, dropped, hloop, hmoved', hin', hclean⟩ := ih done hmoved.consistent
        (by grind)
        (fun m hm s hs hmem => hdone m hm s hs (Finset.erase_subset _ _ hmem))
      exact ⟨final, _, by simp [discardLoop, hrun, hremove, hloop], hmoved.trans hmoved', hin', hclean⟩
    | false =>
      obtain ⟨rfl, hfree⟩ := hfree rfl
      obtain ⟨final, dropped, hloop, hmoved, hin, hclean⟩ := ih (done ++ [message]) hc (by simp [hpending]) (by
        grind)
      exact ⟨final, dropped, by simp [discardLoop, hrun, hloop], hmoved, hin, hclean⟩

theorem discardAbandonedPending_run (hc : c.Consistent view) :
    ∃ after dropped, discardAbandonedPending view c = .ok () after ∧ Moved view c after [] [] dropped [] ∧
      after.incoming = c.incoming ∧
      ∀ message ∈ after.pending, ∀ serial, isReplyTo view serial message → serial ∉ after.abandonedReplies := by
  by_cases h : c.abandonedReplies = ∅
  · exact ⟨c, [], by simp [discardAbandonedPending, h], Moved.refl hc, rfl, by simp [h]⟩
  · obtain ⟨after, dropped, hrun, hrest⟩ := discardLoop_run c.pending [] hc rfl (by simp)
    exact ⟨after, dropped, by simp [discardAbandonedPending, h, hrun], hrest⟩

end Primitives

section Calls

variable {c : Connection M}

theorem Routed.of_moved {result : EStateM.Result (Fault Error) (Connection M) (Option M)}
    (h : Moved view before middle reads [] dropped []) (h' : Routed view middle result) : Routed view before result := by
  cases result with
  | ok found after =>
    obtain ⟨reads', dropped', hmoved⟩ := h'
    exact ⟨_, _, h.trans hmoved⟩
  | error e after =>
    cases e with
    | error e =>
      obtain ⟨reads', dropped', lost', hmoved, hlost⟩ := h'
      exact ⟨_, _, _, h.trans hmoved, hlost⟩
    | panic => exact h'
    | diverge => exact h'

variable {rounds : Nat} (predicate : Message → Bool)

theorem nextMatchingLoop_routed (hc : c.Consistent view)
    (hrounds : c.incoming.length < rounds) : Routed view c (nextMatchingLoop view predicate rounds c) := by
  induction rounds generalizing c with
  | zero => omega
  | succ rounds ih =>
    obtain ⟨c1, dropped, hdiscard, hmoved, hin, hclean⟩ := discardAbandonedPending_run hc
    refine Routed.of_moved hmoved ?_
    rw [← hin] at hrounds
    have hc1 := hmoved.consistent
    cases hfind : c1.pending.findIdx? fun message => predicate (view message) with
    | some index =>
      obtain ⟨hlt, -, -⟩ := findIdx?_eq_some_iff_getElem.mp hfind
      have hget : c1.pending[index]? = some c1.pending[index] := getElem?_eq_getElem hlt
      obtain ⟨bytes, hremove, hconsistent⟩ := removePending_run hc1 hget
      have hrun : nextMatchingLoop view predicate (rounds + 1) c = .ok (some c1.pending[index])
          { c1 with pending := c1.pending.eraseIdx index, pendingBytes := bytes } := by
        simp [nextMatchingLoop, hdiscard, hfind, hremove]
      rw [hrun]
      exact ⟨[], [], Moved.deliver_pending hget (hclean _ (getElem_mem hlt)) hconsistent⟩
    | none =>
      obtain hread | ⟨message, rest, hnext, hread⟩ | ⟨e, c2, hread, hfailed⟩ := readMessage_run hc1
      · have hrun : nextMatchingLoop view predicate (rounds + 1) c = .ok none c1 := by
          simp [nextMatchingLoop, hdiscard, hfind, hread]
        rw [hrun]
        exact ⟨[], [], Moved.refl hc1⟩
      swap
      · have hrun : nextMatchingLoop view predicate (rounds + 1) c = .error (.error e) c2 := by
          simp [nextMatchingLoop, hdiscard, hfind, hread]
        rw [hrun]
        exact ⟨[], [], [], hfailed, .inl rfl⟩
      have hshort : rest.length < rounds := by
        rw [hnext, length_cons] at hrounds
        omega
      obtain ⟨taken, c3, htake, htaken, hfree⟩ :=
        discardIfAbandonedReply_run view message { c1 with incoming := rest }
      cases taken with
      | true =>
        obtain ⟨serial, hserial, hreply, rfl⟩ := htaken rfl
        have hdrop := Moved.drop_read hnext hc1 hserial hreply
        have hrest := Routed.of_moved hdrop (ih hdrop.consistent hshort)
        simpa [nextMatchingLoop, hdiscard, hfind, hread, htake] using hrest
      | false =>
        obtain ⟨rfl, hclean⟩ := hfree rfl
        by_cases hmatch : predicate (view message) = true
        · have hrun : nextMatchingLoop view predicate (rounds + 1) c = .ok (some message) { c1 with incoming := rest } := by
            simp [nextMatchingLoop, hdiscard, hfind, hread, htake, hmatch]
          rw [hrun]
          exact ⟨[message], [], Moved.deliver_read hnext hc1 hclean⟩
        · obtain ⟨c4, hqueue, hqueued, hin4⟩ | ⟨e, c4, hqueue, hlost, hover⟩ := queuePending_run hnext hc1
          · have hrest := Routed.of_moved hqueued (ih hqueued.consistent (by rwa [hin4]))
            simpa [nextMatchingLoop, hdiscard, hfind, hread, htake, hmatch, hqueue] using hrest
          · have hrun : nextMatchingLoop view predicate (rounds + 1) c = .error (.error e) c4 := by
              simp [nextMatchingLoop, hdiscard, hfind, hread, htake, hmatch, hqueue]
            rw [hrun]
            exact ⟨[message], [], [message], hlost, .inr hover⟩

theorem popPending_eq (c : Connection M) : popPending view c =
    match c.pending with
    | [] => .ok none c
    | _ :: _ => (some <$> removePending view 0) c := by
  cases hp : c.pending with
  | nil => simp [popPending, hp]
  | cons message rest =>
    by_cases hle : (view message).wireLen ≤ c.pendingBytes <;>
      simp [popPending, removePending, hp, subUsize, hle]

section

variable (hc : c.Consistent view)
include hc

theorem receiveLoop_routed (hrounds : c.pending.length + c.incoming.length < rounds) : Routed view c (receiveLoop view rounds c) := by
  induction rounds generalizing c with
  | zero => omega
  | succ rounds ih =>
    cases hp : c.pending with
    | cons message queue =>
      have hget : c.pending[0]? = some message := by simp [hp]
      obtain ⟨bytes, hremove, hconsistent⟩ := removePending_run hc hget
      have hpop : popPending view c =
          .ok (some message) { c with pending := c.pending.eraseIdx 0, pendingBytes := bytes } := by
        rw [popPending_eq, hp]
        simp [hremove, hp]
      obtain ⟨taken, c1, htake, htaken, hfree⟩ := discardIfAbandonedReply_run view message
        { c with pending := c.pending.eraseIdx 0, pendingBytes := bytes }
      cases taken with
      | true =>
        obtain ⟨serial, hserial, hreply, rfl⟩ := htaken rfl
        have hdrop := Moved.drop_pending bytes hget hserial hreply hconsistent
        have hrest := Routed.of_moved hdrop (ih hdrop.consistent (by simp [hp] at hrounds ⊢; omega))
        simpa [receiveLoop, hpop, htake, -eraseIdx_zero] using hrest
      | false =>
        obtain ⟨rfl, hclean⟩ := hfree rfl
        have hrun : receiveLoop view (rounds + 1) c =
            .ok (some message) { c with pending := c.pending.eraseIdx 0, pendingBytes := bytes } := by
          simp [receiveLoop, hpop, htake, -eraseIdx_zero]
        rw [hrun]
        exact ⟨[], [], Moved.deliver_pending hget hclean hconsistent⟩
    | nil =>
      have hpop : popPending view c = .ok none c := by rw [popPending_eq, hp]
      obtain hread | ⟨message, rest, hnext, hread⟩ | ⟨e, c2, hread, hfailed⟩ := readMessage_run hc
      · have hrun : receiveLoop view (rounds + 1) c = .ok none c := by simp [receiveLoop, hpop, hread]
        rw [hrun]
        exact ⟨[], [], Moved.refl hc⟩
      swap
      · have hrun : receiveLoop view (rounds + 1) c = .error (.error e) c2 := by simp [receiveLoop, hpop, hread]
        rw [hrun]
        exact ⟨[], [], [], hfailed, .inl rfl⟩
      obtain ⟨taken, c3, htake, htaken, hfree⟩ :=
        discardIfAbandonedReply_run view message { c with incoming := rest }
      cases taken with
      | true =>
        obtain ⟨serial, hserial, hreply, rfl⟩ := htaken rfl
        have hdrop := Moved.drop_read hnext hc hserial hreply
        have hrest := Routed.of_moved hdrop (ih hdrop.consistent (by simp [hnext] at hrounds ⊢; omega))
        simpa [receiveLoop, hpop, hread, htake] using hrest
      | false =>
        obtain ⟨rfl, hclean⟩ := hfree rfl
        have hrun : receiveLoop view (rounds + 1) c = .ok (some message) { c with incoming := rest } := by
          simp [receiveLoop, hpop, hread, htake]
        rw [hrun]
        exact ⟨[message], [], Moved.deliver_read hnext hc hclean⟩

theorem unusable_routed {x : Op (Connection M) Error (Option M)}
    (h : Routed view c (x c)) : Routed view c ((do ensureUsable; x) c) := by
  cases husable : c.isUsable with
  | false =>
    rw [bind_run, ensureUsable_run, husable]
    exact ⟨[], [], [], Moved.refl hc, .inl rfl⟩
  | true =>
    rw [bind_run, ensureUsable_run, husable]
    exact h

theorem nextMatching_routed : Routed view c (nextMatching view predicate c) :=
  unusable_routed hc (nextMatchingLoop_routed predicate hc (Nat.lt_succ_self _))

theorem receiveMessage_routed : Routed view c (receiveMessage view c) :=
  unusable_routed hc (receiveLoop_routed hc (Nat.lt_succ_self _))

end

end Calls

end TensorDE.Dbus
