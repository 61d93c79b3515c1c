import TensorDE.Dbus.Routing

namespace TensorDE.Dbus

open Effect List

/-- A connection with its history: what arrived for the reader, what the calls
returned, and the abandoned serials, each with the number of messages that had
been delivered by then. -/
structure Trace (M : Type) where
  connection : Connection M
  arrived : List (Except Error M)
  delivered : List M
  abandoned : List (UInt32 × Nat)
  errors : List Error

def Trace.start {M : Type} : Trace M := ⟨.new, [], [], [], []⟩

section Histories

variable {M : Type} (view : M → Message)

def Command.arrivals : Command M → List (Except Error M)
  | .arrive item => [item]
  | _ => []

def Reply.deliveries : Reply M → List M
  | .delivered message => [message]
  | _ => []

def Reply.abandons : Reply M → List UInt32
  | .abandoned serial => [serial]
  | _ => []

def Trace.answered (t : Trace M) (command : Command M) (reply : Reply M) (after : Connection M) : Trace M where
  connection := after
  arrived := t.arrived ++ command.arrivals
  delivered := t.delivered ++ reply.deliveries
  abandoned := t.abandoned ++ reply.abandons.map fun serial => (serial, t.delivered.length)
  errors := t.errors

def Trace.failed (t : Trace M) (command : Command M) (e : Error) (after : Connection M) : Trace M :=
  { t with connection := after, arrived := t.arrived ++ command.arrivals, errors := t.errors ++ [e] }

inductive Trace.Reachable : Trace M → Prop where
  | start : Reachable .start
  | answered {t : Trace M} {command : Command M} {reply : Reply M} {after : Connection M} : Reachable t →
      exec view command t.connection = .ok reply after → Reachable (t.answered command reply after)
  | failed {t : Trace M} {command : Command M} {e : Error} {after : Connection M} : Reachable t →
      exec view command t.connection = .error (.error e) after → Reachable (t.failed command e after)

def repliesTo (serial : UInt32) (messages : List M) : Nat :=
  messages.countP fun message => (view message).replySerial = some serial

structure Accounted (t : Trace M) (reads dropped lost : List M) : Prop where
  consistent : t.connection.Consistent view
  items : ∃ items, t.arrived = items ++ t.connection.incoming ∧ messagesOf items = reads
  perm : reads.Perm (t.delivered ++ t.connection.pending ++ dropped ++ lost)
  order : t.connection.pending.Sublist reads
  droppedReply : ∀ message ∈ dropped, ∃ entry ∈ t.abandoned, isReplyTo view entry.1 message
  registered : ∀ serial ∈ t.connection.abandonedReplies, ∃ entry ∈ t.abandoned, entry.1 = serial
  routed : ∀ entry ∈ t.abandoned,
    entry.1 ∈ t.connection.abandonedReplies ∨ ∃ message ∈ dropped, isReplyTo view entry.1 message
  past : ∀ entry ∈ t.abandoned, entry.2 ≤ t.delivered.length
  silent : ∀ entry ∈ t.abandoned, ∀ message ∈ t.delivered.drop entry.2, isReplyTo view entry.1 message →
    2 ≤ repliesTo view entry.1 reads
  lost : lost = [] ∨ ∃ message, lost = [message] ∧ t.connection.Overflowed view message ∧
    ∃ e ∈ t.errors, IsOverflow e

variable {view} {t : Trace M} {reads dropped lost : List M} {after : Connection M}

theorem repliesTo_append (serial : UInt32) (messages more : List M) :
    repliesTo view serial (messages ++ more) = repliesTo view serial messages + repliesTo view serial more :=
  countP_append

variable {serial : UInt32} {message : M}

theorem repliesTo_pos {messages : List M} (h : message ∈ messages)
    (hreply : isReplyTo view serial message) : 0 < repliesTo view serial messages :=
  countP_pos_iff.mpr ⟨message, h, decide_eq_true hreply⟩

theorem accounted_start : Accounted view .start [] [] [] where
  consistent := ⟨rfl, Nat.zero_le _, Nat.zero_le _⟩
  items := ⟨[], rfl, rfl⟩
  perm := List.Perm.refl _
  order := List.Sublist.refl _
  droppedReply := by simp
  registered := by simp [Trace.start, Connection.new]
  routed := by simp [Trace.start]
  past := by simp [Trace.start]
  silent := by simp [Trace.start]
  lost := .inl rfl

theorem Accounted.moved (h : Accounted view t reads dropped []) {reads' delivered dropped' lost' : List M}
    (hm : Moved view t.connection after reads' delivered dropped' lost') {errors : List Error}
    (hlost : lost' = [] ∨ ∃ e ∈ errors, IsOverflow e) :
    Accounted view { t with connection := after, delivered := t.delivered ++ delivered, errors := errors }
      (reads ++ reads') (dropped ++ dropped') lost' := by
  have hperm : (reads ++ reads').Perm (t.delivered ++ delivered ++ after.pending ++ (dropped ++ dropped') ++ lost') := by
    classical
    rw [perm_iff_count]
    intro message
    have h1 := h.perm.count_eq message
    have h2 := hm.perm.count_eq message
    grind
  have hrouted : ∀ entry ∈ t.abandoned,
      entry.1 ∈ after.abandonedReplies ∨ ∃ message ∈ dropped ++ dropped', isReplyTo view entry.1 message := by
    intro entry hentry
    obtain hin | ⟨message, hmem, hreply⟩ := h.routed entry hentry
    · grind [hm.taken]
    · grind
  refine ⟨hm.consistent, ?_, hperm, ?_, ?_, ?_, hrouted, ?_, ?_, ?_⟩
  · grind [h.items, hm.items, messagesOf_append]
  · exact hm.order.trans (h.order.append_right reads')
  · grind [h.droppedReply, hm.dropped, h.registered]
  · grind [h.registered, hm.abandoned]
  · intro entry hentry
    have := h.past entry hentry
    rw [length_append]
    omega
  · intro entry hentry message hmem hreply
    rw [drop_append_of_le_length (h.past entry hentry)] at hmem
    obtain hold | hnew := mem_append.mp hmem
    · have := h.silent entry hentry message hold hreply
      rw [repliesTo_append]
      omega
    · -- the call's reply was dropped before, so this is a second one
      have hout := hm.delivered message hnew entry.1 hreply
      obtain hin | ⟨earlier, hdropped, hearlier⟩ := hrouted entry hentry
      · exact absurd hin hout
      · have h1 := repliesTo_pos hnew hreply
        have h2 := repliesTo_pos hdropped hearlier
        grind [repliesTo, hperm.countP_eq]
  grind [hm.lost]

/-- A change of the fields that routing does not use. -/
theorem Accounted.congr (h : Accounted view t reads dropped lost) (after : Connection M)
    (hin : after.incoming = t.connection.incoming)
    (hpending : after.pending = t.connection.pending) (hbytes : after.pendingBytes = t.connection.pendingBytes)
    (habandoned : after.abandonedReplies = t.connection.abandonedReplies)
    (hfailed : t.connection.routingFailed = true → after.routingFailed = true) (errors : List Error)
    (herrors : t.errors ⊆ errors) :
    Accounted view { t with connection := after, errors := errors } reads dropped lost := by
  refine ⟨?_, ?_, ?_, ?_, h.droppedReply, ?_, ?_, h.past, h.silent, ?_⟩
  · exact ⟨by simp only [hbytes, hpending, h.consistent.bytes], hbytes ▸ h.consistent.bytesLimit,
      hpending ▸ h.consistent.countLimit⟩
  · simpa only [hin] using h.items
  · simpa only [hpending] using h.perm
  · simpa only [hpending] using h.order
  · simpa only [habandoned] using h.registered
  · simpa only [habandoned] using h.routed
  grind -linarith [h.lost, Connection.Overflowed]

theorem Accounted.not_lost (h : Accounted view t reads dropped lost) (husable : t.connection.isUsable = true) :
    lost = [] := by
  obtain hnil | ⟨message, -, hover, -⟩ := h.lost
  · exact hnil
  · simp [Connection.isUsable, hover.1] at husable

def Accounts (view : M → Message) (t : Trace M) : Prop := ∃ reads dropped lost, Accounted view t reads dropped lost

/-- A command settles: it returns or fails with the account kept, and neither panics nor runs for ever. -/
def Settles (view : M → Message) (t : Trace M) (command : Command M) : Prop :=
  match exec view command t.connection with
  | .ok reply after => Accounts view (t.answered command reply after)
  | .error (.error e) after => Accounts view (t.failed command e after)
  | .error _ _ => False

theorem settles_arrive (h : Accounts view t) (item : Except Error M) : Settles view t (.arrive item) := by
  obtain ⟨reads, dropped, lost, h⟩ := h
  refine ⟨reads, dropped, lost, ?_⟩
  have hnext : t.answered (.arrive item) .done { t.connection with incoming := t.connection.incoming ++ [item] } =
      { t with
        connection := { t.connection with incoming := t.connection.incoming ++ [item] },
        arrived := t.arrived ++ [item] } := by
    simp [Trace.answered, Command.arrivals, Reply.deliveries, Reply.abandons]
  rw [hnext]
  obtain ⟨items, harrived, hreads⟩ := h.items
  exact { h with
    consistent := ⟨h.consistent.bytes, h.consistent.bytesLimit, h.consistent.countLimit⟩
    items := ⟨items, by rw [harrived, append_assoc], hreads⟩ }

theorem settles_routed (h : Accounts view t) {command : Command M} (hcommand : command.arrivals = [])
    {x : Op (Connection M) Error (Option M)} (hexec : exec view command = deliver <$> (do ensureUsable; x))
    (hx : t.connection.Consistent view → Routed view t.connection ((do ensureUsable; x) t.connection)) :
    Settles view t command := by
  obtain ⟨reads, dropped, lost, h⟩ := h
  have hrouted := hx h.consistent
  unfold Settles
  rw [hexec, map_run]
  cases husable : t.connection.isUsable with
  | false =>
    rw [bind_run, ensureUsable_run, husable]
    refine ⟨reads, dropped, lost, ?_⟩
    grind [Trace.failed, h.congr]
  | true =>
    obtain rfl := h.not_lost husable
    cases hrun : (do ensureUsable; x) t.connection with
    | ok found after =>
      rw [hrun] at hrouted
      obtain ⟨reads', dropped', hmoved⟩ := hrouted
      refine ⟨reads ++ reads', dropped ++ dropped', [], ?_⟩
      have hnext : t.answered command (deliver found) after =
          { t with connection := after, delivered := t.delivered ++ found.toList, errors := t.errors } := by
        cases found <;> simp [Trace.answered, hcommand, deliver, Reply.deliveries, Reply.abandons]
      rw [hnext]
      exact h.moved hmoved (.inl rfl)
    | error e after =>
      rw [hrun] at hrouted
      cases e with
      | error e =>
        obtain ⟨reads', dropped', lost', hmoved, hlost⟩ := hrouted
        refine ⟨reads ++ reads', dropped ++ dropped', lost', ?_⟩
        have hnext : t.failed command e after =
            { t with connection := after, delivered := t.delivered ++ [], errors := t.errors ++ [e] } := by
          simp [Trace.failed, hcommand]
        grind [h.moved]
      | panic => exact hrouted
      | diverge => exact hrouted

theorem sendCall_run (written : Written) (c : Connection M) : ∃ next failed,
    (∃ serial, sendCall written c = .ok serial { c with nextSerial := next, writerFailed := failed }) ∨
      ∃ e, sendCall written c = .error (.error e) { c with nextSerial := next, writerFailed := failed } := by
  by_cases hserial : c.nextSerial = 0
  · have hrun : sendCall written c = .error (.error .serialExhausted) c := by
      simp [sendCall, allocateSerial, hserial]
    exact ⟨c.nextSerial, c.writerFailed, .inr ⟨_, hrun⟩⟩
  have husable : Connection.isUsable { c with nextSerial := c.nextSerial + 1 } = c.isUsable := rfl
  cases hu : c.isUsable with
  | false =>
    refine ⟨c.nextSerial + 1, c.writerFailed, .inr ?_⟩
    cases written with
    | notEncoded e => exact ⟨e, by simp [sendCall, allocateSerial, hserial]⟩
    | done => exact ⟨.connectionUnusable, by simp [sendCall, allocateSerial, hserial, ensureUsable_run, husable, hu]⟩
    | refused e =>
      exact ⟨.connectionUnusable, by simp [sendCall, allocateSerial, hserial, ensureUsable_run, husable, hu]⟩
    | failed e =>
      exact ⟨.connectionUnusable, by simp [sendCall, allocateSerial, hserial, ensureUsable_run, husable, hu]⟩
  | true =>
    cases written with
    | notEncoded e => exact ⟨c.nextSerial + 1, c.writerFailed, .inr ⟨e, by simp [sendCall, allocateSerial, hserial]⟩⟩
    | done =>
      exact ⟨c.nextSerial + 1, c.writerFailed, .inl ⟨c.nextSerial,
        by simp [sendCall, allocateSerial, hserial, ensureUsable_run, husable, hu]⟩⟩
    | refused e =>
      exact ⟨c.nextSerial + 1, c.writerFailed, .inr ⟨e,
        by simp [sendCall, allocateSerial, hserial, ensureUsable_run, husable, hu]⟩⟩
    | failed e =>
      exact ⟨c.nextSerial + 1, true, .inr ⟨e,
        by simp [sendCall, allocateSerial, hserial, ensureUsable_run, husable, hu]⟩⟩

theorem settles_sendCall (h : Accounts view t) (written : Written) : Settles view t (.sendCall written) := by
  obtain ⟨reads, dropped, lost, h⟩ := h
  obtain ⟨next, failed, hrun⟩ := sendCall_run written t.connection
  have hkeep := fun errors => h.congr { t.connection with nextSerial := next, writerFailed := failed }
    rfl rfl rfl rfl id (t.errors ++ errors) (subset_append_left _ _)
  unfold Settles
  obtain ⟨serial, hrun⟩ | ⟨e, hrun⟩ := hrun
  · simp only [exec, map_run, hrun]
    refine ⟨reads, dropped, lost, ?_⟩
    simpa [Trace.answered, Command.arrivals, Reply.deliveries, Reply.abandons] using hkeep []
  · simp only [exec, map_run, hrun]
    refine ⟨reads, dropped, lost, ?_⟩
    simpa [Trace.failed, Command.arrivals] using hkeep [e]

theorem matchesReply_isReplyTo (h : matchesReply serial (view message) = true) : isReplyTo view serial message := by
  simp only [matchesReply, Bool.and_eq_true, decide_eq_true_eq] at h
  exact h.2

theorem answered_abandoned (t : Trace M) (serial : UInt32) (after : Connection M) :
    t.answered (.abandonReply serial) (.abandoned serial) after =
      { t with connection := after, abandoned := t.abandoned ++ [(serial, t.delivered.length)] } := by
  simp [Trace.answered, Command.arrivals, Reply.deliveries, Reply.abandons]

theorem Accounted.abandon_pending (h : Accounted view t reads dropped [])
    {index bytes : Nat} (hget : t.connection.pending[index]? = some message) (hreply : isReplyTo view serial message)
    (hc : Connection.Consistent view
      { t.connection with pending := t.connection.pending.eraseIdx index, pendingBytes := bytes }) :
    Accounted view
      { t with
        connection := { t.connection with
          pending := t.connection.pending.eraseIdx index, pendingBytes := bytes },
        abandoned := t.abandoned ++ [(serial, t.delivered.length)] } reads (dropped ++ [message]) [] := by
  have hperm : reads.Perm (t.delivered ++ t.connection.pending.eraseIdx index ++ (dropped ++ [message]) ++ []) := by
    classical
    rw [perm_iff_count]
    intro other
    have h1 := h.perm.count_eq other
    have h2 := (perm_of_getElem? hget).count_eq other
    grind
  refine ⟨hc, h.items, hperm, (eraseIdx_sublist _ _).trans h.order, ?_, ?_, ?_, ?_, ?_, .inl rfl⟩
  · intro other hmem
    obtain hmem | hmem := mem_append.mp hmem
    · obtain ⟨entry, hentry, hother⟩ := h.droppedReply other hmem
      grind
    · rw [mem_singleton.mp hmem]
      exact ⟨(serial, t.delivered.length), by simp, hreply⟩
  · intro serial' hserial'
    obtain ⟨entry, hentry, heq⟩ := h.registered serial' hserial'
    grind
  · intro entry hentry
    grind [h.routed]
  · grind +splitImp +splitIndPred
  · intro entry hentry other hother
    grind +splitImp +splitIndPred [drop_length]

theorem Accounted.abandon_later (h : Accounted view t reads dropped []) (serial : UInt32) :
    Accounted view
      { t with
        connection := { t.connection with abandonedReplies := insert serial t.connection.abandonedReplies },
        abandoned := t.abandoned ++ [(serial, t.delivered.length)] } reads dropped [] := by
  refine ⟨⟨h.consistent.bytes, h.consistent.bytesLimit, h.consistent.countLimit⟩, h.items, h.perm, h.order, ?_, ?_, ?_,
    ?_, ?_, .inl rfl⟩
  · grind -linarith +splitImp +splitIndPred [h.droppedReply]
  · grind +splitImp +splitIndPred [h.registered]
  · intro entry hentry
    grind [h.routed]
  · grind +splitImp +splitIndPred
  · intro entry hentry other hother
    grind +splitImp +splitIndPred

theorem settles_abandonReply (h : Accounts view t) (serial : UInt32) : Settles view t (.abandonReply serial) := by
  obtain ⟨reads, dropped, lost, h⟩ := h
  unfold Settles
  cases husable : t.connection.isUsable with
  | false =>
    have hrun : exec view (.abandonReply serial) t.connection = .error (.error .connectionUnusable) t.connection := by
      simp [exec, abandonReply, ensureUsable_run, husable]
    rw [hrun]
    refine ⟨reads, dropped, lost, ?_⟩
    grind [Trace.failed, Command.arrivals, h.congr]
  | true =>
    obtain rfl := h.not_lost husable
    cases hfind : t.connection.pending.findIdx? fun message => matchesReply serial (view message) with
    | some index =>
      obtain ⟨hlt, hmatch, -⟩ := findIdx?_eq_some_iff_getElem.mp hfind
      have hget : t.connection.pending[index]? = some t.connection.pending[index] := getElem?_eq_getElem hlt
      obtain ⟨bytes, hremove, hconsistent⟩ := removePending_run h.consistent hget
      have hrun : exec view (.abandonReply serial) t.connection = .ok (.abandoned serial)
          { t.connection with pending := t.connection.pending.eraseIdx index, pendingBytes := bytes } := by
        simp [exec, abandonReply, ensureUsable_run, husable, hfind, hremove]
      rw [hrun]
      refine ⟨reads, dropped ++ [t.connection.pending[index]], [], ?_⟩
      grind -linarith [answered_abandoned, h.abandon_pending, matchesReply_isReplyTo]
    | none =>
      by_cases hfull : t.connection.abandonedReplies.card = maxAbandonedReplies
      · have hrun : exec view (.abandonReply serial) t.connection =
            .error (.error (.abandonedReplyQueueFull maxAbandonedReplies))
              { t.connection with routingFailed := true } := by
          simp [exec, abandonReply, ensureUsable_run, husable, hfind, register, hfull]
        rw [hrun]
        refine ⟨reads, dropped, [], ?_⟩
        grind [Trace.failed, Command.arrivals, h.congr]
      · have hrun : exec view (.abandonReply serial) t.connection = .ok (.abandoned serial)
            { t.connection with abandonedReplies := insert serial t.connection.abandonedReplies } := by
          simp [exec, abandonReply, ensureUsable_run, husable, hfind, register, hfull]
        rw [hrun]
        refine ⟨reads, dropped, [], ?_⟩
        rw [answered_abandoned]
        exact h.abandon_later serial

theorem settles (h : Accounts view t) (command : Command M) : Settles view t command := by
  cases command with
  | arrive item => exact settles_arrive h item
  | receive => exact settles_routed h rfl rfl receiveMessage_routed
  | nextMatching predicate => exact settles_routed h rfl rfl (nextMatching_routed predicate)
  | sendCall written => exact settles_sendCall h written
  | abandonReply serial => exact settles_abandonReply h serial

theorem accounts_reachable (h : Trace.Reachable view t) : Accounts view t := by
  induction h with
  | start => exact ⟨[], [], [], accounted_start⟩
  | @answered t command reply after _ hrun ih =>
    have h := settles ih command
    rw [Settles, hrun] at h
    exact h
  | @failed t command e after _ hrun ih =>
    have h := settles ih command
    rw [Settles, hrun] at h
    exact h

end Histories

structure Routes {M : Type} (view : M → Message) (t : Trace M) (reads dropped lost : List M) : Prop where
  consistent : t.connection.Consistent view
  items : ∃ items, t.arrived = items ++ t.connection.incoming ∧ messagesOf items = reads
  perm : reads.Perm (t.delivered ++ t.connection.pending ++ dropped ++ lost)
  order : t.connection.pending.Sublist reads
  droppedReply : ∀ message ∈ dropped, ∃ entry ∈ t.abandoned, isReplyTo view entry.1 message
  lost : lost = [] ∨ ∃ message, lost = [message] ∧ t.connection.Overflowed view message ∧
    ∃ e ∈ t.errors, IsOverflow e
  silent : ∀ entry ∈ t.abandoned, repliesTo view entry.1 reads ≤ 1 →
    ∀ message ∈ t.delivered.drop entry.2, ¬ isReplyTo view entry.1 message
  settles : ∀ command, ∃ t', (∃ reply, exec view command t.connection = .ok reply t') ∨
    ∃ e, exec view command t.connection = .error (.error e) t'

/-- Every message that was read has been delivered once, is queued in the order of
arrival, or was dropped: as the reply to an abandoned call, or, at most once and for
good, because the queue was full. -/
theorem reachable_routes {M : Type} (view : M → Message) (t : Trace M) (h : Trace.Reachable view t) :
    ∃ reads dropped lost, Routes view t reads dropped lost := by
  have haccounts := accounts_reachable h
  obtain ⟨reads, dropped, lost, ha⟩ := haccounts
  refine ⟨reads, dropped, lost, ha.consistent, ha.items, ha.perm, ha.order, ha.droppedReply, ha.lost, ?_, ?_⟩
  · intro entry hentry honce message hmem hreply
    have htwo := ha.silent entry hentry message hmem hreply
    omega
  · intro command
    have hsettles := settles ⟨reads, dropped, lost, ha⟩ command
    unfold Settles at hsettles
    split at hsettles
    · rename_i reply after hrun
      exact ⟨after, .inl ⟨reply, hrun⟩⟩
    · rename_i e after hrun
      exact ⟨after, .inr ⟨e, hrun⟩⟩
    · exact hsettles.elim

section Runs

variable {M : Type}

def Trace.run (view : M → Message) : List (Command M) → Trace M → Option (Trace M)
  | [], t => some t
  | command :: rest, t =>
    match exec view command t.connection with
    | .ok reply after => Trace.run view rest (t.answered command reply after)
    | .error (.error e) after => Trace.run view rest (t.failed command e after)
    | .error _ _ => none

theorem reachable_run {view : M → Message} {commands : List (Command M)} {t t' : Trace M}
    (h : Trace.Reachable view t) (hrun : Trace.run view commands t = some t') : Trace.Reachable view t' := by
  induction commands generalizing t with
  | nil =>
    cases hrun
    exact h
  | cons command rest ih => grind [Trace.run, h.answered, h.failed]

end Runs

/-- A message of the given kind with a one-byte frame. -/
def shortMessage (kind : MessageKind) (replySerial : Option UInt32) : Message :=
  { blankMessage kind 0 1 .little [0] [] 0 0 with replySerial := replySerial }

def abandonedRun : List (Command Message) :=
  [.sendCall .done, .abandonReply 1, .arrive (.ok (shortMessage .methodReturn (some 1))),
    .arrive (.ok (shortMessage .signal none)), .receive]

theorem abandonedRun_routes : ∃ t, Trace.run id abandonedRun .start = some t ∧
    t.delivered = [shortMessage .signal none] ∧ ∃ reads dropped lost, Routes id t reads dropped lost := by
  have hrun : ((Trace.run id abandonedRun .start).map (·.delivered)) = some [shortMessage .signal none] := by
    decide +kernel
  obtain ⟨t, ht, hdelivered⟩ := Option.map_eq_some_iff.mp hrun
  exact ⟨t, ht, hdelivered, reachable_routes id t (reachable_run .start ht)⟩

/-- One signal more than the queue can hold, while a caller waits for something else. -/
def floodRun : List (Command Message) :=
  List.replicate (maxPendingMessages + 1) (Command.arrive (.ok (shortMessage .signal none))) ++ [Command.nextMatching fun _ => false]

section Flood

variable {message : Message} {c : Connection Message} {rest : List (Except Error Message)} {k : Nat}

theorem run_arrive (k : Nat) (commands : List (Command Message)) (t : Trace Message) :
    Trace.run id (replicate k (.arrive (.ok message)) ++ commands) t =
      Trace.run id commands { t with
        connection := { t.connection with incoming := t.connection.incoming ++ replicate k (.ok message) }
        arrived := t.arrived ++ replicate k (.ok message) } := by
  induction k generalizing t with
  | zero => simp only [replicate_zero, nil_append, append_nil]
  | succ k ih =>
    have harrive : exec id (.arrive (.ok message)) t.connection =
        .ok .done { t.connection with incoming := t.connection.incoming ++ [.ok message] } := rfl
    grind [Trace.run, Trace.answered, Command.arrivals, Reply.deliveries, Reply.abandons]

theorem run_failed {command : Command Message} {e : Error} {after : Connection Message} {t : Trace Message}
    (h : exec id command t.connection = .error (.error e) after) :
    Trace.run id [command] t = some (t.failed command e after) := by
  rw [Trace.run, h]
  rfl

theorem messagesOf_replicate (k : Nat) :
    messagesOf (replicate k (.ok message : Except Error Message)) = replicate k message := by
  induction k with
  | zero => rfl
  | succ k ih => exact congrArg (message :: ·) ih

theorem nextMatchingLoop_round (hmessage : message.replySerial = none) (husable : c.isUsable = true)
    (habandoned : c.abandonedReplies = ∅) (hincoming : c.incoming = .ok message :: rest) (rounds : Nat) :
    nextMatchingLoop id (fun _ => false) (rounds + 1) c =
      (queuePending id message >>= fun _ => nextMatchingLoop id (fun _ => false) rounds) { c with incoming := rest } := by
  have hfind : (c.pending.findIdx? fun _ => false) = none := by simp
  rw [nextMatchingLoop]
  simp only [bind_run, discardAbandonedPending, get_run, habandoned, if_true, pure_run, hfind, readMessage, ensureUsable,
    husable, hincoming, set_run, discardIfAbandonedReply, id_eq, hmessage, Bool.false_eq_true, if_false]

/-- Messages without a match fill the queue, and the one behind them is lost. -/
theorem nextMatchingLoop_flood (hmessage : message.replySerial = none) (husable : c.isUsable = true)
    (habandoned : c.abandonedReplies = ∅) (hincoming : c.incoming = replicate (k + 1) (.ok message))
    (hpending : c.pending.length + k = maxPendingMessages) (hbytes : c.pendingBytes + k * message.wireLen ≤ maxPendingBytes)
    (rounds : Nat) :
    ∃ c', nextMatchingLoop id (fun _ => false) (rounds + k + 1) c = .error (.error (.pendingQueueFull maxPendingMessages)) c' ∧
      c'.incoming = [] ∧ c'.pending = c.pending ++ replicate k message := by
  induction k generalizing c with
  | zero =>
    refine ⟨{ c with incoming := [], routingFailed := true }, ?_, rfl, by simp⟩
    rw [nextMatchingLoop_round hmessage husable habandoned hincoming]
    simp only [bind_run, queuePending, get_run, show c.pending.length = maxPendingMessages from hpending, if_true, set_run,
      fail_run, replicate_zero]
  | succ k ih =>
    have hspace : c.pending.length ≠ maxPendingMessages := by omega
    have hmax : maxPendingBytes < 2 ^ 64 := by decide
    rw [Nat.succ_mul] at hbytes
    have hsum : checkedAdd c.pendingBytes message.wireLen = some (c.pendingBytes + message.wireLen) := if_pos (by omega)
    have hfits : ¬ c.pendingBytes + message.wireLen > maxPendingBytes := by omega
    rw [nextMatchingLoop_round hmessage husable habandoned hincoming]
    simp only [bind_run, queuePending, get_run, hspace, if_false, id_eq, hsum, hfits, set_run]
    obtain ⟨c', hloop, hnone, hqueue⟩ := @ih { c with
        incoming := replicate (k + 1) (.ok message)
        pendingBytes := c.pendingBytes + message.wireLen
        pending := c.pending ++ [message] } husable habandoned rfl (by simpa using by omega)
      (by simpa using by omega)
    grind -linarith

end Flood

/-- The last signal is neither delivered nor queued, and no call was abandoned. -/
theorem floodRun_loses : ∃ t, Trace.Reachable id t ∧ ¬ ∃ reads dropped,
    (∃ items, t.arrived = items ++ t.connection.incoming ∧ messagesOf items = reads) ∧
    reads.Perm (t.delivered ++ t.connection.pending ++ dropped) ∧
    ∀ message ∈ dropped, ∃ entry ∈ t.abandoned, isReplyTo id entry.1 message := by
  let signal := shortMessage .signal none
  let items : List (Except Error Message) := List.replicate (maxPendingMessages + 1) (.ok signal)
  let flooded : Connection Message := { Connection.new with incoming := items }
  have hwire : maxPendingMessages * signal.wireLen ≤ maxPendingBytes := by decide +kernel
  have hbytes : flooded.pendingBytes + maxPendingMessages * signal.wireLen ≤ maxPendingBytes := by
    rw [show flooded.pendingBytes = 0 from rfl, Nat.zero_add]
    exact hwire
  have hrounds : flooded.incoming.length + 1 = 1 + maxPendingMessages + 1 := by
    rw [show flooded.incoming = items from rfl, length_replicate, Nat.add_comm maxPendingMessages]
  obtain ⟨c, hloop, hincoming, hpending⟩ := nextMatchingLoop_flood (k := maxPendingMessages)
    (show signal.replySerial = none from rfl) (show flooded.isUsable = true from rfl) rfl rfl (Nat.zero_add _) hbytes 1
  have hexec : exec id (.nextMatching fun _ => false) flooded =
      .error (.error (.pendingQueueFull maxPendingMessages)) c := by
    simp only [exec, map_run, nextMatching, bind_run, ensureUsable, get_run, show flooded.isUsable = true from rfl, if_true,
      pure_run, hrounds, hloop]
  have hrun : Trace.run id floodRun .start = _ :=
    (@run_arrive signal (maxPendingMessages + 1) [.nextMatching fun _ => false] .start).trans (run_failed hexec)
  refine ⟨_, reachable_run .start hrun, ?_⟩
  rintro ⟨reads, dropped, ⟨arrived, harrived, rfl⟩, hperm, hdropped⟩
  simp only [Trace.failed, Trace.start, Command.arrivals, append_nil, nil_append, hincoming] at harrived
  rw [← harrived, messagesOf_replicate] at hperm
  have hlength := hperm.length_eq
  cases dropped with
  | nil => grind [Trace.failed, Trace.start, Connection.new]
  | cons message dropped =>
    obtain ⟨entry, hentry, -⟩ := hdropped message mem_cons_self
    cases hentry

end TensorDE.Dbus
