import TensorDE.Kdl.Replay

namespace TensorDE.Kdl

open Effect Utf8

variable {src : Source} {s t : Cursor} {σ : Type}

/-- From a state with `I` the visitor refuses nothing, and every state it comes to has `I`. -/
structure Accepts (visitor : NodeVisitor σ) (I : σ → Prop) : Prop where
  argument (v : σ) (offset : Nat) (typeName : Option Str) (value : Value) :
    I v → ∃ v', visitor.onArgumentAt v offset typeName value = .ok v' ∧ I v'
  property (v : σ) (offset : Nat) (key : Str) (typeName : Option Str) (value : Value) :
    I v → ∃ v', visitor.onPropertyAt v offset key typeName value = .ok (true, v') ∧ I v'
  child (v : σ) (node : Node) : I v → ∃ v', visitor.onChild v node = .ok v' ∧ I v'
  take (v : σ) (offset : Nat) (opts : Opts) (typeName : Option Str) (name : Str) : I v →
    (∃ v', visitor.takeChildAfterHeaderAt v offset opts typeName name = .ok (.declined v') ∧ I v') ∨
    ∃ child childOpts finish anchor,
      visitor.takeChildAfterHeaderAt v offset opts typeName name = .ok (.taken child childOpts finish anchor) ∧
        I child ∧ ∀ child', I child' → ∃ v', finish child' = .ok v' ∧ I v'
  childrenBegin (v : σ) : I v → ∃ v', visitor.onChildrenBegin v = .ok v' ∧ I v'
  childrenEnd (v : σ) : I v → ∃ v', visitor.onChildrenEnd v = .ok v' ∧ I v'

def DomNodeBuilder.Named (b : DomNodeBuilder) : Prop := b.name.isSome

theorem DomNodeBuilder.Named.finish {b : DomNodeBuilder} (h : b.Named) : ∃ node, b.finish = .ok node := by
  obtain ⟨name, hname⟩ := Option.isSome_iff_exists.mp h
  rw [DomNodeBuilder.finish, hname]
  exact ⟨_, rfl⟩

theorem domNodeBuilder_accepts : Accepts domNodeBuilder DomNodeBuilder.Named where
  argument _ _ _ _ hb := ⟨_, rfl, hb⟩
  property _ _ _ _ _ hb := ⟨_, rfl, hb⟩
  child _ _ hb := ⟨_, rfl, hb⟩
  take _ _ _ _ _ hb := .inl ⟨_, rfl, hb⟩
  childrenBegin _ hb := ⟨_, rfl, hb⟩
  childrenEnd _ hb := ⟨_, rfl, hb⟩

theorem countingVisitor_accepts : Accepts countingVisitor fun _ => True where
  argument _ _ _ _ _ := ⟨_, rfl, trivial⟩
  property _ _ _ _ _ _ := ⟨_, rfl, trivial⟩
  child _ _ _ := ⟨_, rfl, trivial⟩
  take _ _ _ _ _ _ := .inr ⟨_, _, _, _, rfl, trivial, fun _ _ => ⟨_, rfl, trivial⟩⟩
  childrenBegin _ _ := ⟨_, rfl, trivial⟩
  childrenEnd _ _ := ⟨_, rfl, trivial⟩

mutual

theorem replayEvent_accepts {σ : Type} {visitor : NodeVisitor σ} {I : σ → Prop} (h : Accepts visitor I) (opts : Opts)
    (v : σ) (hv : I v) : (event : Event) → ∃ v', replayEvent visitor opts v event = .ok v' ∧ I v'
  | .argument offset typeName value => by
    rw [replayEvent]
    exact h.argument v offset typeName value hv
  | .property offset key typeName value => by
    obtain ⟨v', hprop, hv'⟩ := h.property v offset key typeName value hv
    refine ⟨v', ?_, hv'⟩
    rw [replayEvent, hprop]
    rfl
  | .childrenBegin => by
    rw [replayEvent]
    exact h.childrenBegin v hv
  | .child offset typeName name events => by
    obtain ⟨v', htake, hv'⟩ | ⟨child, childOpts, finish, anchor, htake, hchild, hfinish⟩ :=
      h.take v offset opts typeName name hv
    · obtain ⟨builder, hbuild, hnamed⟩ :=
        replay_accepts domNodeBuilder_accepts opts ⟨typeName, some name, [], []⟩ rfl events
      obtain ⟨node, hnode⟩ := hnamed.finish
      obtain ⟨v'', hon, hv''⟩ := h.child v' node hv'
      grind [replayEvent_declined, except_ok_bind]
    · obtain ⟨child', hreplay, hchild'⟩ := replay_accepts h childOpts child hchild events
      obtain ⟨v', hv', hI⟩ := hfinish child' hchild'
      refine ⟨v', ?_, hI⟩
      rw [replayEvent_taken htake, hreplay]
      exact hv'
  | .childrenEnd => by
    rw [replayEvent]
    exact h.childrenEnd v hv

theorem replay_accepts {σ : Type} {visitor : NodeVisitor σ} {I : σ → Prop} (h : Accepts visitor I) (opts : Opts)
    (v : σ) (hv : I v) : (events : List Event) → ∃ v', replay visitor opts v events = .ok v' ∧ I v'
  | [] => ⟨v, by rw [replay], hv⟩
  | event :: events => by
    obtain ⟨v', hevent, hv'⟩ := replayEvent_accepts h opts v hv event
    obtain ⟨v'', hreplay, hv''⟩ := replay_accepts h opts v' hv' events
    grind [replay, except_ok_bind]

end

/-- A visitor that refuses nothing reads a body exactly when the recorder does, and
stops where it does. -/
theorem visitBody_accepts {visitor : NodeVisitor σ} {I : σ → Prop} (h : Accepts visitor I) (opts : Opts) {v : σ}
    (hv : I v) (hb : OnBoundary src s.index) : (∃ v' t, visitBody src true visitor opts v s = .ok v' t ∧ I v' ∧
        ∃ events u, visitBody src true recorder Opts.new [] s = .ok events u ∧ t.index = u.index) ∨
      (∃ e t, visitBody src true visitor opts v s = .error e t) ∧
        ∃ e t, visitBody src true recorder Opts.new [] s = .error e t := by
  have hreplays : Replays False visitor opts v (visitBody src true visitor opts v s)
      (visitBody src true recorder Opts.new [] s) :=
    visitBody_replays False visitor opts Opts.new v (fun h => h.elim) (.refl False s) hb
  cases hright : visitBody src true recorder Opts.new [] s with
  | ok events u =>
    obtain ⟨v'', hreplay, hv''⟩ := replay_accepts h opts v hv events
    rw [hright] at hreplays
    cases hleft : visitBody src true visitor opts v s with
    | ok v' t =>
      rw [hleft] at hreplays
      obtain rfl : v' = v'' := Except.ok.inj (hreplays.1.symm.trans hreplay)
      grind [hreplays.2.index]
    | error e t =>
      rw [hleft] at hreplays
      cases e with
      | error e => cases hreplays.1.symm.trans hreplay
      | panic | diverge => exact hreplays.elim
  | error e u =>
    rw [hright] at hreplays
    cases hleft : visitBody src true visitor opts v s with
    | ok v' t =>
      rw [hleft] at hreplays
      exact hreplays.elim
    | error e' t => exact .inr ⟨⟨e', t, rfl⟩, e, u, rfl⟩

theorem visitNode_run {visitor : NodeVisitor σ} {opts : Opts} {v : σ} (v' : σ) {header : Option Str × Str} {i : Nat}
    (hheader : parseNodeHeader src s.index = .ok header i)
    (hon : visitor.onHeaderAt v s.index header.1 header.2 = .ok v') :
    visitNode src true visitor opts v s = visitBody src true visitor opts v' { s with index := i } := by
  rw [visitNode, visitNodeWith, bind_run, lex_look (get_run s.index)]
  dsimp only
  rw [bind_run, lex_step hheader]
  dsimp only
  rw [hon]
  rfl

theorem visitNode_error {visitor : NodeVisitor σ} {opts : Opts} {v : σ} {e : Fault ErrorCtx} {i : Nat}
    (hheader : parseNodeHeader src s.index = .error e i) :
    visitNode src true visitor opts v s = .error e { s with index := i } := by
  have hlex : lex (parseNodeHeader src) s = .error e { s with index := i } := by rw [lex, hheader]
  rw [visitNode, visitNodeWith, bind_run, lex_look (get_run s.index)]
  dsimp only
  rw [bind_run, hlex]

/-- A node is skipped exactly when it can be read into a tree, and both end at one index. -/
theorem skipNode_iff_parseNode (src : Source) (s : Cursor) (hb : OnBoundary src s.index) :
    ((∃ t, skipNode src true s = .ok () t) ↔ ∃ node t, parseNode src s = .ok node t) ∧
      ∀ node t t', skipNode src true s = .ok () t → parseNode src s = .ok node t' → t.index = t'.index := by
  have hskip : skipNode src true s =
      (visitNode src true countingVisitor Opts.lenient .default >>= fun _ => pure ()) s := rfl
  have hparse : parseNode src s =
      (visitNode src true domNodeBuilder Opts.new .default >>= fun builder => call builder.finish) s := rfl
  rw [hskip, hparse, bind_run, bind_run]
  cases hheader : parseNodeHeader src s.index with
  | error e i =>
    rw [visitNode_error hheader, visitNode_error hheader]
    simp
  | ok header i =>
    have hbi : OnBoundary src i := ((parseNodeHeader_moves hb).of_ok hheader).1.2
    rw [visitNode_run { CountingVisitor.default with headers := 0 + 1 } hheader rfl,
      visitNode_run { DomNodeBuilder.default with typeName := header.1, name := some header.2 } hheader rfl]
    obtain ⟨v, t, hcount, -, events, u, hrec, htu⟩ | ⟨⟨e, t, hcount⟩, e', t', hrec⟩ :=
      visitBody_accepts (s := { s with index := i }) countingVisitor_accepts Opts.lenient
        (v := { CountingVisitor.default with headers := 0 + 1 }) trivial hbi
    all_goals
      obtain ⟨b, w, hdom, hnamed, events', u', hrec', hwu⟩ | ⟨⟨e₁, w, hdom⟩, e₂, w', hrec'⟩ :=
        visitBody_accepts (s := { s with index := i }) domNodeBuilder_accepts Opts.new
          (v := { DomNodeBuilder.default with typeName := header.1, name := some header.2 }) rfl hbi
      all_goals rw [hrec] at hrec'
    · obtain ⟨node, hnode⟩ := hnamed.finish
      cases hrec'
      rw [hcount, hdom]
      dsimp only
      rw [hnode]
      refine ⟨⟨fun _ => ⟨node, w, rfl⟩, fun _ => ⟨t, rfl⟩⟩, fun node' a b ha hb => ?_⟩
      cases ha
      cases hb
      exact htu.trans hwu.symm
    · cases hrec'
    · cases hrec'
    · rw [hcount, hdom]
      simp

theorem skipNode_iff_parseNode_at_start : ∃ src : Source, src.input = ['a', ' ', '/', '-', 'b', '{', '}'] ∧
      ((∃ t, skipNode src true Cursor.start = .ok () t) ↔ ∃ node t, parseNode src Cursor.start = .ok node t) := by
  let src : Source := ⟨['a', ' ', '/', '-', 'b', '{', '}'], false, 100, 100, 3⟩
  have hstart : OnBoundary src Cursor.start.index := (At.start src).boundary
  exact ⟨src, rfl, (skipNode_iff_parseNode src Cursor.start hstart).1⟩

end TensorDE.Kdl
