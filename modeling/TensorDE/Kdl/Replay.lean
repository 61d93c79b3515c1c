import TensorDE.Kdl.Events
import TensorDE.Kdl.ReaderBounds

set_option linter.dupNamespace false

namespace TensorDE.Kdl

open Effect Utf8 List

variable {src : Source} {s s' t t' u : Cursor} {α β γ δ σ : Type}

section Recorder

variable {dom : Bool} {body : Drive} {opts : Opts} {events : List Event}

theorem visitPropOrArg_records (s : Cursor) : Yields (events <+: ·) (visitPropOrArg src recorder opts events s) := by
  refine .then fun offset t => .then fun entry u => ?_
  cases entry with
  | argument typeName value => exact prefix_append ..
  | property key typeName value => exact prefix_append ..

theorem visitChild_records (s : Cursor) (offset : Nat) (typeName : Option Str) (name : Str) :
    Yields (events <+: ·) (visitChild src dom body recorder opts events offset typeName name s) := by
  refine .step (x := call _) (pure_run _ s) (.then fun nested t => ?_)
  exact prefix_append ..

theorem childrenRound_records (s : Cursor) :
    Yields (Round.All (events <+: ·) (events <+: ·)) (childrenRound src dom body recorder opts events s) := by
  refine .then fun _ _ => .then fun atEnd _ => ?_
  split
  · trivial
  refine .then fun _ _ => ?_
  split
  · exact prefix_rfl
  refine .then fun _ _ => ?_
  split
  · exact .then fun _ _ => prefix_rfl
  refine .then fun offset _ => .then fun header t => ?_
  obtain ⟨typeName, name⟩ := header
  exact (visitChild_records t offset typeName name).bind fun inner u hinner => hinner

variable {rounds : Nat}

theorem childrenLoop_records (s : Cursor) :
    Yields (events <+: ·) (loop (childrenRound src dom body recorder opts) rounds events s) := by
  refine loop_yields (P := (events <+: ·)) (fun inner t hinner => ?_) prefix_rfl
  exact (childrenRound_records t).mono fun r hr => hr.mono (fun _ h => hinner.trans h) fun _ h => hinner.trans h

theorem visitChildrenBlock_records (s : Cursor) :
    Yields (events <+: ·) (visitChildrenBlock src dom body recorder opts events s) := by
  refine .then fun _ _ => ?_
  split
  · trivial
  refine .then fun _ _ => .then fun _ _ => .then fun _ _ => .always ?_
  exact (childrenLoop_records _).bind fun inner t hinner => .then fun _ _ => hinner

variable (b : BodyState (List Event))

theorem bodyRound_records (s : Cursor) :
    Yields (Round.All (b.visitor <+: ·.visitor) (b.visitor <+: ·)) (bodyRound src dom body recorder opts b s) := by
  refine .then fun spaceBefore _ => .then fun _ _ => ?_
  split
  · refine .then fun _ _ => .then fun _ _ => .then fun _ _ => ?_
    split
    · exact .then fun _ _ => prefix_rfl
    split
    · trivial
    · exact .then fun _ _ => prefix_rfl
  refine .then fun next _ => ?_
  split
  · exact prefix_rfl
  split
  · exact .then fun _ _ => prefix_rfl
  split
  · rw [childrenBlockRound]
    split
    · trivial
    refine .step (x := call _) (pure_run _ _) ?_
    refine (visitChildrenBlock_records _).bind fun inner t hinner => ?_
    exact (prefix_append ..).trans (hinner.trans (prefix_append ..))
  refine .then fun _ _ => ?_
  split
  · exact .then fun _ _ => prefix_rfl
  split
  · exact .then fun _ _ => prefix_rfl
  refine .then fun _ _ => ?_
  split
  · exact prefix_rfl
  split
  · trivial
  split
  · trivial
  · exact (visitPropOrArg_records _).bind fun inner t hinner => hinner

theorem bodyLoop_records (s : Cursor) :
    Yields (b.visitor <+: ·) (loop (bodyRound src dom body recorder opts) rounds b s) := by
  refine loop_yields (P := (b.visitor <+: ·.visitor)) (fun inner t hinner => ?_) prefix_rfl
  exact (bodyRound_records inner t).mono fun r hr => hr.mono (fun _ h => hinner.trans h) fun _ h => hinner.trans h

end Recorder

/-- Two runs stand at one place. With `keep` they have left the same trail. -/
structure Abreast (keep : Prop) (s' s : Cursor) : Prop where
  index : s'.index = s.index
  depth : s'.depth = s.depth
  trail : keep → s'.trail = s.trail

variable {keep : Prop}

theorem Abreast.eq (h : Abreast keep s' s) (hkeep : keep) : s' = s := by
  obtain ⟨index, depth, trail⟩ := s'
  obtain ⟨rfl, rfl, htrail⟩ := h
  have htrail : trail = s.trail := htrail hkeep
  rw [htrail]

theorem Abreast.refl (keep : Prop) (s : Cursor) : Abreast keep s s := ⟨rfl, rfl, fun _ => rfl⟩

theorem Abreast.move (h : Abreast keep s' s) (i : Nat) :
    Abreast keep { s' with index := i } { s with index := i } := ⟨rfl, h.depth, h.trail⟩

/-- A run and the one it goes along with: they return values with `P` at one place,
or the first has failed with an error that goes with the second one's value, or both
have failed. A run that fails first has left the end of the other one's trail. -/
def Tracks (keep : Prop) (P : α → β → Prop) (E : ErrorCtx → β → Prop) :
    EStateM.Result (Fault ErrorCtx) Cursor α → EStateM.Result (Fault ErrorCtx) Cursor β → Prop
  | .ok a t', .ok b t => P a b ∧ Abreast keep t' t
  | .error (.error e) t', .ok b t => E e b ∧ (keep → t'.trail <:+ t.trail)
  | .error (.error _) t', .error (.error _) t => keep → t'.trail <:+ t.trail
  | _, _ => False

section Tracks

variable {keep : Prop} {P : α → β → Prop} {E : ErrorCtx → β → Prop} {P' : γ → δ → Prop} {E' : ErrorCtx → δ → Prop}
  {x : Reader α} {y : Reader β} {f : α → Reader γ} {g : β → Reader δ}

theorem Steady.trail_suffix (h : Steady src s t) : s.trail <:+ t.trail := by
  grind [h.entered]

theorem Tracks.failed {e : ErrorCtx} {r : EStateM.Result (Fault ErrorCtx) Cursor δ} {Q : δ → Cursor → Prop}
    (htrail : keep → t'.trail <:+ t.trail) (hreads : Reads src t Q r) (hyields : Yields (E' e) r) :
    Tracks (α := γ) keep P' E' (.error (.error e) t') r := by
  cases r with
  | ok d u => exact ⟨hyields, fun h => (htrail h).trans hreads.1.trail_suffix⟩
  | error f u =>
    cases f with
    | error f => exact fun h => (htrail h).trans (Steady.trail_suffix hreads)
    | panic | diverge => exact hreads.elim

theorem Tracks.bind (src : Source) {Q : δ → Cursor → Prop} (h : Tracks keep P E (x s') (y s))
    (hok : ∀ a b t' t, y s = .ok b t → P a b → Abreast keep t' t → Tracks keep P' E' (f a t') (g b t))
    (hfail : ∀ e b t, y s = .ok b t → E e b → Reads src t Q (g b t) ∧ Yields (E' e) (g b t)) :
    Tracks keep P' E' ((x >>= f) s') ((y >>= g) s) := by
  rw [bind_run, bind_run]
  cases hx : x s' with
  | ok a t' =>
    cases hy : y s with
    | ok b t =>
      rw [hx, hy] at h
      exact hok a b t' t hy h.1 h.2
    | error e t =>
      rw [hx, hy] at h
      exact h.elim
  | error e t' =>
    cases e with
    | error e =>
      cases hy : y s with
      | ok b t =>
        rw [hx, hy] at h
        obtain ⟨hreads, hyields⟩ := hfail e b t hy h.1
        exact .failed h.2 hreads hyields
      | error e t =>
        rw [hx, hy] at h
        cases e <;> exact h
    | panic | diverge =>
      rw [hx] at h
      cases hy : y s <;> exact (hy ▸ h).elim

variable {r : EStateM.Result (Fault ErrorCtx) Cursor β}

theorem Tracks.andThen {P' : γ → β → Prop} {E' : ErrorCtx → β → Prop} (h : Tracks keep P E (x s') r)
    (hok : ∀ a b t' t, P a b → Abreast keep t' t → Tracks keep P' E' (f a t') (.ok b t))
    (hfail : ∀ e b, E e b → E' e b) : Tracks keep P' E' ((x >>= f) s') r := by
  rw [bind_run]
  cases hx : x s' with
  | ok a t' =>
    rw [hx] at h
    cases r with
    | ok b t => exact hok a b t' t h.1 h.2
    | error e t => exact h.elim
  | error e t' =>
    rw [hx] at h
    cases e with
    | error e =>
      cases r with
      | ok b t => exact ⟨hfail e b h.1, h.2⟩
      | error e t => cases e <;> exact h
    | panic | diverge => cases r <;> exact h.elim

variable {b : β}

theorem Tracks.call {r : Except ErrorCtx α} (hs : Abreast keep s' s) (hok : ∀ a, r = .ok a → P a b)
    (herror : ∀ e, r = .error e → E e b) : Tracks keep P E (call r s') (.ok b s) := by
  cases r with
  | ok a => exact ⟨hok a rfl, hs⟩
  | error e => exact ⟨herror e rfl, fun h => (hs.trail h) ▸ suffix_rfl⟩

variable {Q : α → Nat → Prop}

/-- A step that is the same in both runs and moves only the index. -/
theorem Tracks.lex {x : Lex α} {g : α → Reader δ} (hs : Abreast keep s' s)
    (hx : Moves src s.index Q (x s.index))
    (hok : ∀ a i, s.index ≤ i → OnBoundary src i → Q a i →
      Tracks keep P' E' (f a { s' with index := i }) (g a { s with index := i })) :
    Tracks keep P' E' ((lex x >>= f) s') ((lex x >>= g) s) := by
  rw [bind_run, bind_run, Kdl.lex, Kdl.lex, hs.index]
  cases hr : x s.index with
  | ok a i =>
    rw [hr] at hx
    exact hok a i hx.1.1 hx.1.2 hx.2
  | error e i =>
    rw [hr] at hx
    cases e with
    | error e => exact fun h => (hs.trail h) ▸ suffix_rfl
    | panic | diverge => exact hx.elim

theorem Tracks.lexAll {x : Lex α} {E : ErrorCtx → α → Prop} (hs : Abreast keep s' s)
    (hx : Moves src s.index Q (x s.index)) : Tracks keep (fun _ _ => True) E (Kdl.lex x s') (Kdl.lex x s) := by
  have h : Tracks keep (fun _ _ => True) E ((Kdl.lex x >>= pure) s') ((Kdl.lex x >>= pure) s) :=
    .lex hs hx fun _ i _ _ _ => ⟨trivial, hs.move i⟩
  rwa [bind_pure] at h

variable {a : α}

theorem Tracks.look {x : Lex α} {g : α → Reader δ} (hs : Abreast keep s' s)
    (hx : x s.index = .ok a s.index) (hok : Tracks keep P' E' (f a s') (g a s)) :
    Tracks keep P' E' ((Kdl.lex x >>= f) s') ((Kdl.lex x >>= g) s) := by
  rw [bind_run, bind_run, lex_look hx, lex_look (hs.index ▸ hx)]
  exact hok

theorem Tracks.fail {e e' : ErrorCtx} (hs : Abreast keep s' s) :
    Tracks (α := γ) (β := δ) keep P' E' (.error (.error e) s') (.error (.error e') s) :=
  fun h => (hs.trail h) ▸ suffix_rfl

theorem Tracks.enterDepth {f : Unit → Reader γ} {g : Unit → Reader δ} (offset : Nat) (hs : Abreast keep s' s)
    (hok : Abreast keep { s' with depth := s'.depth + 1, trail := .entered (s'.depth + 1) :: s'.trail }
        { s with depth := s.depth + 1, trail := .entered (s.depth + 1) :: s.trail } →
      Tracks keep P' E' (f () { s' with depth := s'.depth + 1, trail := .entered (s'.depth + 1) :: s'.trail })
        (g () { s with depth := s.depth + 1, trail := .entered (s.depth + 1) :: s.trail })) :
    Tracks keep P' E' ((enterDepth src offset >>= f) s') ((enterDepth src offset >>= g) s) := by
  by_cases hdepth : src.maxDepth ≤ s.depth
  · rw [bind_run, bind_run, Kdl.enterDepth]
    simp only [bind_run, get_run, hs.depth, if_pos hdepth]
    exact .fail hs
  · have hdepth' : ¬ src.maxDepth ≤ s'.depth := hs.depth ▸ hdepth
    rw [bind_run, bind_run, enterDepth_run hdepth, enterDepth_run hdepth']
    refine hok ⟨hs.index, congrArg (· + 1) hs.depth, fun h => ?_⟩
    rw [hs.depth, hs.trail h]

variable {r' : EStateM.Result (Fault ErrorCtx) Cursor α}

theorem Tracks.mono {P₁ : α → β → Prop} {E₁ : ErrorCtx → β → Prop} (h : Tracks keep P E r' r) (hP : ∀ a b, P a b → P₁ a b)
    (hE : ∀ e b, E e b → E₁ e b) : Tracks keep P₁ E₁ r' r := by
  cases r' with
  | ok a t' =>
    cases r with
    | ok b t => exact ⟨hP a b h.1, h.2⟩
    | error e t => exact h.elim
  | error e t' =>
    cases e with
    | error e =>
      cases r with
      | ok b t => exact ⟨hE e b h.1, h.2⟩
      | error e t => cases e <;> exact h
    | panic | diverge => cases r <;> exact h.elim

theorem Tracks.of_false (h : Tracks False P E r' r) (hkeep : ¬ keep) : Tracks keep P E r' r := by
  grind

theorem Tracks.refl {r : EStateM.Result (Fault ErrorCtx) Cursor α} {Q : α → Cursor → Prop} {E : ErrorCtx → α → Prop}
    (h : Reads src s Q r) : Tracks keep (fun a b => a = b) E r r := by
  cases r with
  | ok a t => exact ⟨rfl, .refl keep t⟩
  | error e t =>
    cases e with
    | error e => exact fun _ => suffix_rfl
    | panic | diverge => exact h.elim

/-- Without `keep` two runs that go along with a third one, by relations that tell
value from error, go along with each other. -/
theorem Tracks.twins {r₁ r₂ : EStateM.Result (Fault ErrorCtx) Cursor α}
    (h₁ : Tracks False P E r₁ r) (h₂ : Tracks False P E r₂ r) (hkeep : ¬ keep)
    (hPE : ∀ a e b, P a b → ¬ E e b) (E₁ : ErrorCtx → α → Prop) : Tracks keep (fun _ _ => True) E₁ r₁ r₂ := by
  cases r with
  | ok b t =>
    cases r₁ with
    | ok a₁ t₁ =>
      cases r₂ with
      | ok a₂ t₂ =>
        exact ⟨trivial, h₁.2.index.trans h₂.2.index.symm, h₁.2.depth.trans h₂.2.depth.symm, fun h => (hkeep h).elim⟩
      | error e t₂ => cases e <;> first | exact (hPE _ _ _ h₁.1 h₂.1).elim | exact h₂.elim
    | error e t₁ =>
      cases e with
      | error e =>
        cases r₂ with
        | ok a₂ t₂ => exact (hPE _ _ _ h₂.1 h₁.1).elim
        | error e t₂ =>
          cases e with
          | error e => exact fun h => (hkeep h).elim
          | panic | diverge => exact h₂.elim
      | panic | diverge => exact h₁.elim
  | error e t =>
    cases r₁ with
    | ok a₁ t₁ => exact h₁.elim
    | error e₁ t₁ =>
      cases r₂ with
      | ok a₂ t₂ => exact h₂.elim
      | error e₂ t₂ =>
        cases e₁ <;> cases e₂ <;> cases e <;> first | exact fun h => (hkeep h).elim | exact h₁.elim | exact h₂.elim

theorem Tracks.always (h : Tracks keep P E (x s') (y s)) :
    Tracks keep P E (always x leaveDepth s') (always y leaveDepth s) := by
  unfold Effect.always
  cases hx : x s' with
  | ok a t' =>
    cases hy : y s with
    | ok b t =>
      rw [hx, hy] at h
      exact ⟨h.1, h.2.index, congrArg (· - 1) h.2.depth, h.2.trail⟩
    | error e t =>
      rw [hx, hy] at h
      exact h.elim
  | error e t' =>
    cases e with
    | error e =>
      cases hy : y s with
      | ok b t =>
        rw [hx, hy] at h
        exact h
      | error e t =>
        rw [hx, hy] at h
        cases e <;> exact h
    | panic | diverge =>
      rw [hx] at h
      cases hy : y s <;> exact (hy ▸ h).elim

theorem Tracks.mapError {anchor : ErrorCtx → ErrorCtx} (h : Tracks keep P E (x s') r) :
    Tracks keep P (fun e b => ∃ e₀, anchor e₀ = e ∧ E e₀ b) (mapError anchor x s') r := by
  unfold Effect.mapError
  cases hx : x s' with
  | ok a t' =>
    rw [hx] at h
    cases r <;> exact h
  | error e t' =>
    rw [hx] at h
    cases e with
    | error e =>
      cases r with
      | ok b t => exact ⟨⟨e, rfl, h.1⟩, h.2⟩
      | error e t => cases e <;> exact h
    | panic | diverge => cases r <;> exact h.elim

/-- Two loops whose rounds go along with each other. Once the first one has failed
the other one keeps what shows it. -/
theorem Tracks.loop {round : α → Reader (Round α γ)} {round' : β → Reader (Round β δ)} {i rounds : Nat}
    (hround : ∀ a b s' s, P a b → Abreast keep s' s → OnBoundary src s.index → i ≤ s.index →
      Tracks keep (Round.Rel P P') (fun e r => r.All (E e) (E' e)) (round a s') (round' b s))
    (hreads : ∀ b s, OnBoundary src s.index → i ≤ s.index →
      Reads src s (Round.Meets (fun _ u => s.index < u.index) fun _ _ => True) (round' b s))
    (hyields : ∀ e b s rounds, E e b → Yields (E' e) (loop round' rounds b s)) (hab : P a b) (hs : Abreast keep s' s) (hb : OnBoundary src s.index) (hi : i ≤ s.index)
    (hrounds : ahead src s.index < rounds) : Tracks keep P' E' (loop round rounds a s') (loop round' rounds b s) := by
  induction rounds generalizing a b s s' with
  | zero => omega
  | succ rounds ih =>
    refine Tracks.bind src (Q := fun _ _ => True) (hround a b s' s hab hs hb hi)
      (fun r' r t' t hr hrel ht => ?_) fun e r t hr hbad => ?_
    all_goals
      have hstep : Steady src s t ∧ Round.Meets (fun _ u => s.index < u.index) (fun _ _ => True) r t :=
        (hreads b s hb hi).of_ok hr
    · cases r' with
      | again a' =>
        cases r with
        | again b' =>
          have := ahead_lt hstep.1.boundary hstep.2
          exact ih hrel ht hstep.1.boundary (hi.trans hstep.1.forward) (by omega)
        | done d => exact hrel.elim
      | done c =>
        cases r with
        | again b' => exact hrel.elim
        | done d => exact ⟨hrel, ht⟩
    · cases r with
      | again b' =>
        have := ahead_lt hstep.1.boundary hstep.2
        refine ⟨Reads.loop (fun b'' u hu => ?_) b' (.refl hstep.1.boundary) (by omega), hyields e b' t rounds hbad⟩
        refine Returns.mono (hreads b'' u hu.boundary (hi.trans (hstep.1.forward.trans hu.forward)))
          (fun _ _ h => ⟨hu.trans h.1, h.2⟩) fun _ _ h => hu.trans h
      | done d => exact ⟨.ok (.refl hstep.1.boundary) trivial, hbad⟩

end Tracks

def TakesAll (visitor : NodeVisitor σ) : Prop :=
  ∀ v offset opts typeName name v', visitor.takeChildAfterHeaderAt v offset opts typeName name ≠ .ok (.declined v')

/-- A run of `visitor` from `v` beside a run of the recorder: it ends as replaying
what was recorded does. -/
abbrev Replays (keep : Prop) (visitor : NodeVisitor σ) (opts : Opts) (v : σ) :
    EStateM.Result (Fault ErrorCtx) Cursor σ → EStateM.Result (Fault ErrorCtx) Cursor (List Event) → Prop :=
  Tracks keep (fun a events => replay visitor opts v events = .ok a) fun e events => replay visitor opts v events = .error e

/-- Bodies behind `i` are read so, by every visitor. -/
def BodiesReplay (src : Source) (i : Nat) (body : Drive) : Prop :=
  ∀ {σ : Type} (keep : Prop) (visitor : NodeVisitor σ) (opts opts' : Opts) (v : σ) (s' s : Cursor),
    (keep → TakesAll visitor) → Abreast keep s' s → OnBoundary src s.index → i < s.index →
    Replays keep visitor opts v (body visitor opts v s') (body recorder opts' [] s)

section Driver

variable {keep : Prop} {visitor : NodeVisitor σ} {opts opts' : Opts} {v₀ v : σ} {events : List Event} {i : Nat}
  {body : Drive}

theorem Replays.call {event : Event} {r : Except ErrorCtx σ} (hv : replay visitor opts v₀ events = .ok v)
    (hr : replayEvent visitor opts v event = r) (hs : Abreast keep s' s) :
    Replays keep visitor opts v₀ (call r s') (.ok (events ++ [event]) s) :=
  Tracks.call hs (fun _ h => (replay_snoc _ hv).trans (hr.trans h)) fun _ h => (replay_snoc _ hv).trans (hr.trans h)

theorem visitPropOrArg_replays (hv : replay visitor opts v₀ events = .ok v) (hs : Abreast keep s' s)
    (hb : OnBoundary src s.index) :
    Replays keep visitor opts v₀ (visitPropOrArg src visitor opts v s') (visitPropOrArg src recorder opts' events s) := by
  refine .look hs (get_run s.index) ?_
  refine .lex hs (parsePropOrArg_moves hb) fun entry j _ hj _ => ?_
  have hs := hs.move j
  cases entry with
  | argument typeName value => 
    have hevent : replayEvent visitor opts v (.argument s.index typeName value) =
        visitor.onArgumentAt v s.index typeName value := rfl
    exact Replays.call hv hevent hs
  | property key typeName value =>
    have hevent (r) (hr : replayEvent visitor opts v (.property s.index key typeName value) = r) :=
      Replays.call hv hr hs
    dsimp only
    cases hprop : visitor.onPropertyAt v s.index key typeName value with
    | error e => exact hevent (.error e) (by rw [replayEvent, hprop]; rfl)
    | ok p =>
      obtain ⟨handled, v'⟩ := p
      rw [call, pure_bind]
      split
      · exact hevent (.error ((ErrorCtx.new .unknownProperty s.index).withMessage
          "property not recognized by visitor")) (by grind [replayEvent, except_ok_bind])
      · exact hevent (.ok v') (by grind [replayEvent, except_ok_bind])

theorem skipNodeWith_twins (hbody : BodiesReplay src i body) (hreads : Bodies src i body) (hs : Abreast keep s' s)
    (hb : OnBoundary src s.index) (hi : i ≤ s.index) :
    Tracks keep (fun _ _ => True) (fun _ _ => False) (skipNodeWith src body s') (skipNodeWith src body s) := by
  by_cases hkeep : keep
  · rw [hs.eq hkeep]
    exact (Tracks.refl (skipNodeWith_reads hreads (.refl hb) hi)).mono (fun _ _ _ => trivial) fun _ _ h => h
  refine Tracks.bind src (P := fun _ _ => True) (E := fun _ _ => False) (Q := fun _ _ => True) ?_
    (fun _ _ t' t _ _ ht => ⟨trivial, ht⟩) fun _ _ _ _ h => h.elim
  refine .look hs (get_run s.index) ?_
  refine .lex hs (parseNodeHeader_moves hb) fun header j _ hj hlt => ?_
  have hs := hs.move j
  have hrun (s'' : Cursor) (hs : Abreast False s'' { s with index := j }) :=
    hbody False countingVisitor Opts.lenient Opts.lenient { CountingVisitor.default with headers := 0 + 1 } s''
      { s with index := j } (fun h => h.elim) hs hj (hi.trans_lt hlt)
  refine Tracks.twins (hrun _ ⟨hs.index, hs.depth, fun h => h.elim⟩) (hrun _ (.refl False _)) hkeep ?_ _
  intro a e events ha he
  rw [ha] at he
  cases he

variable {rest : Str}

theorem skipSlashdashNode_twins (hbody : BodiesReplay src i body) (hreads : Bodies src i body) (hs : Abreast keep s' s)
    (hi : i ≤ s.index) (hat : At src s.index rest) (hslash : ['/', '-'].isPrefixOf rest = true) :
    Tracks keep (fun _ _ => True) (fun _ _ => False) (skipSlashdashNode src body s') (skipSlashdashNode src body s) := by
  refine .look hs (get_run s.index) ?_
  have hskip : OnBoundary src (s.index + 2) := hat.skip hslash
  refine .lex hs (Q := fun _ j => j = s.index + 2) ⟨⟨Nat.le_add_right .., hskip⟩, rfl⟩ fun _ j hj hb hj2 => ?_
  subst hj2
  refine .lex (hs.move _) (skipLineSpace_moves hskip) fun _ k hk hbk _ => ?_
  have hk : s.index + 2 ≤ k := hk
  have hs := hs.move k
  refine Tracks.bind src (Q := fun _ _ => True)
    (skipNodeWith_twins hbody hreads hs hbk (show i ≤ k by omega)) (fun _ _ t' t hr _ ht => ?_) fun _ _ _ _ h => h.elim
  have hlt : k < t.index := ((skipNodeWith_reads hreads (.refl hbk) (show i ≤ k by omega)).of_ok hr).2
  refine .look ht (get_run t.index) ?_
  rw [if_neg (by omega)]
  exact ⟨trivial, ht⟩

variable {offset : Nat} {typeName : Option Str} {name : Str} {nested : List Event}

theorem replayEvent_taken {child : σ} {childOpts : Opts} {finish : σ → Except ErrorCtx σ} {anchor : ErrorCtx → ErrorCtx}
    (h : visitor.takeChildAfterHeaderAt v offset opts typeName name = .ok (.taken child childOpts finish anchor)) :
    replayEvent visitor opts v (.child offset typeName name nested) =
      (replay visitor childOpts child nested).mapError anchor >>= finish := by
  rw [replayEvent, h]
  rfl

theorem replayEvent_declined {v' : σ}
    (h : visitor.takeChildAfterHeaderAt v offset opts typeName name = .ok (.declined v')) :
    replayEvent visitor opts v (.child offset typeName name nested) =
      replay domNodeBuilder opts ⟨typeName, some name, [], []⟩ nested >>= fun builder =>
        builder.finish >>= visitor.onChild v' := by
  rw [replayEvent, h]
  rfl

theorem replayEvent_refused {e : ErrorCtx} (h : visitor.takeChildAfterHeaderAt v offset opts typeName name = .error e) :
    replayEvent visitor opts v (.child offset typeName name nested) = .error e := by
  rw [replayEvent, h]
  rfl

/-- A child left to the reader: nothing is kept of the trails. -/
theorem readUntaken_replays (visitor : NodeVisitor σ) (opts opts' : Opts) (v : σ) (hbody : BodiesReplay src i body)
    (offset : Nat) (typeName : Option Str) (name : Str) (hs : Abreast False s' s) (hb : OnBoundary src s.index) (hi : i < s.index) :
    Tracks False (fun a nested => (replay domNodeBuilder opts ⟨typeName, some name, [], []⟩ nested >>= fun builder =>
        builder.finish >>= visitor.onChild v) = .ok a)
      (fun e nested => (replay domNodeBuilder opts ⟨typeName, some name, [], []⟩ nested >>= fun builder =>
        builder.finish >>= visitor.onChild v) = .error e)
      (readUntaken src true body visitor opts v offset typeName name s') (body recorder opts' [] s) := by
  have hmarked : Abreast False { s' with trail := .untaken offset :: s'.trail } s := ⟨hs.index, hs.depth, fun h => h.elim⟩
  have hbuild := hbody False domNodeBuilder opts opts' ⟨typeName, some name, [], []⟩ _ s (fun h => h.elim) hmarked hb hi
  refine hbuild.andThen (fun builder nested t' t hreplay ht => ?_) fun e nested he => ?_
  · have hrest : (replay domNodeBuilder opts ⟨typeName, some name, [], []⟩ nested >>= fun builder =>
        builder.finish >>= visitor.onChild v) = builder.finish >>= visitor.onChild v := by
      rw [hreplay, except_ok_bind]
    cases hfinish : builder.finish with
    | error e => exact ⟨hrest.trans (by rw [hfinish]; rfl), fun h => h.elim⟩
    | ok child =>
      rw [hfinish, except_ok_bind] at hrest
      exact Tracks.call ht (fun _ h => hrest.trans h) fun _ h => hrest.trans h
  · rw [he]
    rfl

theorem visitChild_replays (hbody : BodiesReplay src i body) (hreads : Bodies src i body)
    (htakes : keep → TakesAll visitor) (hv : replay visitor opts v₀ events = .ok v) (hs : Abreast keep s' s)
    (hb : OnBoundary src s.index) (hi : i < s.index) (offset : Nat) (typeName : Option Str) (name : Str) :
    Replays keep visitor opts v₀ (visitChild src true body visitor opts v offset typeName name s')
      (visitChild src true body recorder opts' events offset typeName name s) := by
  have hright : visitChild src true body recorder opts' events offset typeName name s =
      (body recorder opts' [] >>= fun nested => pure (events ++ [.child offset typeName name nested])) s := by
    change (mapError id (body recorder opts' []) >>= _) s = _
    rw [mapError_id]
    rfl
  have hrecorded : Reads src s (fun _ _ => True) (body recorder opts' [] s) := hreads recorder opts' [] s hb hi
  rw [hright, visitChild]
  cases htake : visitor.takeChildAfterHeaderAt v offset opts typeName name with
  | error e =>
    have hfails : ∀ nested, replay visitor opts v₀ (events ++ [.child offset typeName name nested]) = .error e :=
      fun nested => (replay_snoc _ hv).trans (replayEvent_refused htake)
    exact Tracks.failed (t := s) (fun h => (hs.trail h) ▸ suffix_rfl)
      (hrecorded.bind (R := fun _ _ => True) fun _ _ ht _ => .ok ht trivial) (.then fun nested _ => hfails nested)
  | ok taken =>
    cases taken with
    | taken child childOpts finish anchor =>
      have hplay (nested : List Event) := (replay_snoc (.child offset typeName name nested) hv).trans
        (replayEvent_taken htake)
      change Tracks keep _ _ ((mapError anchor (body visitor childOpts child) >>= fun c => call (finish c)) s') _
      refine Tracks.bind src (Q := fun _ _ => True)
        (hbody keep visitor childOpts opts' child s' s htakes hs hb hi).mapError
        (fun c nested t' t _ hc ht => ?_) fun e nested t hr he => ?_
      · have hfinish : replay visitor opts v₀ (events ++ [.child offset typeName name nested]) = finish c := by
          rw [hplay, hc]
          rfl
        exact Tracks.call ht (fun _ h => hfinish.trans h) fun _ h => hfinish.trans h
      · obtain ⟨e₀, rfl, he₀⟩ := he
        refine ⟨.ok (.refl (hrecorded.of_ok hr).1.boundary) trivial, (hplay nested).trans ?_⟩
        rw [he₀]
        rfl
    | declined v' =>
      have hkeep : ¬ keep := fun h => htakes h v offset opts typeName name v' htake
      have hplay (nested : List Event) := (replay_snoc (.child offset typeName name nested) hv).trans
        (replayEvent_declined htake)
      have huntaken := readUntaken_replays visitor opts opts' v' hbody offset typeName name
        ⟨hs.index, hs.depth, fun h => h.elim⟩ hb hi
      have hbind : Tracks keep (fun a events => replay visitor opts v₀ events = .ok a)
          (fun e events => replay visitor opts v₀ events = .error e)
          ((readUntaken src true body visitor opts v' offset typeName name >>= pure) s')
          ((body recorder opts' [] >>= fun nested => pure (events ++ [.child offset typeName name nested])) s) := by
        refine Tracks.bind src (Q := fun _ _ => True) (huntaken.of_false hkeep)
          (fun a nested t' t _ ha ht => ⟨(hplay nested).trans ha, ht⟩) fun e nested t hr he => ?_
        exact ⟨.ok (.refl (hrecorded.of_ok hr).1.boundary) trivial, (hplay nested).trans he⟩
      rw [bind_pure] at hbind
      exact hbind

theorem childrenRound_replays (hbody : BodiesReplay src i body) (hreads : Bodies src i body)
    (htakes : keep → TakesAll visitor) (hv : replay visitor opts v₀ events = .ok v) (hs : Abreast keep s' s)
    (hb : OnBoundary src s.index) (hi : i ≤ s.index) :
    Tracks keep (Round.Rel (fun a events => replay visitor opts v₀ events = .ok a)
        fun a events => replay visitor opts v₀ events = .ok a)
      (fun e r => r.All (fun events => replay visitor opts v₀ events = .error e)
        fun events => replay visitor opts v₀ events = .error e)
      (childrenRound src true body visitor opts v s') (childrenRound src true body recorder opts' events s) := by
  refine .lex hs (skipLineSpace_moves hb) fun _ j hj hbj _ => ?_
  have hs := hs.move j
  obtain ⟨rest, hat⟩ := hbj
  refine .look hs (eof_run hat) ?_
  split
  · exact .fail hs
  refine .look hs (peekByte_run hat) ?_
  split
  · exact ⟨hv, hs⟩
  refine .look hs (startsWith_run hat _) ?_
  split
  · rename_i hslash
    exact Tracks.bind src (Q := fun _ _ => True)
      (skipSlashdashNode_twins hbody hreads hs (hi.trans hj) hat hslash) (fun _ _ t' t _ _ ht => ⟨hv, ht⟩)
      fun _ _ _ _ h => h.elim
  refine .look hs (get_run j) ?_
  refine .lex hs (parseNodeHeader_moves hat.boundary) fun header k _ hbk hlt => ?_
  obtain ⟨typeName, name⟩ := header
  have hs := hs.move k
  have hin : i < k := (hi.trans hj).trans_lt hlt
  refine Tracks.bind src (Q := fun _ _ => True)
    (visitChild_replays hbody hreads htakes hv hs hbk hin j typeName name) (fun a inner t' t _ ha ht => ⟨ha, ht⟩)
    fun e inner t hr he => ⟨.ok (.refl ?_) trivial, he⟩
  exact ((visitChild_reads hreads recorder opts' events j typeName name (.refl hbk) hin).of_ok hr).1.boundary

theorem closeChildrenBlock_twins (hs : Abreast keep s' s) (hb : OnBoundary src s.index) :
    Tracks keep (fun _ _ => True) (fun _ _ => False) (closeChildrenBlock src s') (closeChildrenBlock src s) := by
  refine .lex hs (skipLineSpace_moves hb) fun _ j _ hbj _ => ?_
  have hs := hs.move j
  obtain ⟨rest, hat⟩ := hbj
  refine .look hs (peekByte_run hat) ?_
  split
  · exact .fail hs
  · rename_i hbrace
    exact .lexAll hs (bumpByte_moves hat (c := '}') (by decide) (not_not.mp hbrace) le_rfl)

theorem visitChildrenBlock_replays (visitor : NodeVisitor σ) (opts opts' : Opts) (v₀ v : σ) (events : List Event)
    (hbody : BodiesReplay src i body) (hreads : Bodies src i body) (htakes : keep → TakesAll visitor) (hv : replay visitor opts v₀ events = .ok v) (hs : Abreast keep s' s)
    (hb : OnBoundary src s.index) (hi : i ≤ s.index) :
    Replays keep visitor opts v₀ (visitChildrenBlock src true body visitor opts v s')
      (visitChildrenBlock src true body recorder opts' events s) := by
  obtain ⟨rest, hat⟩ := hb
  refine .look hs (peekByte_run hat) ?_
  split
  · exact .fail hs
  rename_i hbrace
  refine .look hs (get_run s.index) ?_
  refine .lex hs (bumpByte_moves hat (c := '{') (by decide) (not_not.mp hbrace) le_rfl) fun _ j hj hbj _ => ?_
  refine .enterDepth s.index (hs.move j) fun hs => ?_
  have hij : i ≤ j := hi.trans hj
  refine Tracks.always ?_
  refine Tracks.bind src (Q := fun _ _ => True)
    (Tracks.loop (P := fun a events => replay visitor opts v₀ events = .ok a)
      (E := fun e events => replay visitor opts v₀ events = .error e)
      (fun a inner t' t ha ht hbt hit => childrenRound_replays hbody hreads htakes ha ht hbt hit)
      (fun inner t hbt hit => childrenRound_reads hreads recorder opts' inner (.refl hbt) hit)
      (fun e inner t rounds he => ?_) hv hs hbj hij (ahead_rounds src j)) (fun a inner t' t hr ha ht => ?_)
    fun e inner t hr he => ?_
  · refine (childrenLoop_records t).mono fun _ hrecords => ?_
    obtain ⟨more, hmore⟩ := hrecords
    exact hmore ▸ replay_failed he
  all_goals
    have hbt : OnBoundary src t.index := ((Reads.loop (R := fun _ _ => True)
      (fun inner u hu => childrenRound_reads hreads recorder opts' inner hu (hij.trans hu.forward)) events
      (.refl hbj) (ahead_rounds src j)).of_ok hr).1.boundary
  · exact Tracks.bind src (Q := fun _ _ => True) (closeChildrenBlock_twins ht hbt)
      (fun _ _ u' u _ _ hu => ⟨ha, hu⟩) fun _ _ _ _ h => h.elim
  · exact ⟨(closeChildrenBlock_reads (.refl hbt)).bind fun _ u hu _ => .ok hu trivial, .then fun _ _ => he⟩

theorem skipChildrenBlock_twins (hbody : BodiesReplay src i body) (hreads : Bodies src i body) (hs : Abreast keep s' s)
    (hb : OnBoundary src s.index) (hi : i ≤ s.index) :
    Tracks keep (fun _ _ => True) (fun _ _ => False) (skipChildrenBlock src true body s')
      (skipChildrenBlock src true body s) := by
  by_cases hkeep : keep
  · rw [hs.eq hkeep]
    exact (Tracks.refl (visitChildrenBlock_reads hreads skipVisitor Opts.new () (.refl hb) hi)).mono
      (fun _ _ _ => trivial) fun _ _ h => h
  have hrun (s'' : Cursor) (hs : Abreast False s'' s) :=
    visitChildrenBlock_replays skipVisitor Opts.new Opts.new () () [] hbody hreads (fun h => h.elim) rfl hs hb hi
  refine Tracks.twins (hrun s' ⟨hs.index, hs.depth, fun h => h.elim⟩) (hrun s (.refl False s)) hkeep ?_ _
  intro a e events ha he
  rw [ha] at he
  cases he

/-- A state of the loop over a body beside the recorder's. -/
structure Beside (visitor : NodeVisitor σ) (opts : Opts) (v₀ : σ) (b' : BodyState σ) (b : BodyState (List Event)) :
    Prop where
  afterChildren : b'.afterChildren = b.afterChildren
  hasRealChildren : b'.hasRealChildren = b.hasRealChildren
  needSpaceBeforeEntry : b'.needSpaceBeforeEntry = b.needSpaceBeforeEntry
  visitor : replay visitor opts v₀ b.visitor = .ok b'.visitor

abbrev RoundReplays (keep : Prop) (visitor : NodeVisitor σ) (opts : Opts) (v₀ : σ) :
    EStateM.Result (Fault ErrorCtx) Cursor (Round (BodyState σ) σ) →
    EStateM.Result (Fault ErrorCtx) Cursor (Round (BodyState (List Event)) (List Event)) → Prop :=
  Tracks keep (Round.Rel (Beside visitor opts v₀) fun a events => replay visitor opts v₀ events = .ok a)
    fun e r => r.All (fun b => replay visitor opts v₀ b.visitor = .error e)
      fun events => replay visitor opts v₀ events = .error e

variable {b' : BodyState σ} {b : BodyState (List Event)}

theorem slashdashRound_replays (hbody : BodiesReplay src i body) (hreads : Bodies src i body)
    (hbeside : Beside visitor opts v₀ b' b) (hs : Abreast keep s' s) (hi : i ≤ s.index)
    (hat : At src s.index rest) (hslash : ['/', '-'].isPrefixOf rest = true) :
    RoundReplays keep visitor opts v₀ (slashdashRound src true body b' s') (slashdashRound src true body b s) := by
  have hskip : OnBoundary src (s.index + 2) := hat.skip hslash
  refine .lex hs (Q := fun _ j => j = s.index + 2) ⟨⟨Nat.le_add_right .., hskip⟩, rfl⟩ fun _ j hj hb hj2 => ?_
  subst hj2
  refine .lex (hs.move _) (skipLineSpace_moves hskip) fun _ k hk hbk _ => ?_
  have hk : s.index + 2 ≤ k := hk
  have hs := hs.move k
  obtain ⟨rest, hat⟩ := hbk
  refine .look hs (peekByte_run hat) ?_
  split
  · exact Tracks.bind src (Q := fun _ _ => True)
      (skipChildrenBlock_twins hbody hreads hs hat.boundary (show i ≤ k by omega))
      (fun _ _ t' t _ _ ht => ⟨⟨rfl, hbeside.hasRealChildren, rfl, hbeside.visitor⟩, ht⟩) fun _ _ _ _ h => h.elim
  rw [hbeside.afterChildren]
  split
  · exact .fail hs
  · refine .lex hs (skipPropOrArg_moves hat.boundary) fun _ l _ _ _ => ?_
    exact ⟨⟨rfl, hbeside.hasRealChildren, rfl, hbeside.visitor⟩, hs.move l⟩

theorem entryRound_replays (hbeside : Beside visitor opts v₀ b' b) (spaceBefore : Bool) (hs : Abreast keep s' s)
    (hb : OnBoundary src s.index) : RoundReplays keep visitor opts v₀ (entryRound src visitor opts b' spaceBefore s')
      (entryRound src recorder opts' b spaceBefore s) := by
  obtain ⟨rest, hat⟩ := hb
  refine .look hs (atNewline_run hat) ?_
  split
  · exact ⟨hbeside.visitor, hs⟩
  rw [hbeside.afterChildren]
  split
  · exact .fail hs
  rw [hbeside.needSpaceBeforeEntry]
  split
  · exact .fail hs
  · refine Tracks.bind src (Q := fun _ _ => True)
      (visitPropOrArg_replays hbeside.visitor hs hat.boundary)
      (fun a inner t' t _ ha ht => ⟨⟨rfl, hbeside.hasRealChildren, rfl, ha⟩, ht⟩)
      fun e inner t hr he => ⟨.ok (.refl ?_) trivial, he⟩
    exact ((visitPropOrArg_reads recorder opts' b.visitor (.refl hat.boundary)).of_ok hr).1.boundary

/-- The block's two callbacks have events of their own around those of the children. -/
theorem childrenBlockRound_replays (hbody : BodiesReplay src i body) (hreads : Bodies src i body)
    (htakes : keep → TakesAll visitor) (hbeside : Beside visitor opts v₀ b' b) (hs : Abreast keep s' s)
    (hb : OnBoundary src s.index) (hi : i ≤ s.index) :
    RoundReplays keep visitor opts v₀ (childrenBlockRound src true body visitor opts b' s')
      (childrenBlockRound src true body recorder opts' b s) := by
  rw [childrenBlockRound, childrenBlockRound, hbeside.hasRealChildren]
  split
  · exact .fail hs
  have hblock (events : List Event) : Reads src s (fun _ u => s.index < u.index)
      (visitChildrenBlock src true body recorder opts' events s) :=
    visitChildrenBlock_reads hreads recorder opts' events (.refl hb) hi
  have hbegin : Replays keep visitor opts v₀ (call (visitor.onChildrenBegin b'.visitor) s')
      (call (recorder.onChildrenBegin b.visitor) s) := Replays.call hbeside.visitor (by rw [replayEvent]) hs
  refine Tracks.bind src (Q := fun _ _ => True) hbegin (fun a inner t' t hr ha ht => ?_)
    fun e inner t hr he => ?_
  · cases hr
    refine Tracks.bind src (Q := fun _ _ => True)
      (visitChildrenBlock_replays visitor opts opts' v₀ _ _ hbody hreads htakes ha ht hb hi) (fun a inner u' u hr ha hu => ?_)
      fun e inner u hr he => ?_
    · have hend : Replays keep visitor opts v₀ (call (visitor.onChildrenEnd a) u')
          (call (recorder.onChildrenEnd inner) u) := Replays.call ha (by rw [replayEvent]) hu
      refine Tracks.bind src (Q := fun _ _ => True) hend
        (fun a inner w' w _ ha hw => ⟨⟨rfl, rfl, rfl, ha⟩, hw⟩) fun e inner w hw he => ?_
      cases hw
      exact ⟨.ok (.refl ((hblock _).of_ok hr).1.boundary) trivial, he⟩
    · exact ⟨.ok (.refl ((hblock _).of_ok hr).1.boundary) trivial, replay_failed he⟩
  · cases hr
    refine ⟨(hblock _).bind fun inner u hu _ => .ok hu trivial, ?_⟩
    refine (visitChildrenBlock_records s).bind fun inner u hinner => ?_
    obtain ⟨more, rfl⟩ := hinner
    exact replay_failed (replay_failed he)

theorem bodyRound_replays (hbody : BodiesReplay src i body) (hreads : Bodies src i body)
    (htakes : keep → TakesAll visitor) (hbeside : Beside visitor opts v₀ b' b) (hs : Abreast keep s' s)
    (hb : OnBoundary src s.index) (hi : i ≤ s.index) :
    RoundReplays keep visitor opts v₀ (bodyRound src true body visitor opts b' s')
      (bodyRound src true body recorder opts' b s) := by
  refine .lex hs (skipNodeSpaceCounted_moves hb) fun spaceBefore j hj hbj _ => ?_
  have hs := hs.move j
  have hij : i ≤ j := hi.trans hj
  obtain ⟨rest, hat⟩ := hbj
  refine .look hs (startsWith_run hat _) ?_
  split
  · rename_i hslash
    exact slashdashRound_replays hbody hreads hbeside hs hij hat hslash
  refine .look hs (peekByte_run hat) ?_
  split
  · exact ⟨hbeside.visitor, hs⟩
  split
  · rename_i hsemi
    refine .lex hs (bumpByte_moves hat (c := ';') (by decide) hsemi le_rfl) fun _ k _ _ _ => ?_
    exact ⟨hbeside.visitor, hs.move k⟩
  split
  · grind [childrenBlockRound_replays, hat.boundary]
  refine .look hs (startsWith_run hat _) ?_
  split
  · rename_i hslash
    refine .lex hs (skipLineComment_moves hat hslash) fun _ k _ _ _ => ?_
    exact ⟨hbeside.visitor, hs.move k⟩
  split
  · refine .lex hs (skipEscline_moves hat.boundary) fun _ k _ _ _ => ?_
    exact ⟨⟨hbeside.afterChildren, hbeside.hasRealChildren, rfl, hbeside.visitor⟩, hs.move k⟩
  · exact entryRound_replays hbeside spaceBefore hs hat.boundary

end Driver

theorem visitNodeBody_replays {fuel : Nat} (keep : Prop) (visitor : NodeVisitor σ) (opts opts' : Opts) (v : σ)
    (htakes : keep → TakesAll visitor) (hs : Abreast keep s' s) (hb : OnBoundary src s.index)
    (hfuel : ahead src s.index < fuel) : Replays keep visitor opts v (visitNodeBody src true fuel visitor opts v s')
      (visitNodeBody src true fuel recorder opts' [] s) := by
  induction fuel generalizing σ keep opts opts' s s' with
  | zero => omega
  | succ fuel ih =>
    have hbody : BodiesReplay src s.index (visitNodeBody src true fuel) := by
      intro σ keep visitor opts opts' v t' t htakes ht hbt hlt
      have := ahead_lt hbt hlt
      exact ih keep visitor opts opts' v htakes ht hbt (by omega)
    have hreads : Bodies src s.index (visitNodeBody src true fuel) := by
      intro σ visitor opts v t hbt hlt
      have := ahead_lt hbt hlt
      exact visitNodeBody_reads visitor opts v hbt (by omega)
    refine Tracks.loop (P := Beside visitor opts v)
      (E := fun e b => replay visitor opts v b.visitor = .error e)
      (fun b' b t' t hbeside ht hbt hit => bodyRound_replays hbody hreads htakes hbeside ht hbt hit)
      (fun b t hbt hit => bodyRound_reads hreads recorder opts' b (.refl hbt) hit)
      (fun e b t rounds he => ?_) ⟨rfl, rfl, rfl, by rw [replay]⟩ hs hb le_rfl (ahead_rounds src s.index)
    refine (bodyLoop_records b t).mono fun _ hrecords => ?_
    obtain ⟨more, hmore⟩ := hrecords
    exact hmore ▸ replay_failed he

theorem visitBody_replays (keep : Prop) (visitor : NodeVisitor σ) (opts opts' : Opts) (v : σ)
    (htakes : keep → TakesAll visitor) (hs : Abreast keep s' s) (hb : OnBoundary src s.index) :
    Replays keep visitor opts v (visitBody src true visitor opts v s') (visitBody src true recorder opts' [] s) :=
  visitNodeBody_replays keep visitor opts opts' v htakes hs hb (ahead_rounds src s.index)

end TensorDE.Kdl
