import TensorDE.Kdl.EntryBounds
import TensorDE.Kdl.Reader

set_option linter.dupNamespace false

namespace TensorDE.Kdl

open Effect Utf8

variable {src : Source} {s t u : Cursor} {α β σ : Type}

/-- What a call may do to the cursor: move it on, over boundaries only, with the
depth as it was and never raised beyond the limit on the way. -/
structure Steady (src : Source) (s t : Cursor) : Prop where
  forward : s.index ≤ t.index
  boundary : OnBoundary src t.index
  depth : t.depth = s.depth
  entered : ∃ trail, t.trail = trail ++ s.trail ∧ ∀ d, Mark.entered d ∈ trail → d ≤ src.maxDepth

theorem Steady.refl (h : OnBoundary src s.index) : Steady src s s := ⟨le_rfl, h, rfl, [], rfl, by simp⟩

theorem Steady.trans (h : Steady src s t) (h' : Steady src t u) : Steady src s u := by
  obtain ⟨trail, htrail, hle⟩ := h.entered
  obtain ⟨trail', htrail', hle'⟩ := h'.entered
  refine ⟨h.forward.trans h'.forward, h'.boundary, h'.depth.trans h.depth, trail' ++ trail, ?_, fun d hd => ?_⟩
  · rw [htrail', htrail, List.append_assoc]
  grind

theorem Steady.move {i : Nat} (hle : s.index ≤ i) (hi : OnBoundary src i) : Steady src s { s with index := i } :=
  ⟨hle, hi, rfl, [], rfl, by simp⟩

theorem Steady.mark (h : OnBoundary src s.index) (offset : Nat) :
    Steady src s { s with trail := .untaken offset :: s.trail } :=
  ⟨le_rfl, h, rfl, [.untaken offset], rfl, by simp⟩

def Reads (src : Source) (s : Cursor) (Q : α → Cursor → Prop) : EStateM.Result (Fault ErrorCtx) Cursor α → Prop :=
  Returns (fun a t => Steady src s t ∧ Q a t) (fun _ t => Steady src s t)

section Reads

variable {Q Q' : α → Cursor → Prop} {R : β → Cursor → Prop} {x : Reader α} {f : α → Reader β}

theorem Reads.bind (hx : Reads src s Q (x t)) (hf : ∀ a u, Steady src s u → Q a u → Reads src s R (f a u)) :
    Reads src s R ((x >>= f) t) :=
  Returns.bind hx fun a u h => hf a u h.1 h.2

variable {a : α}

theorem Reads.step (hx : x t = .ok a u) (hf : Reads src s R (f a u)) : Reads src s R ((x >>= f) t) := by
  rwa [bind_run, hx]

theorem Reads.ok {a : α} (h : Steady src s t) (hQ : Q a t) : Reads src s Q (.ok a t) := ⟨h, hQ⟩

theorem Reads.fail {e : ErrorCtx} (h : Steady src s t) : Reads src s Q (.error (.error e) t) := h

theorem Reads.mono {r : EStateM.Result (Fault ErrorCtx) Cursor α} (h : Reads src t Q r) (hs : Steady src s t)
    (hQ : ∀ a u, Steady src t u → Q a u → Q' a u) : Reads src s Q' r :=
  Returns.mono h (fun a u h => ⟨hs.trans h.1, hQ a u h.1 h.2⟩) fun _ _ h => hs.trans h

theorem Reads.lex {x : Lex α} {Q : α → Nat → Prop} (hs : Steady src s t) (h : Moves src t.index Q (x t.index)) :
    Reads src s (fun a u => Q a u.index ∧ t.index ≤ u.index) (lex x t) := by
  unfold Kdl.lex
  cases hx : x t.index with
  | ok a i =>
    rw [hx] at h
    exact ⟨hs.trans (.move h.1.1 h.1.2), h.2, h.1.1⟩
  | error e i =>
    rw [hx] at h
    cases e with
    | error e => exact hs.trans (.move h.1 h.2)
    | panic | diverge => exact h.elim

theorem Reads.call {x : Except ErrorCtx α} (hs : Steady src s t) : Reads src s (fun _ u => u = t) (call x t) := by
  cases x with
  | ok a => exact ⟨hs, rfl⟩
  | error e => exact hs

theorem lex_step {x : Lex α} {i : Nat} (h : x t.index = .ok a i) : lex x t = .ok a { t with index := i } := by
  rw [lex, h]

theorem lex_look {x : Lex α} (h : x t.index = .ok a t.index) : lex x t = .ok a t := by
  rw [lex, h]

theorem Reads.loop {round : α → Reader (Round α β)} {rounds : Nat}
    (hround : ∀ a u, Steady src s u → Reads src s (Round.Meets (fun _ w => u.index < w.index) R) (round a u))
    (a : α) (hs : Steady src s t) (hrounds : ahead src t.index < rounds) : Reads src s R (loop round rounds a t) := by
  refine loop_returns (P := fun _ u => Steady src s u) (fun _ u => ahead src u.index) (fun a u hu => ?_) hs hrounds
  refine Returns.mono (hround a u hu) (fun r w hw => ?_) fun _ _ h => h
  cases r with
  | again a' => exact ⟨hw.1, ahead_lt hw.1.boundary hw.2⟩
  | done b => exact hw

end Reads

/-- Every body that starts behind `i` is read as it should be. -/
def Bodies (src : Source) (i : Nat) (body : Drive) : Prop :=
  ∀ {σ : Type} (visitor : NodeVisitor σ) (opts : Opts) (v : σ) (t : Cursor), OnBoundary src t.index → i < t.index →
    Reads src t (fun _ _ => True) (body visitor opts v t)

section Driver

variable {dom : Bool} {body : Drive} {i : Nat}

theorem visitNodeWith_reads (hbody : Bodies src i body) (visitor : NodeVisitor σ) (opts : Opts) (v : σ)
    (hs : Steady src s t) (hi : i ≤ t.index) :
    Reads src s (fun _ u => t.index < u.index) (visitNodeWith src body visitor opts v t) := by
  refine .step (lex_look (get_run t.index)) ?_
  refine (Reads.lex hs (parseNodeHeader_moves hs.boundary)).bind fun ⟨typeName, name⟩ u hu hlt => ?_
  refine (Reads.call hu).bind fun v w hw heq => ?_
  subst heq
  have hlt : t.index < w.index := hlt.1
  exact (hbody visitor opts v w hw.boundary (hi.trans_lt hlt)).mono hw fun _ x hx _ => hlt.trans_le hx.forward

theorem skipNodeWith_reads (hbody : Bodies src i body) (hs : Steady src s t) (hi : i ≤ t.index) :
    Reads src s (fun _ u => t.index < u.index) (skipNodeWith src body t) := by
  refine (visitNodeWith_reads hbody _ _ _ hs hi).bind fun _ u hu hlt => ?_
  exact .ok hu hlt

variable {rest : Str}

section

variable (hbody : Bodies src i body)
include hbody

theorem skipSlashdashNode_reads (hs : Steady src s t) (hi : i ≤ t.index)
    (hat : At src t.index rest) (hslash : ['/', '-'].isPrefixOf rest = true) :
    Reads src s (fun _ u => t.index < u.index) (skipSlashdashNode src body t) := by
  refine .step (lex_look (get_run t.index)) ?_
  refine .step (lex_step (modify_run _ t.index)) ?_
  have hskip : OnBoundary src (t.index + 2) := hat.skip hslash
  have ht2 : Steady src s { t with index := t.index + 2 } := hs.trans (.move (by omega) hskip)
  refine (Reads.lex ht2 (skipLineSpace_moves hskip)).bind fun _ u hu hlu => ?_
  have hlu : t.index + 2 ≤ u.index := hlu.2
  refine (skipNodeWith_reads hbody hu (by omega)).bind fun _ w hw hlw => ?_
  refine .step (lex_look (get_run w.index)) ?_
  split
  · exact .fail hw
  · exact .ok hw (show t.index < w.index by omega)

theorem readUntaken_reads (visitor : NodeVisitor σ) (opts : Opts) (v : σ) (offset : Nat)
    (typeName : Option Str) (name : Str) (hs : Steady src s t) (hi : i < t.index) :
    Reads src s (fun _ u => t.index ≤ u.index) (readUntaken src dom body visitor opts v offset typeName name t) := by
  have hmark : Steady src s { t with trail := .untaken offset :: t.trail } := hs.trans (.mark hs.boundary offset)
  refine .step (modify_run _ t) ?_
  split
  · refine (Reads.call hmark).bind fun builder u hu heq => ?_
    subst heq
    refine Reads.bind ((hbody domNodeBuilder opts builder _ hu.boundary hi).mono hu fun _ w hw _ => hw.forward)
      fun builder w hw hle => ?_
    refine (Reads.call hw).bind fun child x hx heq => ?_
    subst heq
    exact Returns.mono (Reads.call hx) (fun _ _ h => ⟨h.1, h.2 ▸ hle⟩) fun _ _ h => h
  · exact .fail hmark

theorem visitChild_reads (visitor : NodeVisitor σ) (opts : Opts) (v : σ) (offset : Nat)
    (typeName : Option Str) (name : Str) (hs : Steady src s t) (hi : i < t.index) :
    Reads src s (fun _ u => t.index ≤ u.index) (visitChild src dom body visitor opts v offset typeName name t) := by
  refine (Reads.call hs).bind fun taken u hu heq => ?_
  subst heq
  cases taken with
  | taken child childOpts finish anchor =>
    have hchild : Reads src s (fun _ w => u.index ≤ w.index) (body visitor childOpts child u) :=
      (hbody visitor childOpts child u hu.boundary hi).mono hu fun _ _ hw _ => hw.forward
    refine Reads.bind (Returns.mapError hchild) fun child w hw hle => ?_
    exact Returns.mono (Reads.call hw) (fun _ _ h => ⟨h.1, h.2 ▸ hle⟩) fun _ _ h => h
  | declined v => grind [readUntaken_reads]

theorem childrenRound_reads (visitor : NodeVisitor σ) (opts : Opts) (v : σ)
    (hs : Steady src s t) (hi : i ≤ t.index) : Reads src s (Round.Meets (fun _ u => t.index < u.index) fun _ _ => True)
      (childrenRound src dom body visitor opts v t) := by
  refine (Reads.lex hs (skipLineSpace_moves hs.boundary)).bind fun _ u hu hle => ?_
  obtain ⟨rest, hat⟩ := hu.boundary
  have hle : t.index ≤ u.index := hle.2
  refine .step (lex_look (eof_run hat)) ?_
  split
  · exact .fail hu
  refine .step (lex_look (peekByte_run hat)) ?_
  split
  · exact .ok hu trivial
  refine .step (lex_look (startsWith_run hat _)) ?_
  split
  · rename_i hslash
    refine (skipSlashdashNode_reads hbody hu (hi.trans hle) hat hslash).bind fun _ w hw hlt => ?_
    exact .ok hw (hle.trans_lt hlt)
  refine .step (lex_look (get_run u.index)) ?_
  refine (Reads.lex hu (parseNodeHeader_moves hu.boundary)).bind fun ⟨typeName, name⟩ w hw hlt => ?_
  have hlt : t.index < w.index := hle.trans_lt hlt.1
  refine (visitChild_reads hbody visitor opts v u.index typeName name hw (hi.trans_lt hlt)).bind fun v x hx hle => ?_
  exact .ok hx (hlt.trans_le hle)

end

theorem enterDepth_run {offset : Nat} (h : ¬ src.maxDepth ≤ t.depth) : enterDepth src offset t =
      .ok () { t with depth := t.depth + 1, trail := .entered (t.depth + 1) :: t.trail } := by
  rw [enterDepth]
  simp [h, mark]

theorem Steady.nested (hdepth : ¬ src.maxDepth ≤ t.depth)
    (h : Steady src { t with depth := t.depth + 1, trail := .entered (t.depth + 1) :: t.trail } u) :
    Steady src t (leaveDepth u) := by
  obtain ⟨trail, htrail, hle⟩ := h.entered
  refine ⟨h.forward, h.boundary, ?_, trail ++ [.entered (t.depth + 1)], ?_, fun d hd => ?_⟩
  · rw [leaveDepth, h.depth, Nat.add_sub_cancel]
  · rw [leaveDepth, htrail, List.append_assoc, List.singleton_append]
  grind

theorem closeChildrenBlock_reads (hs : Steady src s t) :
    Reads src s (fun _ u => t.index < u.index) (closeChildrenBlock src t) := by
  refine (Reads.lex hs (skipLineSpace_moves hs.boundary)).bind fun _ u hu hle => ?_
  obtain ⟨rest, hat⟩ := hu.boundary
  refine .step (lex_look (peekByte_run hat)) ?_
  split
  · exact .fail hu
  rename_i hbrace
  exact Returns.mono (Reads.lex hu (bumpByte_moves hat (c := '}') (by decide) (not_not.mp hbrace) le_rfl))
    (fun _ _ h => ⟨h.1, hle.2.trans_lt h.2.1⟩) fun _ _ h => h

theorem visitChildrenBlock_reads (hbody : Bodies src i body) (visitor : NodeVisitor σ) (opts : Opts) (v : σ)
    (hs : Steady src s t) (hi : i ≤ t.index) :
    Reads src s (fun _ u => t.index < u.index) (visitChildrenBlock src dom body visitor opts v t) := by
  obtain ⟨rest, hat⟩ := hs.boundary
  refine .step (lex_look (peekByte_run hat)) ?_
  split
  · exact .fail hs
  rename_i hbrace
  refine .step (lex_look (get_run t.index)) ?_
  refine (Reads.lex hs (bumpByte_moves hat (c := '{') (by decide) (not_not.mp hbrace) le_rfl)).bind
    fun _ u hu hlt => ?_
  have hlt : t.index < u.index := hlt.1
  by_cases hdepth : src.maxDepth ≤ u.depth
  · have hfail : enterDepth src t.index u =
        .error (.error ((ErrorCtx.new .exceededMaxDepth t.index).withMessage s!"max depth is {src.maxDepth}")) u := by
      rw [enterDepth]
      simp [hdepth]
    rw [bind_run, hfail]
    exact .fail hu
  refine .step (enterDepth_run hdepth) ?_
  refine Returns.always ?_
  set inner : Cursor := { u with depth := u.depth + 1, trail := .entered (u.depth + 1) :: u.trail }
  suffices h : Reads src inner (fun _ w => u.index ≤ w.index) _ from
    Returns.mono h (fun _ _ h => ⟨hu.trans (h.1.nested hdepth), hlt.trans_le h.2⟩)
      fun _ _ h => hu.trans (h.nested hdepth)
  have hinner : Steady src inner inner := .refl hu.boundary
  refine Reads.bind (Q := fun _ _ => True) (Reads.loop (fun v w hw => ?_) v hinner (ahead_rounds src _)) fun v w hw _ => ?_
  · exact childrenRound_reads hbody visitor opts v hw (hi.trans (hlt.le.trans hw.forward))
  refine (closeChildrenBlock_reads hw).bind fun _ x hx _ => ?_
  exact .ok hx hx.forward

variable (visitor : NodeVisitor σ) (opts : Opts)

theorem visitPropOrArg_reads (v : σ) (hs : Steady src s t) :
    Reads src s (fun _ u => t.index < u.index) (visitPropOrArg src visitor opts v t) := by
  refine .step (lex_look (get_run t.index)) ?_
  refine (Reads.lex hs (parsePropOrArg_moves hs.boundary)).bind fun entry u hu hpast => ?_
  have hlt : t.index < u.index := hpast.1
  cases entry with
  | argument typeName value => exact Returns.mono (Reads.call hu) (fun _ _ h => ⟨h.1, h.2 ▸ hlt⟩) fun _ _ h => h
  | property key typeName value =>
    refine (Reads.call hu).bind fun ⟨handled, v⟩ w hw heq => ?_
    subst heq
    dsimp only
    split
    · exact .fail hw
    · exact .ok hw hlt

theorem slashdashRound_reads (hbody : Bodies src i body) (b : BodyState σ) (hs : Steady src s t)
    (hi : i ≤ t.index) (hat : At src t.index rest) (hslash : ['/', '-'].isPrefixOf rest = true) :
    Reads src s (Round.Meets (fun _ u => t.index < u.index) fun _ _ => True) (slashdashRound src dom body b t) := by
  refine .step (lex_step (modify_run _ t.index)) ?_
  have hskip : OnBoundary src (t.index + 2) := hat.skip hslash
  have ht2 : Steady src s { t with index := t.index + 2 } := hs.trans (.move (by omega) hskip)
  refine (Reads.lex ht2 (skipLineSpace_moves hskip)).bind fun _ u hu hle => ?_
  have hlt : t.index < u.index := by
    have : t.index + 2 ≤ u.index := hle.2
    omega
  obtain ⟨rest, hat⟩ := hu.boundary
  refine .step (lex_look (peekByte_run hat)) ?_
  split
  · refine (visitChildrenBlock_reads hbody skipVisitor Opts.new () hu (hi.trans hlt.le)).bind fun _ w hw hlw => ?_
    exact .ok hw (hlt.trans hlw)
  split
  · exact .fail hu
  · refine (Reads.lex hu (skipPropOrArg_moves hu.boundary)).bind fun _ w hw hle => ?_
    exact .ok hw (hlt.trans_le hle.2)

theorem childrenBlockRound_reads (hbody : Bodies src i body) (visitor : NodeVisitor σ) (opts : Opts)
    (b : BodyState σ) (hs : Steady src s t) (hi : i ≤ t.index) :
    Reads src s (Round.Meets (fun _ u => t.index < u.index) fun _ _ => True)
      (childrenBlockRound src dom body visitor opts b t) := by
  rw [childrenBlockRound]
  split
  · exact .fail hs
  refine (Reads.call hs).bind fun v u hu heq => ?_
  subst heq
  refine (visitChildrenBlock_reads hbody visitor opts v hu hi).bind fun v w hw hlt => ?_
  refine (Reads.call hw).bind fun v x hx heq => ?_
  subst heq
  exact .ok hx hlt

theorem entryRound_reads (b : BodyState σ) (spaceBefore : Bool)
    (hs : Steady src s t) : Reads src s (Round.Meets (fun _ u => t.index < u.index) fun _ _ => True)
      (entryRound src visitor opts b spaceBefore t) := by
  obtain ⟨rest, hat⟩ := hs.boundary
  refine .step (lex_look (atNewline_run hat)) ?_
  split
  · exact .ok hs trivial
  split
  · exact .fail hs
  split
  · exact .fail hs
  · refine (visitPropOrArg_reads visitor opts b.visitor hs).bind fun v u hu hlt => ?_
    exact .ok hu hlt

theorem bodyRound_reads (hbody : Bodies src i body) (visitor : NodeVisitor σ) (opts : Opts) (b : BodyState σ)
    (hs : Steady src s t) (hi : i ≤ t.index) : Reads src s (Round.Meets (fun _ u => t.index < u.index) fun _ _ => True)
      (bodyRound src dom body visitor opts b t) := by
  refine (Reads.lex hs (skipNodeSpaceCounted_moves hs.boundary)).bind fun spaceBefore u hu hle => ?_
  have hle : t.index ≤ u.index := hle.2
  have hnext : ∀ {r}, Reads src s (Round.Meets (fun _ w => u.index < w.index) fun _ _ => True) r →
      Reads src s (Round.Meets (fun (_ : BodyState σ) w => t.index < w.index) fun (_ : σ) _ => True) r := by
    refine fun h => Returns.mono h (fun r w hw => ⟨hw.1, ?_⟩) fun _ _ h => h
    cases r with
    | again b => exact hle.trans_lt hw.2
    | done v => trivial
  obtain ⟨rest, hat⟩ := hu.boundary
  refine .step (lex_look (startsWith_run hat _)) ?_
  split
  · grind -linarith [slashdashRound_reads]
  refine .step (lex_look (peekByte_run hat)) ?_
  split
  · exact .ok hu trivial
  split
  · rename_i hsemi
    refine (Reads.lex hu (bumpByte_moves hat (c := ';') (by decide) hsemi le_rfl)).bind fun _ w hw _ => ?_
    exact .ok hw trivial
  split
  · grind [childrenBlockRound_reads]
  refine .step (lex_look (startsWith_run hat _)) ?_
  split
  · rename_i hslash
    refine (Reads.lex hu (skipLineComment_moves hat hslash)).bind fun _ w hw _ => ?_
    exact .ok hw trivial
  split
  · refine (Reads.lex hu (skipEscline_moves hu.boundary)).bind fun _ w hw hlt => ?_
    exact .ok hw (hle.trans_lt hlt.1)
  grind [entryRound_reads]

/-- Every nested body starts further on, so as much fuel as there is text ahead
is enough. -/
theorem visitNodeBody_reads {fuel : Nat} (v : σ) (h : OnBoundary src s.index) (hfuel : ahead src s.index < fuel) :
    Reads src s (fun _ _ => True) (visitNodeBody src dom fuel visitor opts v s) := by
  induction fuel generalizing σ s opts with
  | zero => omega
  | succ fuel ih =>
    have hbody : Bodies src s.index (visitNodeBody src dom fuel) := by
      intro σ visitor opts v t ht hlt
      have := ahead_lt ht hlt
      exact ih visitor opts v ht (by omega)
    exact Reads.loop (fun b u hu => bodyRound_reads hbody visitor opts b hu hu.forward) _ (.refl h)
      (ahead_rounds src _)

end Driver

section Node

variable {dom : Bool} (visitor : NodeVisitor σ) (opts : Opts)

theorem visitBody_reads (v : σ) (h : OnBoundary src s.index) :
    Reads src s (fun _ _ => True) (visitBody src dom visitor opts v s) :=
  visitNodeBody_reads visitor opts v h (ahead_rounds src s.index)

theorem visitBody_bodies (src : Source) (dom : Bool) (i : Nat) : Bodies src i (visitBody src dom) :=
  fun visitor opts v _ h _ => visitBody_reads visitor opts v h

theorem visitNode_reads (v : σ) (hs : Steady src s t) :
    Reads src s (fun _ u => t.index < u.index) (visitNode src dom visitor opts v t) :=
  visitNodeWith_reads (visitBody_bodies src dom t.index) visitor opts v hs le_rfl

theorem skipNode_reads (hs : Steady src s t) : Reads src s (fun _ u => t.index < u.index) (skipNode src dom t) :=
  skipNodeWith_reads (visitBody_bodies src dom t.index) hs le_rfl

theorem parseNode_reads (hs : Steady src s t) : Reads src s (fun _ u => t.index < u.index) (parseNode src t) := by
  refine (visitNode_reads domNodeBuilder Opts.new .default hs).bind fun builder u hu hlt => ?_
  exact Returns.mono (Reads.call hu) (fun _ _ h => ⟨h.1, h.2 ▸ hlt⟩) fun _ _ h => h

end Node

section Document

variable {dom : Bool} {fill : α → Reader α}

theorem documentRound_reads (hfill : ∀ a t, Steady src s t → Reads src s (fun _ u => t.index < u.index) (fill a t))
    (opts : Opts) (p : Nat × α) (hs : Steady src s t) :
    Reads src s (Round.Meets (fun _ u => t.index < u.index) fun _ _ => True) (documentRound src dom fill opts p t) := by
  obtain ⟨delivered, a⟩ := p
  refine (Reads.lex hs (skipLineSpace_moves hs.boundary)).bind fun _ u hu hle => ?_
  have hle : t.index ≤ u.index := hle.2
  obtain ⟨rest, hat⟩ := hu.boundary
  refine .step (lex_look (eof_run hat)) ?_
  split
  · exact .ok hu trivial
  refine .step (lex_look (peekByte_run hat)) ?_
  split
  · exact .fail hu
  refine .step (lex_look (startsWith_run hat _)) ?_
  split
  · rename_i hslash
    refine (skipSlashdashNode_reads (visitBody_bodies src dom u.index) hu le_rfl hat hslash).bind fun _ w hw hlt => ?_
    exact .ok hw (hle.trans_lt hlt)
  refine (hfill a u hu).bind fun a w hw hlt => ?_
  split
  · exact .fail hw
  split
  · exact .ok hw trivial
  · exact .ok hw (hle.trans_lt hlt)

theorem visitDocumentAtNodes_reads (hfill : ∀ a t, Steady src s t → Reads src s (fun _ u => t.index < u.index) (fill a t))
    (opts : Opts) (a : α) (hs : Steady src s t) :
    Reads src s (fun _ _ => True) (visitDocumentAtNodes src dom fill opts a t) := by
  refine (Reads.lex hs (skipBom_moves hs.boundary)).bind fun _ u hu _ => ?_
  refine (Reads.lex hu (skipVersionMarker_moves hu.boundary)).bind fun _ w hw _ => ?_
  refine Reads.bind (Q := fun _ _ => True)
    (Reads.loop (fun p x hx => documentRound_reads hfill opts p hx) (0, a) hw (ahead_rounds src _)) fun a x hx _ => ?_
  split
  · refine (Reads.lex hx (skipLineSpace_moves hx.boundary)).bind fun _ y hy _ => ?_
    obtain ⟨rest, hat⟩ := hy.boundary
    refine .step (lex_look (eof_run hat)) ?_
    split
    · exact .ok hy trivial
    · exact .fail hy
  · exact .ok hx trivial

theorem parseDocumentWithOpts_reads (opts : Opts) (hs : Steady src s t) :
    Reads src s (fun _ _ => True) (parseDocumentWithOpts src opts t) := by
  refine (visitDocumentAtNodes_reads (fun nodes u hu => ?_) opts [] hs).bind fun nodes u hu _ => .ok hu trivial
  exact (parseNode_reads hu).bind fun node w hw hlt => .ok hw hlt

end Document

end TensorDE.Kdl
