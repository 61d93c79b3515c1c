import TensorDE.Kdl.ReaderBounds

namespace TensorDE.Kdl

open Effect Utf8

variable {src : Source} {dom : Bool} {s t : Cursor} {rest : Str} {α β : Type}

/-- The methods that only move the index, with `rest` ahead of it. A byte is bumped
on an ASCII character or at the end, a comment is skipped where one starts. -/
inductive Method (src : Source) (rest : Str) : {α : Type} → Lex α → Prop where
  | remaining : Method src rest (remaining src)
  | eof : Method src rest (eof src)
  | peekByte : Method src rest (peekByte src)
  | peekChar : Method src rest (peekChar src)
  | startsWith (s : Str) : Method src rest (startsWith src s)
  | atNewline : Method src rest (atNewline src)
  | looksLikeNumber : Method src rest (looksLikeNumber src)
  | atValueKeywordOrNumber : Method src rest (atValueKeywordOrNumber src)
  | bumpByte : (∀ c ∈ rest.head?, c.toNat < 128) → Method src rest (bumpByte src)
  | bumpChar : Method src rest (bumpChar src)
  | consumeExact (s : Str) : Method src rest (consumeExact src s)
  | consumeNewline : Method src rest (consumeNewline src)
  | skipLineComment : ['/', '/'].isPrefixOf rest = true → Method src rest (skipLineComment src)
  | skipBlockComment : ['/', '*'].isPrefixOf rest = true → Method src rest (skipBlockComment src)
  | skipWsOnly : Method src rest (skipWsOnly src)
  | skipEscline : Method src rest (skipEscline src)
  | skipNodeSpace : Method src rest (skipNodeSpace src)
  | skipNodeSpaceCounted : Method src rest (skipNodeSpaceCounted src)
  | skipLineSpace : Method src rest (skipLineSpace src)
  | skipBom : Method src rest (skipBom src)
  | skipVersionMarker : Method src rest (skipVersionMarker src)
  | parseIdentifierString : Method src rest (parseIdentifierString src)
  | interpretEscape : Method src rest (interpretEscape src)
  | unescapeQuotedUntil : Method src rest (unescapeQuotedUntil src)
  | parseQuotedString : Method src rest (parseQuotedString src)
  | parseMultilineString (hashes : Nat) (raw : Bool) : Method src rest (parseMultilineString src hashes raw)
  | parseRawString : Method src rest (parseRawString src)
  | parseStringValue : Method src rest (parseStringValue src)
  | consumeDigitsUnderscores (isDigit : Char → Bool) : Method src rest (consumeDigitsUnderscores src isDigit)
  | rejectNumberTrailer (start : Nat) : Method src rest (rejectNumberTrailer src start)
  | parseNumber : Method src rest (parseNumber src)
  | parseHashKeywordOrRawString : Method src rest (parseHashKeywordOrRawString src)
  | parseValueAfterType : Method src rest (parseValueAfterType src)
  | tryParseTypeAnnotation : Method src rest ( tryParseTypeAnnotation src)
  | parseTypedValue : Method src rest (parseTypedValue src)
  | parseValue : Method src rest (parseValue src)
  | parsePropOrArg : Method src rest (parsePropOrArg src)
  | skipPropOrArg : Method src rest (skipPropOrArg src)
  | parseNodeHeader : Method src rest (parseNodeHeader src)

variable {i : Nat}

theorem Moves.any {Q : α → Nat → Prop} {r : EStateM.Result (Fault ErrorCtx) Nat α} (h : Moves src i Q r) :
    Moves src i Any r :=
  h.mono le_rfl fun _ _ _ _ _ => trivial

variable {x : Lex α}

theorem Moves.stays {a : α} (hx : x i = .ok a i) (h : OnBoundary src i) : Moves src i Any (x i) := by
  rw [hx]
  exact .ok le_rfl h trivial

theorem bumpByte_any (h : At src i rest) (hascii : ∀ c ∈ rest.head?, c.toNat < 128) :
    Moves src i Any (bumpByte src i) := by
  cases rest with
  | nil =>
    have hend := h.size_eq
    rw [size_nil] at hend
    rw [bumpByte, modify_run, if_neg (by omega)]
    exact .ok le_rfl h.boundary trivial
  | cons c rest =>
    have hc := hascii c rfl
    have htail := h.tail
    rw [utf8Size_ascii hc] at htail
    rw [bumpByte_run h hc]
    exact .ok (Nat.le_succ i) htail.boundary trivial

theorem Method.moves (hx : Method src rest x) (h : At src i rest) : Moves src i Any (x i) := by
  have hb := h.boundary
  cases hx with
  | remaining => exact .stays (remaining_run h) hb
  | eof => exact .stays (eof_run h) hb
  | peekByte => exact .stays (peekByte_run h) hb
  | peekChar => exact .stays (peekChar_run h) hb
  | startsWith s => exact .stays (startsWith_run h s) hb
  | atNewline => exact .stays (atNewline_run h) hb
  | looksLikeNumber => exact .stays (looksLikeNumber_run h) hb
  | atValueKeywordOrNumber => exact (atValueKeywordOrNumber_moves h le_rfl).any
  | bumpByte hascii => exact bumpByte_any h hascii
  | bumpChar => exact (bumpChar_moves hb le_rfl).any
  | consumeExact s => exact (consumeExact_moves h le_rfl).any
  | consumeNewline => exact (consumeNewline_moves h).any
  | skipLineComment hs => exact (skipLineComment_moves h hs).any
  | skipBlockComment hs => exact (skipBlockComment_moves h hs).any
  | skipWsOnly => exact skipWsOnly_moves hb
  | skipEscline => exact (skipEscline_moves hb).any
  | skipNodeSpace => exact skipNodeSpace_moves hb
  | skipNodeSpaceCounted => exact (skipNodeSpaceCounted_moves hb).any
  | skipLineSpace => exact skipLineSpace_moves hb
  | skipBom => exact skipBom_moves hb
  | skipVersionMarker => exact skipVersionMarker_moves hb
  | parseIdentifierString => exact (parseIdentifierString_moves hb).any
  | interpretEscape => exact (interpretEscape_moves hb le_rfl).any
  | unescapeQuotedUntil => exact (unescapeQuotedUntil_moves hb le_rfl).any
  | parseQuotedString => exact (parseQuotedString_moves hb).any
  | parseMultilineString hashes raw => exact (parseMultilineString_moves hashes raw hb le_rfl).any
  | parseRawString => exact (parseRawString_moves hb).any
  | parseStringValue => exact (parseStringValue_moves hb).any
  | consumeDigitsUnderscores isDigit => exact (consumeDigitsUnderscores_moves isDigit hb le_rfl).any
  | rejectNumberTrailer start => exact (rejectNumberTrailer_moves start hb le_rfl).any
  | parseNumber => exact (parseNumber_moves hb).any
  | parseHashKeywordOrRawString => exact (parseHashKeywordOrRawString_moves hb).any
  | parseValueAfterType => exact (parseValueAfterType_moves hb).any
  | tryParseTypeAnnotation => exact tryParseTypeAnnotation_moves hb
  | parseTypedValue => exact (parseTypedValue_moves hb).any
  | parseValue => exact (parseValue_moves hb).any
  | parsePropOrArg => exact (parsePropOrArg_moves hb).any
  | skipPropOrArg => exact (skipPropOrArg_moves hb).any
  | parseNodeHeader => exact (parseNodeHeader_moves hb).any

/-- How the callers of the document loop read one node: into a tree, into a
visitor, or by its header first and its body as the header says. -/
inductive Fill (src : Source) (dom : Bool) : {α : Type} → (α → Reader α) → Prop where
  | parse {α : Type} (finish : α → Node → Except ErrorCtx α) :
    Fill src dom fun a => do
      let node ← parseNode src
      call (finish a node)
  | visit {α σ : Type} (visitor : NodeVisitor σ) (opts : Opts) (start : α → σ) (finish : α → σ → Except ErrorCtx α) :
    Fill src dom fun a => do
      let v ← visitNode src dom visitor opts (start a)
      call (finish a v)
  | dispatch {α σ : Type} (visitor : NodeVisitor σ) (opts : Opts)
      (start : α → Option Str → Str → Except ErrorCtx σ) (finish : α → σ → Except ErrorCtx α) :
    Fill src dom fun a => do
      let (typeName, name) ← lex (parseNodeHeader src)
      let v ← call (start a typeName name)
      let v ← visitBody src dom visitor opts v
      call (finish a v)

theorem Fill.reads {fill : α → Reader α} (hfill : Fill src dom fill) (a : α) (hs : Steady src s t) :
    Reads src s (fun _ u => t.index < u.index) (fill a t) := by
  -- what a callback makes of the node does not move the cursor
  have hend : ∀ {u : Cursor} (x : Except ErrorCtx α), Steady src s u → t.index < u.index →
      Reads src s (fun _ u => t.index < u.index) (call x u) := fun x hu hlt =>
    Returns.mono (Reads.call hu) (fun _ _ h => ⟨h.1, h.2 ▸ hlt⟩) fun _ _ h => h
  cases hfill with
  | parse finish => exact (parseNode_reads hs).bind fun node u hu hlt => hend _ hu hlt
  | visit visitor opts start finish =>
    exact (visitNode_reads visitor opts (start a) hs).bind fun v u hu hlt => hend _ hu hlt
  | dispatch visitor opts start finish =>
    refine (Reads.lex hs (parseNodeHeader_moves hs.boundary)).bind fun ⟨typeName, name⟩ u hu hlt => ?_
    refine (Reads.call hu).bind fun v w hw heq => ?_
    subst heq
    have hlt : t.index < w.index := hlt.1
    refine Reads.bind ((visitBody_reads visitor opts v hw.boundary).mono hw fun _ x hx _ => hx.forward)
      fun v x hx hle => ?_
    exact hend _ hx (hlt.trans_le hle)

/-- The operations of the parser, for a call from `s`. -/
inductive Operation (src : Source) (dom : Bool) (s : Cursor) : {α : Type} → Reader α → Prop where
  | lex {α : Type} {x : Lex α} {rest : Str} : At src s.index rest → Method src rest x → Operation src dom s (lex x)
  | visitPropOrArg {σ : Type} (visitor : NodeVisitor σ) (opts : Opts) (v : σ) :
    Operation src dom s (visitPropOrArg src visitor opts v)
  | visitChildrenBlock {σ : Type} (visitor : NodeVisitor σ) (opts : Opts) (v : σ) :
    Operation src dom s (visitChildrenBlock src dom (visitBody src dom) visitor opts v)
  | skipChildrenBlock : Operation src dom s (skipChildrenBlock src dom (visitBody src dom))
  | visitBody {σ : Type} (visitor : NodeVisitor σ) (opts : Opts) (v : σ) :
    Operation src dom s (visitBody src dom visitor opts v)
  | visitNode {σ : Type} (visitor : NodeVisitor σ) (opts : Opts) (v : σ) :
    Operation src dom s (visitNode src dom visitor opts v)
  | skipNode : Operation src dom s (skipNode src dom)
  | parseNode : Operation src dom s (parseNode src)
  | visitDocumentAtNodes {α : Type} {fill : α → Reader α} (opts : Opts) (a : α) :
    Fill src dom fill → Operation src dom s (visitDocumentAtNodes src dom fill opts a)
  | parseDocumentWithOpts (opts : Opts) : Operation src dom s (parseDocumentWithOpts src opts)

theorem Operation.reads {x : Reader α} (hx : Operation src dom s x) (h : OnBoundary src s.index) :
    Reads src s (fun _ _ => True) (x s) := by
  have hs := Steady.refl h
  have hbodies : Bodies src s.index (Kdl.visitBody src dom) := visitBody_bodies src dom s.index
  cases hx with
  | lex hat hx => exact (Reads.lex hs (hx.moves hat)).mono hs fun _ _ _ _ => trivial
  | visitPropOrArg visitor opts v => exact (visitPropOrArg_reads visitor opts v hs).mono hs fun _ _ _ _ => trivial
  | visitChildrenBlock visitor opts v =>
    exact (visitChildrenBlock_reads hbodies visitor opts v hs le_rfl).mono hs fun _ _ _ _ => trivial
  | skipChildrenBlock => exact (visitChildrenBlock_reads hbodies _ _ _ hs le_rfl).mono hs fun _ _ _ _ => trivial
  | visitBody visitor opts v => exact visitBody_reads visitor opts v h
  | visitNode visitor opts v => exact (visitNode_reads visitor opts v hs).mono hs fun _ _ _ _ => trivial
  | skipNode => exact (skipNode_reads hs).mono hs fun _ _ _ _ => trivial
  | parseNode => exact (parseNode_reads hs).mono hs fun _ _ _ _ => trivial
  | visitDocumentAtNodes opts a hfill => grind [visitDocumentAtNodes_reads, hfill.reads]
  | parseDocumentWithOpts opts => exact parseDocumentWithOpts_reads opts hs

/-- A round of one of the loops that move the index. -/
inductive LexRound (src : Source) : {α β : Type} → Lex (Round α β) → Prop where
  | lineComment : LexRound src (lineCommentRound src ())
  | blockComment (depth : Int) : LexRound src (blockCommentRound src depth)
  | wsOnly : LexRound src (wsOnlyRound src ())
  | nodeSpace : LexRound src (nodeSpaceRound src ())
  | lineSpace : LexRound src (lineSpaceRound src ())
  | ident : LexRound src (identRound src ())
  | hex : LexRound src (hexRound src ())
  | wsEscape : LexRound src (wsEscapeRound src ())
  | unescape (scratch : Str) : LexRound src (unescapeRound src scratch)
  | hashes (count : Nat) : LexRound src (hashesRound src count)
  | digits (isDigit : Char → Bool) (run : DigitRun) : LexRound src (digitsRound src isDigit run)

/-- A round of any loop of the reader started from `s`, the position it starts at and
the position the next one would start at. Two scans for the end of a string keep a
position of their own. A nested body is read with as much fuel as there is text ahead. -/
inductive LoopRound (src : Source) (dom : Bool) (s : Cursor) :
    {α β : Type} → Reader (Round α β) → Nat → (α → Cursor → Nat) → Prop where
  | lex {α β : Type} {x : Lex (Round α β)} :
    LexRound src x → LoopRound src dom s (lex x) s.index fun _ t => t.index
  | quoted (scan : Nat × Bool) :
    s.index ≤ scan.1 → LoopRound src dom s (lex (quotedRound src s.index scan)) scan.1 fun scan' _ => scan'.1
  | multilineCloser (hashes pos : Nat) :
    s.index ≤ pos → pos ≤ src.logicalEnd →
      LoopRound src dom s (lex (multilineCloserRound src s.index hashes pos)) pos fun pos' _ => pos'
  | children {σ : Type} (fuel : Nat) (visitor : NodeVisitor σ) (opts : Opts) (v : σ) :
    ahead src s.index ≤ fuel →
      LoopRound src dom s (childrenRound src dom (visitNodeBody src dom fuel) visitor opts v) s.index fun _ t => t.index
  | body {σ : Type} (fuel : Nat) (visitor : NodeVisitor σ) (opts : Opts) (b : BodyState σ) :
    ahead src s.index ≤ fuel →
      LoopRound src dom s (bodyRound src dom (visitNodeBody src dom fuel) visitor opts b) s.index fun _ t => t.index
  | document {α : Type} {fill : α → Reader α} (opts : Opts) (p : Nat × α) :
    Fill src dom fill → LoopRound src dom s (documentRound src dom fill opts p) s.index fun _ t => t.index

theorem LexRound.moves {x : Lex (Round α β)} (hx : LexRound src x) (h : OnBoundary src i) :
    Moves src i (Round.Meets (fun _ j => i < j) Any) (x i) := by
  obtain ⟨rest, hat⟩ := h
  have h := hat.boundary
  cases hx with
  | lineComment => exact lineCommentRound_moves hat le_rfl
  | blockComment depth => exact blockCommentRound_moves depth hat le_rfl
  | wsOnly => exact wsOnlyRound_moves hat le_rfl
  | nodeSpace => exact nodeSpaceRound_moves h le_rfl
  | lineSpace => exact lineSpaceRound_moves h le_rfl
  | ident => exact identRound_moves h le_rfl
  | hex => exact hexRound_moves h le_rfl
  | wsEscape => exact wsEscapeRound_moves h le_rfl
  | unescape scratch => exact unescapeRound_moves scratch h le_rfl
  | hashes count => exact hashesRound_moves count h le_rfl
  | digits isDigit run => exact digitsRound_moves isDigit run h le_rfl

theorem nested_bodies {fuel i : Nat} (hfuel : ahead src i ≤ fuel) : Bodies src i (visitNodeBody src dom fuel) := by
  intro σ visitor opts v t ht hlt
  have := ahead_lt ht hlt
  grind [visitNodeBody_reads]

theorem LoopRound.reads {x : Reader (Round α β)} {before : Nat} {position : α → Cursor → Nat}
    (hx : LoopRound src dom s x before position) (h : OnBoundary src s.index) :
    Reads src s (Round.Meets (fun a t => before < position a t) fun _ _ => True) (x s) := by
  have hs := Steady.refl h
  -- the outcome of a lexical round is read off its own
  have hlex : ∀ {P : α → Nat → Prop} {Q : β → Nat → Prop} {x : Lex (Round α β)},
      Moves src s.index (Round.Meets P Q) (x s.index) → (∀ a t, P a t.index → before < position a t) →
      Reads src s (Round.Meets (fun a t => before < position a t) fun _ _ => True) (Kdl.lex x s) := by
    refine fun hx hP => Returns.mono (Reads.lex hs hx) (fun r t hr => ⟨hr.1, ?_⟩) fun _ _ h => h
    cases r with
    | again a => exact hP a t hr.2.1
    | done b => trivial
  cases hx with
  | lex hx => exact hlex (hx.moves h) fun _ _ hlt => hlt
  | quoted scan hscan => exact hlex (quotedRound_moves h le_rfl hscan) fun _ _ hr => hr.2.1
  | multilineCloser hashes pos hpos hend =>
    exact hlex (multilineCloserRound_moves h h le_rfl hpos hend) fun _ _ hr => hr.2.1
  | children fuel visitor opts v hfuel => exact childrenRound_reads (nested_bodies hfuel) visitor opts v hs le_rfl
  | body fuel visitor opts b hfuel => exact bodyRound_reads (nested_bodies hfuel) visitor opts b hs le_rfl
  | document opts p hfill => grind [documentRound_reads, hfill.reads]

theorem findCloser_fuel {index quoteCount hashes : Nat} (hindex : index ≤ src.logicalEnd) (extra : Nat) :
    findStringCloser src.bytes (min src.logicalEnd src.bytes.length) quoteCount hashes (src.logicalEnd + 1 + extra)
      index = findCloser src index quoteCount hashes := by
  have hmin : min src.logicalEnd src.bytes.length = src.logicalEnd := by
    simp [Source.bytes, length_encode_input]
  rw [findCloser, hmin]
  have hfuel : src.logicalEnd - index < src.logicalEnd + 1 := by omega
  generalize src.logicalEnd + 1 = fuel at hfuel ⊢
  induction fuel generalizing index with
  | zero => omega
  | succ fuel ih => grind [findStringCloser, findQuote_at]

/-- Every operation comes back, from any boundary to a boundary that is not before
it, with the depth as it was and never raised beyond the limit; every round of a
loop moves its position on, leaves the loop or fails. -/
theorem reader_progress_and_depth (src : Source) (dom : Bool) (s : Cursor) (h : OnBoundary src s.index) :
    s.index ≤ src.logicalEnd ∧ (∀ (α : Type) (x : Reader α), Operation src dom s x →
        Returns (fun _ t => Steady src s t) (fun _ t => Steady src s t) (x s)) ∧
      (∀ (α β : Type) (x : Reader (Round α β)) (before : Nat) (position : α → Cursor → Nat),
        LoopRound src dom s x before position →
        Returns (fun r t => Steady src s t ∧ ∀ a, r = .again a → before < position a t) (fun _ t => Steady src s t) (x s)) ∧
      ∀ quoteCount hashes extra : Nat,
        findStringCloser src.bytes (min src.logicalEnd src.bytes.length) quoteCount hashes (src.logicalEnd + 1 + extra)
          s.index = findCloser src s.index quoteCount hashes := by
  refine ⟨h.le, fun _ x hx => ?_, fun _ _ x before position hx => ?_, fun _ _ extra => findCloser_fuel h.le extra⟩
  · exact Returns.mono (hx.reads h) (fun _ _ h => h.1) fun _ _ h => h
  · refine Returns.mono (hx.reads h) (fun r t hr => ⟨hr.1, ?_⟩) fun _ _ h => h
    rintro a rfl
    exact hr.2

theorem reader_progress_from_start :
    ∃ src : Source, src.input = ['a', ' ', '/', '-', '{', '}'] ∧ OnBoundary src Cursor.start.index ∧
      Returns (fun _ t => Steady src Cursor.start t) (fun _ t => Steady src Cursor.start t)
        (parseDocumentWithOpts src Opts.new Cursor.start) := by
  let src : Source := ⟨['a', ' ', '/', '-', '{', '}'], true, 100, 100, 3⟩
  have hstart : OnBoundary src Cursor.start.index := (At.start src).boundary
  have hops := (reader_progress_and_depth src true Cursor.start hstart).2.1
  exact ⟨src, rfl, hstart, hops _ (parseDocumentWithOpts src Opts.new) (.parseDocumentWithOpts Opts.new)⟩

end TensorDE.Kdl
