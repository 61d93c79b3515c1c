import TensorDE.Kdl.Entries

set_option linter.dupNamespace false

namespace TensorDE.Kdl

open Effect Utf8

/-- What a run of the reader leaves for an observer. No step reads it. -/
inductive Mark where
  | entered (depth : Nat)
  | untaken (offset : Nat)
deriving DecidableEq

structure Cursor where
  index : Nat
  depth : Nat
  trail : List Mark
deriving DecidableEq

abbrev Reader := Op Cursor ErrorCtx

/-- How a visitor answers the header of a child. It leaves the child to the
reader, or has its body read into a visitor of its own family and turns the
final state of that one into its own; `anchor` is what an error of the child
goes through. -/
inductive Takeover (σ : Type) where
  | declined (v : σ)
  | taken (child : σ) (opts : Opts) (finish : σ → Except ErrorCtx σ) (anchor : ErrorCtx → ErrorCtx)

/-- The callbacks of one visitor, or of a family of visitors that nest. -/
structure NodeVisitor (σ : Type) where
  onHeaderAt (v : σ) (offset : Nat) (typeName : Option Str) (name : Str) : Except ErrorCtx σ := .ok v
  onArgumentAt (v : σ) (offset : Nat) (typeName : Option Str) (value : Value) : Except ErrorCtx σ := .ok v
  onPropertyAt (v : σ) (offset : Nat) (key : Str) (typeName : Option Str) (value : Value) :
    Except ErrorCtx (Bool × σ) := .ok (true, v)
  onChild (v : σ) (child : Node) : Except ErrorCtx σ := .ok v
  takeChildAfterHeaderAt (v : σ) (offset : Nat) (opts : Opts) (typeName : Option Str) (name : Str) :
    Except ErrorCtx (Takeover σ) := .ok (.declined v)
  onChildrenBegin (v : σ) : Except ErrorCtx σ := .ok v
  onChildrenEnd (v : σ) : Except ErrorCtx σ := .ok v

section Visitors

structure DomNodeBuilder where
  typeName : Option Str
  name : Option Str
  entries : List Entry
  children : List Node

def DomNodeBuilder.default : DomNodeBuilder := ⟨none, none, [], []⟩

def DomNodeBuilder.finish (b : DomNodeBuilder) : Except ErrorCtx Node :=
  match b.name with
  | some name => .ok ⟨b.typeName, name, b.entries, b.children⟩
  | none => .error (.new .expectedNodeName 0)

def domNodeBuilder : NodeVisitor DomNodeBuilder where
  onHeaderAt b _ typeName name := .ok { b with typeName, name := some name }
  onArgumentAt b _ typeName value := .ok { b with entries := b.entries ++ [.argument typeName value] }
  onPropertyAt b _ key typeName value := .ok (true, { b with entries := b.entries ++ [.property key typeName value] })
  onChild b child := .ok { b with children := b.children ++ [child] }

/-- Counters wrap as in a release build. -/
structure CountingVisitor where
  headers : UInt32
  arguments : UInt32
  properties : UInt32
  children : UInt32

def CountingVisitor.default : CountingVisitor := ⟨0, 0, 0, 0⟩

def countingVisitor : NodeVisitor CountingVisitor where
  onHeaderAt v _ _ _ := .ok { v with headers := v.headers + 1 }
  onArgumentAt v _ _ _ := .ok { v with arguments := v.arguments + 1 }
  onPropertyAt v _ _ _ _ := .ok (true, { v with properties := v.properties + 1 })
  onChild v _ := .ok { v with children := v.children + 1 }
  takeChildAfterHeaderAt v offset opts _ _ := .ok (.taken { CountingVisitor.default with headers := 1 } opts
    (fun nested => .ok { v with
      children := v.children + (1 + nested.children)
      arguments := v.arguments + nested.arguments
      properties := v.properties + nested.properties })
    (ErrorCtx.anchor offset))

/-- The visitor of a skipped children block: every callback is the default one. -/
def skipVisitor : NodeVisitor Unit where

end Visitors

/-- Lift a method that only moves the index. -/
def lex {α : Type} (x : Lex α) : Reader α := fun s =>
  match x s.index with
  | .ok a index => .ok a { s with index }
  | .error e index => .error e { s with index }

def call {α : Type} (x : Except ErrorCtx α) : Reader α :=
  match x with
  | .ok a => pure a
  | .error e => fail e

def mark (m : Mark) : Reader Unit := modify fun s => { s with trail := m :: s.trail }

/-- Reading the body of one node into a visitor, header consumed. -/
abbrev Drive := ∀ {σ : Type}, NodeVisitor σ → Opts → σ → Reader σ

variable (src : Source)

def enterDepth (offset : Nat) : Reader Unit := do
  let s ← get
  if src.maxDepth ≤ s.depth then
    fail ((ErrorCtx.new .exceededMaxDepth offset).withMessage s!"max depth is {src.maxDepth}")
  else do
    set { s with depth := s.depth + 1 }
    mark (.entered (s.depth + 1))

def leaveDepth (s : Cursor) : Cursor := { s with depth := s.depth - 1 }

section Driver

variable (dom : Bool) (body : Drive)

def visitNodeWith {σ : Type} (visitor : NodeVisitor σ) (opts : Opts) (v : σ) : Reader σ := do
  let nodeOffset ← lex get
  let (typeName, name) ← lex (parseNodeHeader src)
  let v ← call (visitor.onHeaderAt v nodeOffset typeName name)
  body visitor opts v

def skipNodeWith : Reader Unit := do
  let _ ← visitNodeWith src body countingVisitor Opts.lenient CountingVisitor.default
  pure ()

/-- A node behind a slashdash, in a children block or at the top level. -/
def skipSlashdashNode : Reader Unit := do
  let start ← lex get
  lex (advance 2)
  lex (skipLineSpace src)
  skipNodeWith src body
  let index ← lex get
  if index = start then fail ((← lex (err src .syntaxError)).withMessage "invalid slashdash") else pure ()

/-- A child its visitor left to the reader: built as a tree with feature `dom`,
refused without it. -/
def readUntaken {σ : Type} (visitor : NodeVisitor σ) (opts : Opts) (v : σ) (nodeOffset : Nat) (typeName : Option Str)
    (name : Str) : Reader σ := do
  mark (.untaken nodeOffset)
  if dom then do
    let builder ← call (domNodeBuilder.onHeaderAt .default nodeOffset typeName name)
    let builder ← body domNodeBuilder opts builder
    let child ← call builder.finish
    call (visitor.onChild v child)
  else
    fail ((← lex (err src .unknownChild)).withMessage
      "child node requires DecodeFromVisit (enable feature `dom` for DOM fallback)")

def visitChild {σ : Type} (visitor : NodeVisitor σ) (opts : Opts) (v : σ) (nodeOffset : Nat) (typeName : Option Str)
    (name : Str) : Reader σ := do
  match ← call (visitor.takeChildAfterHeaderAt v nodeOffset opts typeName name) with
  | .taken child childOpts finish anchor => do
    let child ← mapError anchor (body visitor childOpts child)
    call (finish child)
  | .declined v => readUntaken src dom body visitor opts v nodeOffset typeName name

def childrenRound {σ : Type} (visitor : NodeVisitor σ) (opts : Opts) (v : σ) : Reader (Round σ σ) := do
  lex (skipLineSpace src)
  if ← lex (eof src) then fail ((← lex (err src .expectedBrace)).withExpected "`\x7d`")
  else if (← lex (peekByte src)) = some '}'.toUInt8 then pure (.done v)
  else if ← lex (startsWith src ['/', '-']) then do
    skipSlashdashNode src body
    pure (.again v)
  else do
    let nodeOffset ← lex get
    let (typeName, name) ← lex (parseNodeHeader src)
    let v ← visitChild src dom body visitor opts v nodeOffset typeName name
    pure (.again v)

def closeChildrenBlock : Reader Unit := do
  lex (skipLineSpace src)
  if (← lex (peekByte src)) ≠ some '}'.toUInt8 then fail ((← lex (err src .expectedBrace)).withExpected "`\x7d`")
  else lex (bumpByte src)

def visitChildrenBlock {σ : Type} (visitor : NodeVisitor σ) (opts : Opts) (v : σ) : Reader σ := do
  if (← lex (peekByte src)) ≠ some '{'.toUInt8 then fail ((← lex (err src .expectedBrace)).withExpected "`\x7b`")
  else do
    let offset ← lex get
    lex (bumpByte src)
    enterDepth src offset
    let inside : Reader σ := do
      let v ← loop (childrenRound src dom body visitor opts) src.rounds v
      closeChildrenBlock src
      pure v
    always inside leaveDepth

def skipChildrenBlock : Reader Unit := visitChildrenBlock src dom body skipVisitor Opts.new ()

def visitPropOrArg {σ : Type} (visitor : NodeVisitor σ) (opts : Opts) (v : σ) : Reader σ := do
  let entryOffset ← lex get
  match ← lex (parsePropOrArg src) with
  | .argument typeName value => call (visitor.onArgumentAt v entryOffset typeName value)
  | .property key typeName value => do
    let (handled, v) ← call (visitor.onPropertyAt v entryOffset key typeName value)
    if !handled && opts.errorOnUnknownKeys then
      fail ((ErrorCtx.new .unknownProperty entryOffset).withMessage "property not recognized by visitor")
    else pure v

structure BodyState (σ : Type) where
  afterChildren : Bool
  hasRealChildren : Bool
  needSpaceBeforeEntry : Bool
  visitor : σ

def slashdashRound {σ : Type} (b : BodyState σ) : Reader (Round (BodyState σ) σ) := do
  lex (advance 2)
  lex (skipLineSpace src)
  if (← lex (peekByte src)) = some '{'.toUInt8 then do
    skipChildrenBlock src dom body
    pure (.again { b with afterChildren := true, needSpaceBeforeEntry := true })
  else if b.afterChildren then
    fail ((← lex (err src .syntaxError)).withMessage "entries are not allowed after a children block")
  else do
    lex (skipPropOrArg src)
    pure (.again { b with needSpaceBeforeEntry := true })

def childrenBlockRound {σ : Type} (visitor : NodeVisitor σ) (opts : Opts) (b : BodyState σ) :
    Reader (Round (BodyState σ) σ) := do
  if b.hasRealChildren then
    fail ((← lex (err src .syntaxError)).withMessage "node already has a children block")
  else do
    let v ← call (visitor.onChildrenBegin b.visitor)
    let v ← visitChildrenBlock src dom body visitor opts v
    let v ← call (visitor.onChildrenEnd v)
    pure (.again ⟨true, true, true, v⟩)

def entryRound {σ : Type} (visitor : NodeVisitor σ) (opts : Opts) (b : BodyState σ) (spaceBefore : Bool) :
    Reader (Round (BodyState σ) σ) := do
  if ← lex (atNewline src) then pure (.done b.visitor)
  else if b.afterChildren then
    fail ((← lex (err src .syntaxError)).withMessage "entries are not allowed after a children block")
  else if b.needSpaceBeforeEntry && !spaceBefore then
    fail ((← lex (err src .syntaxError)).withMessage "expected whitespace before argument or property")
  else do
    let v ← visitPropOrArg src visitor opts b.visitor
    pure (.again { b with needSpaceBeforeEntry := true, visitor := v })

def bodyRound {σ : Type} (visitor : NodeVisitor σ) (opts : Opts) (b : BodyState σ) :
    Reader (Round (BodyState σ) σ) := do
  let spaceBefore ← lex (skipNodeSpaceCounted src)
  if ← lex (startsWith src ['/', '-']) then slashdashRound src dom body b
  else do
    let next ← lex (peekByte src)
    if next = none ∨ next = some '}'.toUInt8 then pure (.done b.visitor)
    else if next = some ';'.toUInt8 then do
      lex (bumpByte src)
      pure (.done b.visitor)
    else if next = some '{'.toUInt8 then childrenBlockRound src dom body visitor opts b
    else if ← lex (startsWith src ['/', '/']) then do
      lex (skipLineComment src)
      pure (.done b.visitor)
    else if next = some '\\'.toUInt8 then do
      lex (skipEscline src)
      pure (.again { b with needSpaceBeforeEntry := false })
    else entryRound src visitor opts b spaceBefore

end Driver

/-- The reader of a node's body, nested at most `fuel` deep. -/
def visitNodeBody (dom : Bool) : Nat → Drive
  | 0 => fun _ _ _ => throw .diverge
  | fuel + 1 => fun visitor opts v =>
    loop (bodyRound src dom (visitNodeBody dom fuel) visitor opts) src.rounds ⟨false, false, true, v⟩

variable (dom : Bool)

/-- `finish_nested_child` as well: the two have one body in the source. -/
def visitBody : Drive := visitNodeBody src dom src.rounds

def visitNode {σ : Type} (visitor : NodeVisitor σ) (opts : Opts) (v : σ) : Reader σ :=
  visitNodeWith src (visitBody src dom) visitor opts v

def skipNode : Reader Unit := skipNodeWith src (visitBody src dom)

/-- Feature `dom` only, as is every caller of it. -/
def parseNode : Reader Node := do
  let builder ← visitNode src true domNodeBuilder Opts.new .default
  call builder.finish

section Document

variable {α : Type} (fill : α → Reader α) (opts : Opts)

def documentRound : Nat × α → Reader (Round (Nat × α) α)
  | (delivered, a) => do
    lex (skipLineSpace src)
    if ← lex (eof src) then pure (.done a)
    else if (← lex (peekByte src)) = some '}'.toUInt8 then
      fail ((← lex (err src .unexpectedToken)).withMessage "unmatched `\x7d`")
    else if ← lex (startsWith src ['/', '-']) then do
      skipSlashdashNode src (visitBody src dom)
      pure (.again (delivered, a))
    else do
      let a ← fill a
      if src.maxChildren < delivered + 1 then
        fail ((← lex (err src .exceededLimit)).withMessage "too many nodes")
      else pure (if opts.partialRead then .done a else .again (delivered + 1, a))

/-- `fill` reads one node; what it captures is `α`. -/
def visitDocumentAtNodes (a : α) : Reader α := do
  lex (skipBom src)
  lex (skipVersionMarker src)
  let a ← loop (documentRound src dom fill opts) src.rounds (0, a)
  if opts.validateTrailing && !opts.partialRead then do
    lex (skipLineSpace src)
    if ← lex (eof src) then pure a
    else fail ((← lex (err src .unexpectedToken)).withMessage "trailing content after document")
  else pure a

end Document

def parseDocumentWithOpts (opts : Opts) : Reader Document := do
  let nodes ← visitDocumentAtNodes src true (fun nodes => do
    let node ← parseNode src
    pure (nodes ++ [node])) opts []
  pure ⟨nodes⟩

def parseDocument : Reader Document := parseDocumentWithOpts src Opts.new

def Cursor.start : Cursor := ⟨0, 0, []⟩

end TensorDE.Kdl
