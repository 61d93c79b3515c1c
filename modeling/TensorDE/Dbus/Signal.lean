import TensorDE.Dbus.Auth
import TensorDE.Dbus.ObjectServer
import Mathlib.Data.List.Nodup

set_option linter.dupNamespace false

namespace TensorDE.Dbus.Match

open Bytes Effect List

variable {B : Type}

/-- A message as a match rule sees it; `names` is its body read as three strings. -/
structure SignalMessage (B : Type) where
  kind : MessageKind
  sender : Option Bytes
  path : Option Bytes
  interface : Option Bytes
  member : Option Bytes
  destination : Option Bytes
  names : Except Error (Bytes × Bytes × Bytes)
  body : B

inductive PathMatch where
  | exact (path : Bytes)
  | namespace (path : Bytes)

def pathMatches (expected : PathMatch) : Option Bytes → Bool
  | none => false
  | some actual =>
    match expected with
    | .exact path => actual = path
    | .namespace path => actual = path || path = ofAscii "/" || path.isPrefixOf actual && (actual.drop path.length).head? = some 47

/-- `bodyMatches` stands for the conditions on the arguments. -/
structure MatchRule (B : Type) where
  sender : Option Bytes
  localSender : Option Bytes
  path : Option PathMatch
  interface : Option Bytes
  member : Option Bytes
  destination : Option Bytes
  bodyMatches : B → Bool

def isUniqueSender (name : Bytes) : Bool := name.head? = some colon

def isNameOwnerChanged (message : SignalMessage B) : Bool :=
  message.kind = .signal ∧ message.sender = some (ofAscii "org.freedesktop.DBus") ∧
    message.path = some (ofAscii "/org/freedesktop/DBus") ∧ message.interface = some (ofAscii "org.freedesktop.DBus") ∧
    message.member = some (ofAscii "NameOwnerChanged")

namespace MatchRule

def signal (sender path interface member : Option Bytes) : Except Error (MatchRule B) := do
  sender.forM (validateBusName · "signal sender")
  path.forM (validateName isObjectPath · "signal object path")
  interface.forM (validateInterfaceName · "signal interface")
  member.forM (validateMemberName · "signal member")
  .ok ⟨sender, sender.filter isUniqueSender, path.map .exact, interface, member, none, fun _ => true⟩

variable (rule : MatchRule B)

def wellKnownSender : Option Bytes := rule.sender.filter (! isUniqueSender ·)

/-- What `matches` asks for besides the sender. -/
def passes (message : SignalMessage B) : Bool :=
  message.kind = .signal && rule.path.all (pathMatches · message.path) &&
    rule.interface.all (fun value => message.interface = some value) &&
    rule.member.all (fun value => message.member = some value) &&
    rule.destination.all (fun value => message.destination = some value) && rule.bodyMatches message.body

def matchesMessage (message : SignalMessage B) : Bool :=
  (rule.sender.isNone || rule.localSender = message.sender) && rule.passes message

def setOwner (owner : Option Bytes) : MatchRule B := { rule with localSender := owner }

def observe (message : SignalMessage B) : Except Error (Bool × MatchRule B) :=
  match rule.wellKnownSender with
  | none => .ok (false, rule)
  | some expected =>
    if isNameOwnerChanged message then do
      let (name, _, newOwner) ← message.names
      if name ≠ expected then .ok (false, rule)
      else do
        if newOwner ≠ [] then validateUniqueName newOwner "signal sender owner" else .ok ()
        .ok (true, rule.setOwner (if newOwner = [] then none else some newOwner))
    else .ok (false, rule)

/-- The end of `add_match`, with the owner that the bus names. -/
def addMatch (owner : Option Bytes) : Except Error (MatchRule B) :=
  match rule.wellKnownSender with
  | none => .ok rule
  | some _ => do
    owner.forM (validateUniqueName · "signal sender owner")
    .ok (rule.setOwner owner)

end MatchRule

inductive OwnerEvent (B : Type) where
  | observe (message : SignalMessage B)
  | addMatch (owner : Option Bytes)

/-- A call that fails leaves the rule as it is. -/
def MatchRule.after (rule : MatchRule B) : OwnerEvent B → MatchRule B
  | .observe message =>
    match rule.observe message with
    | .ok (_, rule) => rule
    | .error _ => rule
  | .addMatch owner =>
    match rule.addMatch owner with
    | .ok rule => rule
    | .error _ => rule

/-- What an event says of the owner of a well-known name. -/
def OwnerEvent.owner (name : Bytes) : OwnerEvent B → Option (Option Bytes)
  | .observe message =>
    match message.names with
    | .ok (changed, _, owner) =>
      if isNameOwnerChanged message ∧ changed = name then
        if owner = [] then some none else if isUniqueName owner then some (some owner) else none
      else none
    | .error _ => none
  | .addMatch owner => if owner.all isUniqueName then some owner else none

/-- The owner by the latest event that says so; a unique name owns itself. -/
def currentOwner (name : Bytes) : List (OwnerEvent B) → Option Bytes
  | [] => if isUniqueSender name then some name else none
  | event :: earlier =>
    if isUniqueSender name then some name else (event.owner name).getD (currentOwner name earlier)

theorem after_sender (rule : MatchRule B) (event : OwnerEvent B) :
    (rule.after event).sender = rule.sender ∧ (rule.after event).passes = rule.passes := by
  suffices h : ∃ owner, rule.after event = rule.setOwner owner by
    obtain ⟨owner, h⟩ := h
    rw [h]
    exact ⟨rfl, rfl⟩
  have hsame : rule = rule.setOwner rule.localSender := rfl
  cases event with
  | observe message =>
    simp only [MatchRule.after, MatchRule.observe]
    cases rule.wellKnownSender with
    | none => exact ⟨_, hsame⟩
    | some expected =>
      cases message.names with
      | error e => split_ifs <;> exact ⟨_, hsame⟩
      | ok names =>
        simp only [bind, Except.bind]
        grind
  | addMatch owner =>
    simp only [MatchRule.after, MatchRule.addMatch]
    cases rule.wellKnownSender with
    | none => exact ⟨_, hsame⟩
    | some expected =>
      cases owner with
      | none => exact ⟨_, rfl⟩
      | some owner =>
        simp only [bind, Except.bind]
        grind

variable {rule : MatchRule B} {name : Bytes}

theorem after_localSender (hsender : rule.sender = some name) (event : OwnerEvent B) : (rule.after event).localSender =
      if isUniqueSender name then rule.localSender else (event.owner name).getD rule.localSender := by
  by_cases hunique : isUniqueSender name
  · have hknown : rule.wellKnownSender = none := by simp [MatchRule.wellKnownSender, hsender, hunique]
    cases event <;> simp [MatchRule.after, MatchRule.observe, MatchRule.addMatch, hknown, hunique]
  have hknown : rule.wellKnownSender = some name := by simp [MatchRule.wellKnownSender, hsender, hunique]
  rw [if_neg hunique]
  cases event with
  | observe message =>
    simp only [MatchRule.after, MatchRule.observe, hknown, OwnerEvent.owner]
    cases message.names with
    | error e => split_ifs <;> rfl
    | ok names =>
      obtain ⟨changed, old, owner⟩ := names
      by_cases hchanged : isNameOwnerChanged message ∧ changed = name
      · obtain ⟨hmessage, rfl⟩ := hchanged
        by_cases hempty : owner = []
        · simp [hmessage, hempty, MatchRule.setOwner, bind, Except.bind]
        · by_cases hvalid : isUniqueName owner
          · simp [hmessage, hempty, hvalid, validateUniqueName, validateName, MatchRule.setOwner, bind, Except.bind]
          · simp [hmessage, hempty, hvalid, validateUniqueName, validateName, bind, Except.bind]
      · by_cases hmessage : isNameOwnerChanged message
        · have hname : changed ≠ name := fun h => hchanged ⟨hmessage, h⟩
          simp [hname, bind, Except.bind]
        · simp [hmessage]
  | addMatch owner =>
    simp only [MatchRule.after, MatchRule.addMatch, hknown, OwnerEvent.owner]
    cases owner with
    | none => rfl
    | some owner =>
      by_cases hvalid : isUniqueName owner
      · simp [hvalid, validateUniqueName, validateName, MatchRule.setOwner, bind, Except.bind]
      · simp [hvalid, validateUniqueName, validateName, bind, Except.bind]

theorem localSender_eq_currentOwner (hsender : rule.sender = some name)
    (hfresh : rule.localSender = currentOwner name ([] : List (OwnerEvent B))) (events : List (OwnerEvent B)) :
    (events.foldl MatchRule.after rule).sender = some name ∧ (events.foldl MatchRule.after rule).passes = rule.passes ∧
      (events.foldl MatchRule.after rule).localSender = currentOwner name events.reverse := by
  induction events using reverseRecOn with
  | nil => exact ⟨hsender, rfl, hfresh⟩
  | append_singleton events event ih =>
    obtain ⟨hs, hp, hl⟩ := ih
    obtain ⟨hs', hp'⟩ := after_sender (events.foldl MatchRule.after rule) event
    rw [foldl_append, foldl_cons, foldl_nil, reverse_append, reverse_singleton]
    refine ⟨hs'.trans hs, hp'.trans hp, ?_⟩
    rw [after_localSender hs, hl, singleton_append, currentOwner]
    split_ifs with hunique
    · cases hrev : events.reverse with
      | nil => rw [currentOwner, if_pos hunique]
      | cons last rest => rw [currentOwner, if_pos hunique]
    · rfl

def service : Bytes := ofAscii "org.tensor.Service"

def anonymous : SignalMessage Unit := ⟨.signal, none, none, none, none, none, .ok ([], [], []), ()⟩

def maxMatchRuleLen : Nat := 1024
def maxMatchArgIndex : Nat := 63

inductive RuleError where
  | failed (cause : Error)
  | invalidMatchRule (text : String)
  | invalidNamespace (value : Bytes)

structure BusRule where
  sender : Option Bytes
  path : Option PathMatch
  interface : Option Bytes
  member : Option Bytes
  destination : Option Bytes
  args : List (Nat × Bytes)
  argPaths : List (Nat × Bytes)
  arg0Namespace : Option Bytes
  busExpression : Bytes

def apostrophe : UInt8 := 39
def backslash : UInt8 := 92
def comma : UInt8 := 44
def equals : UInt8 := 61

def pushTerm (expression key : Bytes) : Option Bytes → Bytes
  | none => expression
  | some value =>
    expression ++ comma :: key ++ [equals, apostrophe] ++
      value.flatMap (fun c => if c = apostrophe then [apostrophe, backslash, apostrophe, apostrophe] else [c]) ++ [apostrophe]

variable (arguments : List (Nat × Bytes))

def searchByIndex (index : Nat) : Except Nat Nat :=
  let position := (arguments.takeWhile (·.1 < index)).length
  if (arguments[position]?).map Prod.fst = some index then .ok position else .error position

def insertArg (index : Nat) (value : Bytes) : List (Nat × Bytes) :=
  match searchByIndex arguments index with
  | .ok position => arguments.set position (index, value)
  | .error position => arguments.insertIdx position (index, value)

def removeArg (index : Nat) : List (Nat × Bytes) :=
  match searchByIndex arguments index with
  | .ok position => arguments.eraseIdx position
  | .error _ => arguments

def validateArgIndex (index : Nat) : Except RuleError Unit :=
  if index ≤ maxMatchArgIndex then .ok ()
  else .error (.invalidMatchRule ("argument index " ++ toString index ++ " exceeds " ++ toString maxMatchArgIndex))

def validateBusNamespace (name : Bytes) : Except RuleError Unit :=
  let unique := isUniqueSender name
  let value := if unique then name.tail else name
  if value ≠ [] ∧ name.length ≤ 255 ∧ (value.splitOn dot).all fun element =>
      element.head?.any (fun first => (unique || !isDigit first) && isBusNameByte first) && element.all isBusNameByte then
    .ok ()
  else .error (.invalidNamespace name)

namespace BusRule

def expression (rule : BusRule) : Bytes :=
  let expression := pushTerm (ofAscii "type='signal'") (ofAscii "sender") rule.sender
  let expression :=
    match rule.path with
    | some (.exact path) => pushTerm expression (ofAscii "path") (some path)
    | some (.namespace path) => pushTerm expression (ofAscii "path_namespace") (some path)
    | none => expression
  let expression := pushTerm expression (ofAscii "interface") rule.interface
  let expression := pushTerm expression (ofAscii "member") rule.member
  let expression := pushTerm expression (ofAscii "destination") rule.destination
  let expression := rule.args.foldl (fun e a => pushTerm e (ofAscii "arg" ++ decimalText a.1) (some a.2)) expression
  let expression := rule.argPaths.foldl
    (fun e a => pushTerm e (ofAscii "arg" ++ decimalText a.1 ++ ofAscii "path") (some a.2)) expression
  pushTerm expression (ofAscii "arg0namespace") rule.arg0Namespace

def rebuildExpression (rule : BusRule) : Except RuleError BusRule :=
  if maxMatchRuleLen < rule.expression.length then
    .error (.invalidMatchRule ("rule exceeds " ++ toString maxMatchRuleLen ++ " bytes"))
  else .ok { rule with busExpression := rule.expression }

def signal (sender path interface member : Option Bytes) : Except RuleError BusRule :=
  match (MatchRule.signal sender path interface member : Except Error (MatchRule Unit)) with
  | .error cause => .error (.failed cause)
  | .ok rule => rebuildExpression ⟨rule.sender, rule.path, rule.interface, rule.member, none, [], [], none, []⟩

end BusRule

inductive RuleCall where
  | pathNamespace (path : Bytes)
  | destination (destination : Bytes)
  | arg (index : Nat) (value : Bytes)
  | argPath (index : Nat) (path : Bytes)
  | arg0Namespace (name : Bytes)

def BusRule.call (rule : BusRule) : RuleCall → Except RuleError BusRule
  | .pathNamespace path => do
    (validateName isObjectPath path "signal path namespace").mapError .failed
    rebuildExpression { rule with path := some (.namespace path) }
  | .destination destination => do
    (validateUniqueName destination "signal destination").mapError .failed
    rebuildExpression { rule with destination := some destination }
  | .arg index value => do
    validateArgIndex index
    rebuildExpression { rule with
      argPaths := removeArg rule.argPaths index
      arg0Namespace := if index = 0 then none else rule.arg0Namespace
      args := insertArg rule.args index value }
  | .argPath index path => do
    validateArgIndex index
    rebuildExpression { rule with
      args := removeArg rule.args index
      arg0Namespace := if index = 0 then none else rule.arg0Namespace
      argPaths := insertArg rule.argPaths index path }
  | .arg0Namespace name => do
    validateBusNamespace name
    rebuildExpression { rule with
      args := removeArg rule.args 0
      argPaths := removeArg rule.argPaths 0
      arg0Namespace := some name }

/-- The builder: a call that fails gives no rule. -/
def build (sender path interface member : Option Bytes) (calls : List RuleCall) : Except RuleError BusRule := do
  calls.foldlM BusRule.call (← BusRule.signal sender path interface member)

inductive Lexing where
  | key
  | plain
  | escape
  | quoted
deriving DecidableEq

/-- The reader of a match rule: the pairs that are read, the one it is in, and where in it. -/
structure Lexer where
  pairs : List (Bytes × Bytes)
  key : Bytes
  value : Bytes
  lexing : Lexing

namespace Lexer

variable (s : Lexer)

def closed : List (Bytes × Bytes) := s.pairs ++ [(s.key, s.value)]

def plainByte (c : UInt8) : Lexer :=
  if c = apostrophe then { s with lexing := .quoted }
  else if c = backslash then { s with lexing := .escape }
  else if c = comma then ⟨s.closed, [], [], .key⟩
  else { s with value := s.value ++ [c], lexing := .plain }

def byte (c : UInt8) : Lexer :=
  match s.lexing with
  | .key => if c = equals then { s with lexing := .plain } else { s with key := s.key ++ [c] }
  | .plain => s.plainByte c
  | .escape =>
    if c = apostrophe then { s with value := s.value ++ [c], lexing := .plain }
    else { s with value := s.value ++ [backslash] }.plainByte c
  | .quoted => if c = apostrophe then { s with lexing := .plain } else { s with value := s.value ++ [c] }

def finish : Option (List (Bytes × Bytes)) :=
  match s.lexing with
  | .plain => some s.closed
  | .escape => some { s with value := s.value ++ [backslash] }.closed
  | .key => none
  | .quoted => none

end Lexer

/-- A match rule by the quoting rules of the bus: between apostrophes a byte stands for itself, outside of them an
apostrophe is written with a backslash, and a comma ends a value. -/
def lex (text : Bytes) : Option (List (Bytes × Bytes)) := (text.foldl Lexer.byte ⟨[], [], [], .key⟩).finish

inductive Key where
  | type
  | sender
  | path
  | pathNamespace
  | interface
  | member
  | destination
  | arg (index : Nat)
  | argPath (index : Nat)
  | arg0Namespace
deriving DecidableEq

namespace Key

def text : Key → Bytes
  | .type => ofAscii "type"
  | .sender => ofAscii "sender"
  | .path => ofAscii "path"
  | .pathNamespace => ofAscii "path_namespace"
  | .interface => ofAscii "interface"
  | .member => ofAscii "member"
  | .destination => ofAscii "destination"
  | .arg index => ofAscii "arg" ++ decimalText index
  | .argPath index => ofAscii "arg" ++ decimalText index ++ ofAscii "path"
  | .arg0Namespace => ofAscii "arg0namespace"

def argument : Key → Option Nat
  | .arg index => some index
  | .argPath index => some index
  | .arg0Namespace => some 0
  | _ => none

def index : Key → Option Nat
  | .arg index => some index
  | _ => none

def pathIndex : Key → Option Nat
  | .argPath index => some index
  | _ => none

def pathMatch (key : Key) (value : Bytes) : Option PathMatch :=
  match key with
  | .path => some (.exact value)
  | .pathNamespace => some (.namespace value)
  | _ => none

def known : List Key :=
  [type, sender, path, pathNamespace, interface, member, destination, arg0Namespace] ++
    (List.range (maxMatchArgIndex + 1)).map arg ++ (List.range (maxMatchArgIndex + 1)).map argPath

theorem known_text : (known.map text).Nodup ∧ known.all (fun key => equals ∉ key.text) = true := by
  refine ⟨.of_map (foldl (fun n byte => 256 * n + byte.toNat) 1) ?_, ?_⟩ <;> decide +kernel

end Key

def PathMatch.key : PathMatch → Key
  | .exact _ => .path
  | .namespace _ => .pathNamespace

def PathMatch.value : PathMatch → Bytes
  | .exact path => path
  | .namespace path => path

theorem PathMatch.key_spec (path : PathMatch) : path.key ≠ .sender ∧ path.key ≠ .interface ∧ path.key ≠ .member ∧
    path.key ≠ .destination ∧ path.key ≠ .arg0Namespace ∧ path.key.index = none ∧ path.key.pathIndex = none ∧
    path.key.argument = none ∧ path.key.pathMatch path.value = some path := by
  cases path <;> simp [key, value, Key.index, Key.pathIndex, Key.argument, Key.pathMatch]

def BusRule.terms (rule : BusRule) : List (Key × Bytes) :=
  (.type, ofAscii "signal") :: (rule.sender.toList.map (Key.sender, ·) ++
    rule.path.toList.map (fun path => (path.key, path.value)) ++ rule.interface.toList.map (Key.interface, ·) ++
    rule.member.toList.map (Key.member, ·) ++ rule.destination.toList.map (Key.destination, ·) ++
    rule.args.map (fun a => (Key.arg a.1, a.2)) ++ rule.argPaths.map (fun a => (Key.argPath a.1, a.2)) ++
    rule.arg0Namespace.toList.map (Key.arg0Namespace, ·))

section Arguments

variable {arguments : List (Nat × Bytes)} {index : Nat}

def Increasing (arguments : List (Nat × Bytes)) : Prop := (arguments.map Prod.fst).Pairwise (· < ·)

theorem insertArg_cons (a : Nat × Bytes) (value : Bytes) : insertArg (a :: arguments) index value =
    if a.1 < index then a :: insertArg arguments index value
    else if a.1 = index then (index, value) :: arguments else (index, value) :: a :: arguments := by
  grind [insertArg, searchByIndex, takeWhile_cons]

theorem removeArg_cons (a : Nat × Bytes) : removeArg (a :: arguments) index =
    if a.1 < index then a :: removeArg arguments index else if a.1 = index then arguments else a :: arguments := by
  grind [removeArg, searchByIndex, takeWhile_cons]

section

variable (h : Increasing arguments)
include h

theorem argument_split (index : Nat) :
    ∃ lower upper, (lower ++ upper).Sublist arguments ∧ (∀ a ∈ lower, a.1 < index) ∧ (∀ a ∈ upper, index < a.1) ∧
      removeArg arguments index = lower ++ upper ∧
      ∀ value, insertArg arguments index value = lower ++ (index, value) :: upper := by
  induction arguments with
  | nil => exact ⟨[], [], by simp, by simp, by simp, rfl, fun value => rfl⟩
  | cons a arguments ih =>
    obtain ⟨hfirst, hrest⟩ := pairwise_cons.mp h
    have habove : ∀ b ∈ arguments, a.1 < b.1 := fun b hb => hfirst b.1 (mem_map_of_mem hb)
    simp only [removeArg_cons, insertArg_cons]
    obtain hlt | heq | hgt := Nat.lt_trichotomy a.1 index
    · obtain ⟨lower, upper, hsub, hlower, hupper, hremove, hinsert⟩ := ih hrest
      refine ⟨a :: lower, upper, hsub.cons_cons a, ?_, hupper, by rw [if_pos hlt, hremove]; rfl, fun value => ?_⟩
      · exact forall_mem_cons.mpr ⟨hlt, hlower⟩
      · rw [if_pos hlt, hinsert]
        rfl
    · subst heq
      refine ⟨[], arguments, sublist_cons_self .., by simp, habove, by simp, by simp⟩
    · refine ⟨[], a :: arguments, List.Sublist.refl _, by simp, ?_, ?_, ?_⟩
      · grind
      · grind
      grind

theorem Increasing.removeArg (index : Nat) : Increasing (removeArg arguments index) ∧
    ∀ a ∈ Match.removeArg arguments index, a ∈ arguments ∧ a.1 ≠ index := by
  obtain ⟨lower, upper, hsub, hlower, hupper, hremove, -⟩ := argument_split h index
  rw [hremove]
  refine ⟨List.Pairwise.sublist (hsub.map _) h, fun a ha => ⟨hsub.subset ha, ?_⟩⟩
  grind

theorem Increasing.insertArg (index : Nat) (value : Bytes) : Increasing (insertArg arguments index value) ∧
      ∀ a ∈ Match.insertArg arguments index value, a = (index, value) ∨ a ∈ arguments := by
  obtain ⟨lower, upper, hsub, hlower, hupper, -, hinsert⟩ := argument_split h index
  grind +splitImp +splitIndPred [Increasing, pairwise_cons]

end

/-- No index is constrained twice. -/
structure Exclusive (args argPaths : List (Nat × Bytes)) (arg0Namespace : Option Bytes) : Prop where
  increasing : Increasing args
  increasing_paths : Increasing argPaths
  apart : ∀ a ∈ args, ∀ p ∈ argPaths, a.1 ≠ p.1
  first : arg0Namespace.isSome → (∀ a ∈ args, a.1 ≠ 0) ∧ ∀ a ∈ argPaths, a.1 ≠ 0
  known : (∀ a ∈ args, a.1 ≤ maxMatchArgIndex) ∧ ∀ a ∈ argPaths, a.1 ≤ maxMatchArgIndex

namespace Exclusive

variable {args argPaths : List (Nat × Bytes)} {arg0Namespace : Option Bytes}

section

variable (h : Exclusive args argPaths arg0Namespace)
include h

theorem symm : Exclusive argPaths args arg0Namespace :=
  ⟨h.increasing_paths, h.increasing, fun a ha p hp => (h.apart p hp a ha).symm,
    fun hfirst => (h.first hfirst).symm, h.known.symm⟩

theorem insert (hindex : index ≤ maxMatchArgIndex) (value : Bytes) :
    Exclusive (insertArg args index value) (removeArg argPaths index) (if index = 0 then none else arg0Namespace) := by
  obtain ⟨hargs, hmem⟩ := h.increasing.insertArg index value
  obtain ⟨hpaths, hsub⟩ := h.increasing_paths.removeArg index
  obtain ⟨-, -, hapart, hfirst, hknown⟩ := h
  refine ⟨hargs, hpaths, ?_, ?_, ?_⟩ <;> grind -linarith

theorem first_namespace (name : Bytes) : Exclusive (removeArg args 0) (removeArg argPaths 0) (some name) := by
  obtain ⟨hargs, hmem⟩ := h.increasing.removeArg 0
  obtain ⟨hpaths, hsub⟩ := h.increasing_paths.removeArg 0
  obtain ⟨-, -, hapart, -, hknown⟩ := h
  refine ⟨hargs, hpaths, ?_, ?_, ?_⟩ <;> grind

end

end Exclusive

theorem validateArgIndex_ok {u : Unit} (h : validateArgIndex index = .ok u) : index ≤ maxMatchArgIndex := by
  grind [validateArgIndex]

end Arguments

section Lexing

variable {s : Lexer} {key value : Bytes}

theorem foldl_quoted (h : s.lexing = .quoted) (value : Bytes) :
    (value.flatMap fun c => if c = apostrophe then [apostrophe, backslash, apostrophe, apostrophe] else [c]).foldl Lexer.byte s =
      { s with value := s.value ++ value } := by
  induction value generalizing s with
  | nil => simp
  | cons c value ih =>
    have hbyte : (if c = apostrophe then [apostrophe, backslash, apostrophe, apostrophe] else [c]).foldl Lexer.byte s =
        { s with value := s.value ++ [c] } := by
      by_cases hc : c = apostrophe
      · simp [hc, Lexer.byte, Lexer.plainByte, h, apostrophe, backslash]
      · simp [hc, Lexer.byte, h]
    grind +splitImp +splitIndPred

theorem foldl_key (h : s.lexing = .key) (hkey : equals ∉ key) :
    key.foldl Lexer.byte s = { s with key := s.key ++ key } := by
  induction key generalizing s with
  | nil => simp
  | cons c key ih => grind +splitImp +splitIndPred [Lexer.byte]

theorem foldl_term (h : s.lexing = .plain) (hkey : equals ∉ key) (expression : Bytes) (start : Lexer)
    (hexpression : expression.foldl Lexer.byte start = s) :
    (pushTerm expression key (some value)).foldl Lexer.byte start = ⟨s.closed, key, value, .plain⟩ := by
  have hcomma : (comma :: key).foldl Lexer.byte s = ⟨s.closed, key, [], .key⟩ := by
    have hbyte : s.byte comma = ⟨s.closed, [], [], .key⟩ := by
      simp [Lexer.byte, Lexer.plainByte, h, apostrophe, backslash, comma]
    rw [foldl_cons, hbyte, foldl_key rfl hkey, nil_append]
  have hopen : [equals, apostrophe].foldl Lexer.byte ⟨s.closed, key, [], .key⟩ = ⟨s.closed, key, [], .quoted⟩ := rfl
  grind +splitImp +splitIndPred [Lexer.byte, pushTerm, foldl_quoted]

def pushPair (expression : Bytes) (term : Key × Bytes) : Bytes := pushTerm expression term.1.text (some term.2)

theorem foldl_terms {terms : List (Key × Bytes)} (hkeys : ∀ t ∈ terms, equals ∉ t.1.text) (h : s.lexing = .plain)
    {expression : Bytes} {start : Lexer} (hexpression : expression.foldl Lexer.byte start = s) :
    ((terms.foldl pushPair expression).foldl Lexer.byte start).finish =
      some (s.closed ++ terms.map fun t => (t.1.text, t.2)) := by
  induction terms generalizing s expression with
  | nil => simp [hexpression, Lexer.finish, h]
  | cons t terms ih =>
    rw [forall_mem_cons] at hkeys
    have hnext : (pushPair expression t).foldl Lexer.byte start = ⟨s.closed, t.1.text, t.2, .plain⟩ :=
      foldl_term h hkeys.1 expression start hexpression
    rw [foldl_cons, ih hkeys.2 rfl hnext]
    simp [Lexer.closed]

end Lexing

namespace BusRule

variable {rule : BusRule}

theorem expression_eq (rule : BusRule) :
    rule.expression = rule.terms.tail.foldl pushPair (ofAscii "type='signal'") := by
  have hoption : ∀ (e : Bytes) (key : Key) (o : Option Bytes),
      (o.toList.map (key, ·)).foldl pushPair e = pushTerm e key.text o := by
    intro e key o
    cases o <;> rfl
  simp only [terms, tail_cons, foldl_append, hoption, foldl_map, expression]
  cases rule.path with
  | none => rfl
  | some path => cases path <;> rfl

variable {next : BusRule}

theorem rebuildExpression_ok (h : rebuildExpression rule = .ok next) :
    next = { rule with busExpression := rule.expression } := by
  grind [rebuildExpression]

/-- What the calls of the builder keep. -/
structure Valid (rule : BusRule) : Prop where
  exclusive : Exclusive rule.args rule.argPaths rule.arg0Namespace
  expression : rule.busExpression = rule.expression

theorem rebuildExpression_valid (hnext : rebuildExpression rule = .ok next)
    (h : Exclusive rule.args rule.argPaths rule.arg0Namespace) : next.Valid := by
  obtain rfl := rebuildExpression_ok hnext
  exact ⟨h, rfl⟩

theorem call_valid {call : RuleCall} (h : rule.Valid) (hcall : rule.call call = .ok next) : next.Valid := by
  obtain ⟨h, -⟩ := h
  cases call with
  | pathNamespace path =>
    obtain ⟨_, -, hnext⟩ := except_bind_eq_ok.mp hcall
    exact rebuildExpression_valid hnext h
  | destination name =>
    obtain ⟨_, -, hnext⟩ := except_bind_eq_ok.mp hcall
    exact rebuildExpression_valid hnext h
  | arg index value =>
    obtain ⟨_, hindex, hnext⟩ := except_bind_eq_ok.mp hcall
    exact rebuildExpression_valid hnext (h.insert (validateArgIndex_ok hindex) value)
  | argPath index path =>
    obtain ⟨_, hindex, hnext⟩ := except_bind_eq_ok.mp hcall
    exact rebuildExpression_valid hnext (h.symm.insert (validateArgIndex_ok hindex) path).symm
  | arg0Namespace name =>
    obtain ⟨_, -, hnext⟩ := except_bind_eq_ok.mp hcall
    exact rebuildExpression_valid hnext (h.first_namespace name)

theorem build_valid {sender path interface member : Option Bytes} {calls : List RuleCall}
    (h : build sender path interface member calls = .ok rule) : rule.Valid := by
  obtain ⟨start, hstart, hcalls⟩ := except_bind_eq_ok.mp h
  have hvalid : start.Valid := by
    rw [signal] at hstart
    split at hstart
    · cases hstart
    · exact rebuildExpression_valid hstart ⟨.nil, .nil, by simp, by simp, by simp⟩
  clear h hstart
  induction calls generalizing start with
  | nil =>
    cases hcalls
    exact hvalid
  | cons call calls ih =>
    obtain ⟨next, hnext, hcalls⟩ := except_bind_eq_ok.mp hcalls
    exact ih next hcalls (call_valid hvalid hnext)

theorem eq_of_terms {other : BusRule} (hterms : other.terms = rule.terms)
    (hexpression : other.busExpression = rule.busExpression) : other = rule := by
  have hone : ∀ key, other.terms.filterMap (fun t => if t.1 = key then some t.2 else none) =
    rule.terms.filterMap (fun t => if t.1 = key then some t.2 else none) := fun key => congrArg _ hterms
  have hargs := congrArg (List.filterMap fun t => t.1.index.map (·, t.2)) hterms
  have hpaths := congrArg (List.filterMap fun t => t.1.pathIndex.map (·, t.2)) hterms
  have hpath := congrArg (List.filterMap fun t => t.1.pathMatch t.2) hterms
  have hsender := hone .sender
  have hinterface := hone .interface
  have hmember := hone .member
  have hdestination := hone .destination
  have hnamespace := hone .arg0Namespace
  obtain ⟨sender, path, interface, member, destination, args, argPaths, arg0Namespace, busExpression⟩ := rule
  obtain ⟨sender', path', interface', member', destination', args', argPaths', arg0Namespace', busExpression'⟩ := other
  simp only [terms, filterMap_cons, filterMap_append, filterMap_map, Function.comp_def, PathMatch.key_spec] at hsender hinterface hmember hdestination hnamespace hargs hpaths hpath
  simp [Key.index, Key.pathIndex, Key.pathMatch] at hsender hinterface hmember hdestination hnamespace hargs hpaths hpath
  have hlist : ∀ {A : Type} {x y : Option A}, x.toList = y.toList → x = y := by
    rintro A (_ | x) (_ | y) <;> simp
  grind +splitImp +splitIndPred

/-- The keys are among those that the bus knows. -/
theorem terms_known (h : rule.Valid) : ∀ t ∈ rule.terms, t.1 ∈ Key.known := by
  obtain ⟨⟨-, -, -, -, hargs, hpaths⟩, -⟩ := h
  have harg : ∀ a ∈ rule.args, Key.arg a.1 ∈ Key.known := fun a ha => by
    simp [Key.known, hargs a ha]
  have hargPath : ∀ a ∈ rule.argPaths, Key.argPath a.1 ∈ Key.known := fun a ha => by
    simp [Key.known, hpaths a ha]
  simp only [terms, forall_mem_cons, forall_mem_append, forall_mem_map]
  refine ⟨by decide, ⟨⟨⟨⟨⟨⟨⟨?_, ?_⟩, ?_⟩, ?_⟩, ?_⟩, harg⟩, hargPath⟩, ?_⟩⟩
  · exact fun _ _ => by decide
  · intro path _
    cases path
    · exact (by decide : Key.path ∈ Key.known)
    · exact (by decide : Key.pathNamespace ∈ Key.known)
  all_goals exact fun _ _ => by decide

theorem terms_arguments (rule : BusRule) : rule.terms.filterMap (·.1.index) = rule.args.map Prod.fst ∧
    rule.terms.filterMap (·.1.pathIndex) = rule.argPaths.map Prod.fst ∧ rule.terms.filterMap (·.1.argument) =
      rule.args.map Prod.fst ++ rule.argPaths.map Prod.fst ++ rule.arg0Namespace.toList.map fun _ => 0 := by
  simp only [terms, filterMap_cons, filterMap_append, filterMap_map, Function.comp_def, PathMatch.key_spec]
  simp [Key.index, Key.pathIndex, Key.argument]

theorem lex_expression (h : rule.Valid) : lex rule.busExpression = some (rule.terms.map fun t => (t.1.text, t.2)) := by
  have hkeys : ∀ t ∈ rule.terms.tail, equals ∉ t.1.text := fun t ht =>
    of_decide_eq_true (all_eq_true.mp Key.known_text.2 t.1 (terms_known h t (mem_of_mem_tail ht)))
  rw [h.expression, expression_eq, lex, foldl_terms hkeys rfl rfl]
  rfl

end BusRule

theorem eq_of_texts {xs ys : List (Key × Bytes)} (hxs : ∀ t ∈ xs, t.1 ∈ Key.known) (hys : ∀ t ∈ ys, t.1 ∈ Key.known)
    (h : xs.map (fun t => (t.1.text, t.2)) = ys.map fun t => (t.1.text, t.2)) : xs = ys := by
  induction xs generalizing ys with
  | nil => exact (map_eq_nil_iff.mp h.symm).symm
  | cons x xs ih =>
    obtain ⟨y, ys, rfl, hy, htail⟩ := map_eq_cons_iff.mp h.symm
    rw [forall_mem_cons] at hxs hys
    have hkey := inj_on_of_nodup_map Key.known_text.1 hys.1 hxs.1 (Prod.mk.inj hy).1
    grind

def quoted : Bytes := ofAscii "a','b=\\'"

def shared : List RuleCall := [.arg 2 quoted, .arg0Namespace service, .argPath 2 (ofAscii "/"), .arg 1 quoted]

end TensorDE.Dbus.Match
