import TensorDE.Files.Path

set_option linter.dupNamespace false

namespace TensorDE.Files.Privilege

open List

inductive PrivilegedCommand where
  | createFolder (parent : Path) (name : String)
  | createFile (parent : Path) (name : String)
  | rename (path : Path) (newName : String)
  | trash (paths : List Path)
  | transfer (operation : String) (source targetDir : Path)
deriving DecidableEq

structure PrivilegedOperationResult where
  label : String
  affectedDirs : List Path
  result : Except String String

structure Naming where
  display : Path → String
  isNetworkPath : Path → Bool

def pushUnique (paths : List Path) (path : Path) : List Path := if path ∈ paths then paths else paths ++ [path]

variable (naming : Naming)

def ensurePrivilegedLocalPath (path : Path) : Except String Unit :=
  if naming.isNetworkPath path then
    .error ("network locations are not supported by the privileged helper: " ++ naming.display path)
  else .ok ()

namespace PrivilegedCommand

def label : PrivilegedCommand → String
  | .createFolder .. => "Create folder"
  | .createFile .. => "Create file"
  | .rename .. => "Rename"
  | .trash _ => "Move to Trash"
  | .transfer operation .. =>
    if operation = "move" then "Move" else if operation = "copy" then "Copy" else if operation = "link" then "Link"
    else "File operation"

def affectedDirs : PrivilegedCommand → List Path
  | .createFolder parent _ | .createFile parent _ => [parent]
  | .rename path _ => path.parent.toList
  | .trash paths => paths.foldl (fun dirs path => path.parent.elim dirs (pushUnique dirs)) []
  | .transfer _ source targetDir => source.parent.elim [targetDir] (pushUnique [targetDir])

def validateLocalPaths (naming : Naming) : PrivilegedCommand → Except String Unit
  | .createFolder parent _ | .createFile parent _ => ensurePrivilegedLocalPath naming parent
  | .rename path _ => ensurePrivilegedLocalPath naming path
  | .trash paths => paths.forM (ensurePrivilegedLocalPath naming)
  | .transfer _ source targetDir => do
    ensurePrivilegedLocalPath naming source
    ensurePrivilegedLocalPath naming targetDir

end PrivilegedCommand

inductive Argument where
  | text (value : String)
  | texts (values : List String)
deriving DecidableEq

structure HelperCall where
  member : String
  arguments : List Argument
deriving DecidableEq

def PrivilegedCommand.helperCall : PrivilegedCommand → HelperCall
  | .createFolder parent name => ⟨"CreateFolder", [.text (naming.display parent), .text name]⟩
  | .createFile parent name => ⟨"CreateFile", [.text (naming.display parent), .text name]⟩
  | .rename path newName => ⟨"Rename", [.text (naming.display path), .text newName]⟩
  | .trash paths => ⟨"Trash", [.texts (paths.map naming.display)]⟩
  | .transfer operation source targetDir =>
    ⟨"Transfer", [.text operation, .text (naming.display source), .text (naming.display targetDir)]⟩

/-- How much of a call a helper has carried out when its answer comes or does not. -/
inductive Execution where
  | nothing
  | part
  | whole
deriving DecidableEq

/-- The end of a call: the helper's message, its error, or an error of the connection without an answer. -/
inductive Reply where
  | message (text : String)
  | failed (error : String)
  | lost (error : String)
deriving DecidableEq

def Reply.result : Reply → Except String String
  | .message text => .ok text
  | .failed error | .lost error => .error error

/-- How one attempt goes: connecting to the bus, the proxy, and what the helper does with the call. -/
structure Attempt where
  connection : Except String Unit
  proxy : Except String Unit
  execution : Execution
  reply : Reply

structure Asked where
  call : HelperCall
  execution : Execution
  reply : Reply
deriving DecidableEq

/-- What the two buses and the start of a helper do with a command. -/
structure Surroundings where
  system : Attempt
  session : Attempt
  start : Except String Unit
  service : Except String Unit
  started : Attempt

def callDbusCommand (command : PrivilegedCommand) (attempt : Attempt) :
    Except String String × List Asked :=
  match attempt.connection with
  | .error error => (.error error, [])
  | .ok () =>
    match command.validateLocalPaths naming with
    | .error error => (.error error, [])
    | .ok () =>
      match attempt.proxy with
      | .error error => (.error ("cannot create privileged helper proxy: " ++ error), [])
      | .ok () => (attempt.reply.result, [⟨command.helperCall naming, attempt.execution, attempt.reply⟩])

def privilegedHelperStartFailedMessage (systemError sessionError fallbackError : String) : String :=
  "cannot reach privileged helper. System bus activation failed: " ++ systemError
    ++ ". Development session-bus helper failed: " ++ sessionError ++ ". pkexec fallback failed: " ++ fallbackError
    ++ ". Install Tensor Files's D-Bus service and org.tensorde.TensorFiles.policy, then ensure a desktop polkit agent is running."

def startSessionHelperAndCall (command : PrivilegedCommand) (s : Surroundings)
    (systemError sessionError : String) : Except String String × List Asked :=
  match s.start with
  | .error error => (.error (privilegedHelperStartFailedMessage systemError sessionError error), [])
  | .ok () =>
    match s.service with
    | .error error => (.error (privilegedHelperStartFailedMessage systemError sessionError error), [])
    | .ok () => callDbusCommand naming command s.started

def runViaDbusInner (command : PrivilegedCommand) (s : Surroundings) :
    Except String String × List Asked :=
  match callDbusCommand naming command s.system with
  | (.ok message, asked) => (.ok message, asked)
  | (.error systemError, asked) =>
    match callDbusCommand naming command s.session with
    | (.ok message, more) => (.ok message, asked ++ more)
    | (.error sessionError, more) =>
      let (result, last) := startSessionHelperAndCall naming command s systemError sessionError
      (result, asked ++ (more ++ last))

def runViaDbus (command : PrivilegedCommand) (s : Surroundings) :
    PrivilegedOperationResult × List Asked :=
  match command.validateLocalPaths naming with
  | .error error => (⟨command.label, command.affectedDirs, .error error⟩, [])
  | .ok () =>
    let (result, asked) := runViaDbusInner naming command s
    let result := result.map fun message =>
      if message = "" then "completed with administrator privileges" else message
    (⟨command.label, command.affectedDirs, result⟩, asked)

/-- A command takes effect once, and a helper that has failed in the middle of it is the last one asked. -/
structure TakesEffectOnce (asked : List Asked) : Prop where
  once : (asked.countP fun x => x.execution ≠ .nothing) ≤ 1
  final : ∀ before (x : Asked) after, asked = before ++ x :: after → x.execution = .part → (∃ error, x.reply = .failed error) →
    after = []

namespace Attempt

variable (attempt : Attempt)

def Reaches : Prop := attempt.connection = .ok () ∧ attempt.proxy = .ok ()

def Executes : Prop := attempt.Reaches ∧ attempt.execution ≠ .nothing

def Fails : Prop := ¬(attempt.Reaches ∧ ∃ text, attempt.reply = .message text)

def FailsMidway : Prop :=
  attempt.Reaches ∧ attempt.execution = .part ∧ ∃ error, attempt.reply = .failed error

end Attempt

/-- The second attempt is made after the first one has failed. -/
inductive Surroundings.Retry (s : Surroundings) : Attempt → Attempt → Prop where
  | session (system : s.system.Fails) : s.Retry s.system s.session
  | started (system : s.system.Fails) (session : s.session.Fails) (start : s.start = .ok ())
    (service : s.service = .ok ()) : s.Retry s.system s.started
  | again (system : s.system.Fails) (session : s.session.Fails) (start : s.start = .ok ())
    (service : s.service = .ok ()) : s.Retry s.session s.started

/-- No command that a helper has carried out, if only in part, is carried out again after a failure, and none whose
helper has failed in the middle of it reaches a helper again. -/
def Surroundings.Sparing (s : Surroundings) : Prop :=
  ∀ first second, s.Retry first second →
    ¬(first.Executes ∧ second.Executes) ∧ ¬(first.FailsMidway ∧ second.Reaches)

/-- The first helper does not stand in the way of the second. -/
def Asked.Allows (x y : Asked) : Prop :=
  ¬(x.execution ≠ .nothing ∧ y.execution ≠ .nothing) ∧ ¬(x.execution = .part ∧ ∃ error, x.reply = .failed error)

variable {naming : Naming} {command : PrivilegedCommand} {s : Surroundings} {attempt : Attempt} {asked : List Asked}
  {x : Asked}

theorem countP_le_one_iff {α : Type} (p : α → Bool) (l : List α) :
    l.countP p ≤ 1 ↔ l.Pairwise fun x y => ¬(p x = true ∧ p y = true) := by
  induction l with
  | nil => grind
  | cons x l ih =>
    rw [pairwise_cons, ← ih, countP_cons]
    split_ifs with hx
    · grind +splitImp +splitIndPred
    grind

theorem takesEffectOnce_iff : TakesEffectOnce asked ↔ asked.Pairwise Asked.Allows := by
  have hpair : (asked.countP fun x => x.execution ≠ .nothing) ≤ 1
      ↔ asked.Pairwise fun x y => ¬(x.execution ≠ .nothing ∧ y.execution ≠ .nothing) := by
    rw [countP_le_one_iff]
    simp only [decide_eq_true_eq]
  constructor
  · intro h
    refine (hpair.mp h.once).and ?_
    clear hpair
    have hfinal := h.final
    clear h
    induction asked with
    | nil => exact List.Pairwise.nil
    | cons x rest ih =>
      refine pairwise_cons.mpr ⟨fun y hy hmidway => ?_, ih fun before z after heq => ?_⟩
      · rw [hfinal [] x rest rfl hmidway.1 hmidway.2] at hy
        cases hy
      grind
  · intro h
    refine ⟨hpair.mpr (h.imp And.left), fun before x after heq hpart hfailed => ?_⟩
    cases after with
    | nil => rfl
    | cons y after =>
      rw [heq, pairwise_append, pairwise_cons] at h
      exact absurd ⟨hpart, hfailed⟩ (h.2.1.1 y mem_cons_self).2

theorem mem_callDbusCommand (hvalid : command.validateLocalPaths naming = .ok ()) :
    x ∈ (callDbusCommand naming command attempt).2
      ↔ attempt.Reaches ∧ x = ⟨command.helperCall naming, attempt.execution, attempt.reply⟩ := by
  grind [callDbusCommand, Attempt.Reaches]

theorem callDbusCommand_alone : (callDbusCommand naming command attempt).2.Pairwise Asked.Allows := by
  grind [callDbusCommand]

theorem callDbusCommand_fails (hvalid : command.validateLocalPaths naming = .ok ()) :
    (∃ error, (callDbusCommand naming command attempt).1 = .error error) ↔ attempt.Fails := by
  rw [callDbusCommand, Attempt.Fails, Attempt.Reaches]
  cases hconnection : attempt.connection with
  | error error => simp
  | ok _ =>
    cases hproxy : attempt.proxy with
    | error error => simp [hvalid]
    | ok _ => cases hreply : attempt.reply <;> simp [hvalid, Reply.result]

theorem allows_callDbusCommand (hvalid : command.validateLocalPaths naming = .ok ()) {first second : Attempt} :
    (∀ x ∈ (callDbusCommand naming command first).2, ∀ y ∈ (callDbusCommand naming command second).2, x.Allows y)
      ↔ ¬(first.Executes ∧ second.Executes) ∧ ¬(first.FailsMidway ∧ second.Reaches) := by
  simp only [mem_callDbusCommand hvalid]
  constructor
  · intro h
    refine ⟨fun hboth => ?_, fun hmidway => ?_⟩
    · exact (h _ ⟨hboth.1.1, rfl⟩ _ ⟨hboth.2.1, rfl⟩).1 ⟨hboth.1.2, hboth.2.2⟩
    · exact (h _ ⟨hmidway.1.1, rfl⟩ _ ⟨hmidway.2, rfl⟩).2 hmidway.1.2
  · rintro ⟨hboth, hmidway⟩ x ⟨hfirst, rfl⟩ y ⟨hsecond, rfl⟩
    exact ⟨fun hexecute => hboth ⟨⟨hfirst, hexecute.1⟩, hsecond, hexecute.2⟩,
      fun hfails => hmidway ⟨⟨hfirst, hfails⟩, hsecond⟩⟩

theorem startSessionHelperAndCall_asked (naming : Naming) (command : PrivilegedCommand) (s : Surroundings)
    (systemError sessionError : String) :
    s.start = .ok () ∧ s.service = .ok () ∧ (startSessionHelperAndCall naming command s systemError sessionError).2
        = (callDbusCommand naming command s.started).2 ∨ ¬(s.start = .ok () ∧ s.service = .ok ())
        ∧ (startSessionHelperAndCall naming command s systemError sessionError).2 = [] := by
  grind [startSessionHelperAndCall]

theorem runViaDbusInner_asked (hvalid : command.validateLocalPaths naming = .ok ()) :
    ¬s.system.Fails ∧ (runViaDbusInner naming command s).2 = (callDbusCommand naming command s.system).2
    ∨ s.system.Fails ∧ ¬(s.session.Fails ∧ s.start = .ok () ∧ s.service = .ok ()) ∧ (runViaDbusInner naming command s).2
        = (callDbusCommand naming command s.system).2 ++ (callDbusCommand naming command s.session).2
    ∨ s.system.Fails ∧ s.session.Fails ∧ s.start = .ok () ∧ s.service = .ok ()
      ∧ (runViaDbusInner naming command s).2 = (callDbusCommand naming command s.system).2
        ++ ((callDbusCommand naming command s.session).2 ++ (callDbusCommand naming command s.started).2) := by
  have hsystem : (∃ error, (callDbusCommand naming command s.system).1 = .error error) ↔ s.system.Fails :=
    callDbusCommand_fails hvalid
  have hsession : (∃ error, (callDbusCommand naming command s.session).1 = .error error) ↔ s.session.Fails :=
    callDbusCommand_fails hvalid
  rw [runViaDbusInner]
  cases hfirst : callDbusCommand naming command s.system with
  | mk first calls =>
    cases first with
    | ok message => grind
    | error systemError =>
      cases hsecond : callDbusCommand naming command s.session with
      | mk second more => grind [startSessionHelperAndCall_asked]

/-- A command takes effect once exactly when no failed attempt at it is followed by one that repeats it. -/
theorem takesEffectOnce_runViaDbus (naming : Naming) (command : PrivilegedCommand) (s : Surroundings) :
    TakesEffectOnce (runViaDbus naming command s).2 ↔ (command.validateLocalPaths naming = .ok () → s.Sparing) := by
  rw [takesEffectOnce_iff]
  cases hvalid : command.validateLocalPaths naming with
  | error error => grind [runViaDbus]
  | ok _ =>
    have hrun : (runViaDbus naming command s).2 = (runViaDbusInner naming command s).2 := by
      rw [runViaDbus, hvalid]
    have halone : ∀ attempt, (callDbusCommand naming command attempt).2.Pairwise Asked.Allows :=
      fun _ => callDbusCommand_alone
    rw [hrun]
    obtain ⟨hsystem, heq⟩ | ⟨hsystem, hnot, heq⟩ | ⟨hsystem, hsession, hstart, hservice, heq⟩ :=
      runViaDbusInner_asked (s := s) hvalid
    · rw [heq]
      refine ⟨fun _ _ first second hretry => ?_, fun _ => halone _⟩
      grind +splitImp +splitIndPred
    · rw [heq, pairwise_append]
      constructor
      · rintro ⟨-, -, hfirst⟩ - first second hretry
        grind +splitImp +splitIndPred [allows_callDbusCommand]
      · exact fun h => ⟨halone _, halone _, (allows_callDbusCommand hvalid).mpr (h rfl _ _ (.session hsystem))⟩
    · rw [heq, pairwise_append, pairwise_append]
      constructor
      · rintro ⟨-, ⟨-, -, hsecond⟩, hfirst⟩ - first second hretry
        grind +splitImp +splitIndPred [allows_callDbusCommand]
      · intro h
        refine ⟨halone _, ⟨halone _, halone _, ?_⟩, fun x hx y hy => ?_⟩
        · exact (allows_callDbusCommand hvalid).mpr (h rfl _ _ (.again hsystem hsession hstart hservice))
        · obtain hy | hy := mem_append.mp hy
          · exact (allows_callDbusCommand hvalid).mpr (h rfl _ _ (.session hsystem)) x hx y hy
          · exact (allows_callDbusCommand hvalid).mpr (h rfl _ _ (.started hsystem hsession hstart hservice)) x hx y hy

/-- The reply of the helper on the system bus is lost, and the one on the session bus creates a second folder. -/
theorem created_twice : ∃ (naming : Naming) (s : Surroundings),
    (runViaDbus naming (.createFolder ⟨true, []⟩ "new") s).2.map Asked.execution = [.whole, .whole]
    ∧ ¬TakesEffectOnce (runViaDbus naming (.createFolder ⟨true, []⟩ "new") s).2 :=
  ⟨⟨fun _ => "/", fun _ => false⟩, ⟨⟨.ok (), .ok (), .whole, .lost "connection closed"⟩,
    ⟨.ok (), .ok (), .whole, .message "/new 2"⟩, .ok (), .ok (), ⟨.ok (), .ok (), .nothing, .message ""⟩⟩,
    rfl, fun h => absurd h.once (by decide)⟩

end TensorDE.Files.Privilege
