import TensorDE.Lib.Bytes
import TensorDE.Lib.Utf8

namespace TensorDE.Files.Launcher

open Utf8

structure DesktopLaunchCommand where
  program : Str
  args : List Str
deriving DecidableEq

/-- The variables of the loop over the characters of an Exec line. -/
structure Splitting where
  args : List Str
  current : Str
  quote : Option Char
  escaped : Bool

namespace Splitting

variable (s : Splitting)

/-- The token that has begun ends. -/
def flush : Splitting :=
  if s.current = [] then s else { s with args := s.args ++ [s.current], current := [] }

def push (ch : Char) : Splitting := { s with current := s.current ++ [ch] }

def step (ch : Char) : Splitting :=
  if s.escaped then { s.push ch with escaped := false }
  else if ch = '\\' then { s with escaped := true }
  else
    match s.quote with
    | some active => if ch = active then { s with quote := none } else s.push ch
    | none =>
      if ch = '\'' ∨ ch = '"' then { s with quote := some ch }
      else if isWhitespace ch then s.flush
      else s.push ch

def finish : Option (List Str) :=
  let s := if s.escaped then s.push '\\' else s
  if s.quote.isSome then none
  else if s.flush.args = [] then none
  else some s.flush.args

end Splitting

variable (exec : Str)

def splitExecLine : Option (List Str) := (exec.foldl Splitting.step ⟨[], [], none, false⟩).finish

/-- `path.display().to_string()`. -/
def display (path : Bytes) : Str := lossy path

def execTokenContainsFileCode : Str → Bool
  | '%' :: code :: rest => code ∈ ['f', 'F', 'u', 'U'] || execTokenContainsFileCode rest
  | _ :: rest => execTokenContainsFileCode rest
  | [] => false

def execSupportsMultiplePaths : Bool :=
  (splitExecLine exec).any fun tokens => tokens.any fun token => token = ['%', 'F'] ∨ token = ['%', 'U']

/-- The characters of a token, with the text that the loop has put out. -/
def expandFrom (appName : Str) (desktopFile : Bytes) (paths : List Bytes) : Str → Str → Option Str
  | out, '%' :: code :: rest =>
    if code = '%' then expandFrom appName desktopFile paths (out ++ ['%']) rest
    else if code = 'c' then expandFrom appName desktopFile paths (out ++ appName) rest
    else if code = 'k' then expandFrom appName desktopFile paths (out ++ display desktopFile) rest
    else if code = 'f' ∨ code = 'u' then
      paths.head?.bind fun path => expandFrom appName desktopFile paths (out ++ display path) rest
    else if code = 'F' ∨ code = 'U' then
      paths.head?.bind fun path =>
        if paths.length > 1 then none else expandFrom appName desktopFile paths (out ++ display path) rest
    else expandFrom appName desktopFile paths out rest
  | out, ['%'] => some out
  | out, ch :: rest => expandFrom appName desktopFile paths (out ++ [ch]) rest
  | out, [] => some out

def expandExecToken (token appName : Str) (desktopFile : Bytes) (paths : List Bytes) : Option Str :=
  (expandFrom appName desktopFile paths [] token).filter (· ≠ [])

/-- The arguments so far, and whether a file code was used. -/
def addToken (appName : Str) (desktopFile : Bytes) (paths : List Bytes) (s : List Str × Bool) (token : Str) :
    List Str × Bool :=
  if token = ['%', 'F'] ∨ token = ['%', 'U'] then (s.1 ++ paths.map display, true)
  else
    match expandExecToken token appName desktopFile paths with
    | some argument => (s.1 ++ [argument], s.2 || execTokenContainsFileCode token)
    | none => s

def execToLaunchCommands (exec appName : Str) (desktopFile : Bytes) (paths : List Bytes) :
    Option (List DesktopLaunchCommand) :=
  match splitExecLine exec with
  | some (program :: tokens) =>
    let s := tokens.foldl (addToken appName desktopFile paths) ([], false)
    if !s.2 && paths.isEmpty then some [⟨program, s.1⟩] else some [⟨program, s.1⟩]
  | _ => none

inductive Piece where
  | text (ch : Char)
  | appName
  | desktopFile
  | file
  | files
  | nothing
deriving DecidableEq

def Piece.ofCode (code : Char) : Piece :=
  if code = '%' then .text '%'
  else if code = 'c' then .appName
  else if code = 'k' then .desktopFile
  else if code = 'f' ∨ code = 'u' then .file
  else if code = 'F' ∨ code = 'U' then .files
  else .nothing

def pieces : Str → List Piece
  | '%' :: code :: rest => .ofCode code :: pieces rest
  | ['%'] => [.nothing]
  | ch :: rest => .text ch :: pieces rest
  | [] => []

/-- What a piece stands for when some file is opened: a file code for the first one. -/
def Piece.replaced (appName desktopFile : Str) (files : List Str) : Piece → Str
  | .text ch => [ch]
  | .appName => appName
  | .desktopFile => desktopFile
  | .file | .files => files.headD []
  | .nothing => []

variable (token : Str)

def WholeCode : Prop := token = ['%', 'F'] ∨ token = ['%', 'U']

def NoFile : Prop := .file ∉ pieces token ∧ .files ∉ pieces token

inductive Passes (appName desktopFile : Str) (files : List Str) (token : Str) : List Str → Prop where
  | all (h : WholeCode token) : Passes appName desktopFile files token files
  | replaced (h : ¬WholeCode token) (hone : .files ∈ pieces token → files.length = 1)
      (hsome : (pieces token).flatMap (Piece.replaced appName desktopFile files) ≠ []) :
      Passes appName desktopFile files token [(pieces token).flatMap (Piece.replaced appName desktopFile files)]
  | empty (h : ¬WholeCode token) (hno : NoFile token)
      (hnone : (pieces token).flatMap (Piece.replaced appName desktopFile files) = []) :
      Passes appName desktopFile files token []
  | left (h : ¬WholeCode token) (hfiles : .files ∈ pieces token) (hmany : 1 < files.length) :
      Passes appName desktopFile files token []

variable {appName : Str} {desktopFile : Bytes} {files : List Str} {token : Str}

theorem expandFrom_eq (hne : files ≠ []) (out token : Str) :
    expandFrom appName desktopFile (files.map encode) out token = if .files ∈ pieces token ∧ 1 < files.length then none
      else some (out ++ (pieces token).flatMap (Piece.replaced appName (display desktopFile) files)) := by
  obtain ⟨first, others, rfl⟩ := List.exists_cons_of_ne_nil hne
  fun_induction pieces token generalizing out with
  | case1 code rest ih =>
    rw [expandFrom, Piece.ofCode]
    split_ifs <;> simp_all [Piece.replaced, display]
  | case2 => simp [expandFrom, Piece.replaced]
  | case3 ch rest hpair hsingle ih => grind [expandFrom.eq_3, Piece.replaced]
  | case4 => simp [expandFrom]

variable {name : Str}

/-- A token without a file code gives the same whatever the files are. -/
theorem Passes.noFile {others row : List Str} (h : Passes appName name files token row)
    (hnone : NoFile token) : Passes appName name others token row := by
  have hsame : (pieces token).flatMap (Piece.replaced appName name files) =
      (pieces token).flatMap (Piece.replaced appName name others) := by
    refine List.flatMap_congr fun piece hpiece => ?_
    cases piece with
    | file => exact absurd hpiece hnone.1
    | files => exact absurd hpiece hnone.2
    | _ => rfl
  cases h with
  | all h =>
    obtain rfl | rfl := h
    · exact absurd (by decide) hnone.2
    · exact absurd (by decide) hnone.2
  | replaced h hone hsome =>
    rw [hsame] at hsome ⊢
    exact .replaced h (fun hfiles => absurd hfiles hnone.2) hsome
  | empty h hno hempty => exact .empty h hno (hsame ▸ hempty)
  | left h hfiles => exact absurd hfiles hnone.2

theorem noFile_of_replaced_eq_nil (habs : ∃ rest others, files = ('/' :: rest) :: others)
    (h : (pieces token).flatMap (Piece.replaced appName name files) = []) : NoFile token := by
  obtain ⟨rest, others, rfl⟩ := habs
  rw [List.flatMap_eq_nil_iff] at h
  exact ⟨fun hfile => absurd (h _ hfile) (by simp [Piece.replaced]),
    fun hfiles => absurd (h _ hfiles) (by simp [Piece.replaced])⟩

theorem addToken_passes (habs : ∃ rest others, files = ('/' :: rest) :: others) (token : Str) (s : List Str × Bool) :
    ∃ row used, addToken appName desktopFile (files.map encode) s token = (s.1 ++ row, used) ∧
      Passes appName (display desktopFile) files token row := by
  have hne : files ≠ [] := by
    obtain ⟨rest, others, rfl⟩ := habs
    exact List.cons_ne_nil _ _
  rw [addToken, expandExecToken, expandFrom_eq hne]
  by_cases hwhole : token = ['%', 'F'] ∨ token = ['%', 'U']
  · refine ⟨files, true, ?_, .all hwhole⟩
    rw [if_pos hwhole]
    simp [display, Function.comp_def]
  rw [if_neg hwhole]
  by_cases hleft : .files ∈ pieces token ∧ 1 < files.length
  · exact ⟨[], s.2, by simp [if_pos hleft], .left hwhole hleft.1 hleft.2⟩
  rw [if_neg hleft]
  have hone : .files ∈ pieces token → files.length = 1 := by
    have := List.length_pos_of_ne_nil hne
    intro hfiles
    have : ¬1 < files.length := fun hmany => hleft ⟨hfiles, hmany⟩
    omega
  by_cases hnone : (pieces token).flatMap (Piece.replaced appName (display desktopFile) files) = []
  · exact ⟨[], s.2, by simp [hnone, Option.filter], .empty hwhole (noFile_of_replaced_eq_nil habs hnone) hnone⟩
  · exact ⟨_, s.2 || execTokenContainsFileCode token, by simp [hnone, Option.filter], .replaced hwhole hone hnone⟩

theorem foldl_addToken_passes (habs : ∃ rest others, files = ('/' :: rest) :: others) (tokens : List Str)
    (s : List Str × Bool) :
    ∃ rows used, tokens.foldl (addToken appName desktopFile (files.map encode)) s = (s.1 ++ rows.flatten, used) ∧
      List.Forall₂ (fun token row => Passes appName (display desktopFile) files token row) tokens rows := by
  induction tokens generalizing s with
  | nil => exact ⟨[], s.2, by simp, .nil⟩
  | cons token tokens ih =>
    obtain ⟨row, used, heq, hrow⟩ := @addToken_passes appName desktopFile _ habs token s
    obtain ⟨rows, used', heqs, hrows⟩ := ih (s.1 ++ row, used)
    exact ⟨row :: rows, used', by rw [List.foldl_cons, heq, heqs]; simp, .cons hrow hrows⟩

theorem splitExecLine_ne_nil {exec : Str} : splitExecLine exec ≠ some [] := by
  rw [splitExecLine, Splitting.finish]
  split_ifs <;> simp_all

/-- One command is returned.  A token `%F` or `%U` gives every file, byte for byte and in order; in any other token a
file code stands for the first file, inside one argument, and a token with an embedded `%F` or `%U` is left out when
there is more than one file.  The program and the tokens without a file code do not depend on the files. -/
theorem execToLaunchCommands_passes (exec appName : Str) (desktopFile : Bytes)
    (habs : ∃ rest others, files = ('/' :: rest) :: others) :
    splitExecLine exec = none ∧ execToLaunchCommands exec appName desktopFile (files.map encode) = none ∨
    ∃ program tokens rows, splitExecLine exec = some (program :: tokens) ∧
      execToLaunchCommands exec appName desktopFile (files.map encode) = some [⟨program, rows.flatten⟩] ∧
      List.Forall₂ (fun token row => Passes appName (display desktopFile) files token row ∧
        (NoFile token → ∀ others, Passes appName (display desktopFile) others token row)) tokens rows := by
  rw [execToLaunchCommands]
  cases hsplit : splitExecLine exec with
  | none => exact .inl ⟨rfl, rfl⟩
  | some argv =>
    have hne : argv ≠ [] := fun h => splitExecLine_ne_nil (h ▸ hsplit)
    obtain ⟨program, tokens, rfl⟩ := List.exists_cons_of_ne_nil hne
    obtain ⟨rows, used, heq, hrows⟩ := @foldl_addToken_passes appName desktopFile _ habs tokens ([], false)
    refine .inr ⟨program, tokens, rows, rfl, by simp [heq], hrows.imp fun token row h => ?_⟩
    exact ⟨h, fun hnone others => h.noFile hnone⟩

theorem execToLaunchCommands_passes_two :
    ∃ program tokens rows, splitExecLine "ark --add %F".toList = some (program :: tokens) ∧
      execToLaunchCommands "ark --add %F".toList "Ark".toList [] (["/a".toList, "/b c".toList].map encode) =
        some [⟨program, rows.flatten⟩] ∧
      List.Forall₂ (fun token row => Passes "Ark".toList (display []) ["/a".toList, "/b c".toList] token row ∧
        (NoFile token → ∀ others, Passes "Ark".toList (display []) others token row)) tokens rows :=
  (execToLaunchCommands_passes "ark --add %F".toList "Ark".toList [] ⟨['a'], ["/b c".toList], rfl⟩).resolve_left
    fun h => absurd h.1 (by decide)

/-- `viewer %f` opens the first of two files only. -/
theorem second_file_dropped : execTokenContainsFileCode "viewer %f".toList = true ∧
    execToLaunchCommands "viewer %f".toList "Viewer".toList [] (["/a".toList, "/b".toList].map encode) =
      some [⟨"viewer".toList, ["/a".toList]⟩] := by
  decide

end TensorDE.Files.Launcher
