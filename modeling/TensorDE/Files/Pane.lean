import TensorDE.Files.Lister
import TensorDE.Files.Selection

set_option linter.dupNamespace false

namespace TensorDE.Files

open Maps

def SortRole.defaultOrder : SortRole → SortOrder
  | .name => .ascending
  | .trashOriginalPath => .ascending
  | .modified => .descending
  | .size => .descending
  | .trashDeletionTime => .descending

inductive SelectionMove where
  | previous
  | next
deriving DecidableEq

namespace Panes

/-- A pane with what the user sees of it: the selection, the history and the sort orders it remembers. -/
structure PaneState extends Files.PaneState where
  selection : SelectionState
  historyBack : List Path
  historyForward : List Path
  sortOrderByRole : Map SortRole SortOrder

namespace PaneState

variable (places : Places)

def new (id : PaneId) (currentDir : Path) : PaneState where
  toPaneState := .new places id currentDir
  selection := .default
  historyBack := []
  historyForward := []
  sortOrderByRole := .empty

variable (p : PaneState)

def preferredSortOrder (role : SortRole) : SortOrder :=
  (p.sortOrderByRole.find role).getD role.defaultOrder

def rememberSortOrder (sort : SortDescriptor) : PaneState :=
  { p with sortOrderByRole := p.sortOrderByRole.insert sort.role sort.order }

section Navigation

variable (p : PaneState)

/-- The pane shows another directory, with nothing selected. -/
def turnTo (path : Path) : PaneState := { p with currentDir := path, selection := p.selection.clear }

def setTarget (p : PaneState) (path : Path) (generation : Generation) : PaneState :=
  { p with
    generation
    lister := p.lister.setTarget p.id path generation }

def navigateTo (path : Path) (generation : Generation) : PaneState :=
  if p.currentDir = path then p.setTarget path generation
  else
    { p.turnTo path with
      historyBack := p.historyBack ++ [p.currentDir]
      historyForward := [] }.setTarget path generation

def popBack (generation : Generation) : Option PaneState :=
  p.historyBack.getLast?.map fun previous =>
    { p.turnTo previous with
      historyBack := p.historyBack.dropLast
      historyForward := p.historyForward ++ [p.currentDir] }.setTarget previous generation

def popForward (generation : Generation) : Option PaneState :=
  p.historyForward.getLast?.map fun next =>
    { p.turnTo next with
      historyForward := p.historyForward.dropLast
      historyBack := p.historyBack ++ [p.currentDir] }.setTarget next generation

def loadDirectory (p : PaneState) (mode : LoadMode) : ListerEvent × PaneState :=
  ((p.lister.loadDirectory mode).1, { p with lister := (p.lister.loadDirectory mode).2 })

end Navigation

section Lookup

def indexOfId (p : PaneState) (id : ItemId) : Option Nat × PaneState :=
  ((p.model.indexOfId id).1, { p with model := (p.model.indexOfId id).2 })

variable (p : PaneState)

def indexOf (id : Option ItemId) : Option Nat × PaneState :=
  match id with
  | none => (none, p)
  | some id => p.indexOfId id

/-- The id of the entry that a path leads to. An index outside of the entries panics. -/
def idOfPath (path : Path) : Option (Option ItemId × PaneState) :=
  match p.model.indexOfPath places path with
  | (none, m) => some (none, { p with model := m })
  | (some index, m) => m.entries[index]?.map fun entry => (some entry.id, { p with model := m })

def pathForIndex (index : Nat) : Option Path := p.model.entries[index]?.map p.model.pathForEntry

def pathForSelectionId (id : ItemId) : Option Path × PaneState :=
  ((p.indexOfId id).1.bind (p.indexOfId id).2.pathForIndex, (p.indexOfId id).2)

def pathsForSelectionIds (p : PaneState) : List ItemId → List Path × PaneState
  | [] => ([], p)
  | id :: ids =>
    ((p.pathForSelectionId id).1.toList ++ ((p.pathForSelectionId id).2.pathsForSelectionIds ids).1,
      ((p.pathForSelectionId id).2.pathsForSelectionIds ids).2)

def selectedPathsFromModel : List Path × PaneState :=
  if p.selection.allSelected then
    (((List.range p.model.entries.length).filter fun index =>
      p.model.entries[index]?.any fun entry => !p.selection.isExcluded entry.id).filterMap p.pathForIndex, p)
  else p.pathsForSelectionIds p.selection.selectedIds

def pathOf (id : Option ItemId) : Option Path × PaneState :=
  match id with
  | none => (none, p)
  | some id => p.pathForSelectionId id

def selectedCount : Nat := p.selection.countForModel p.model.entries.length

def isSelected (p : PaneState) (path : Path) : Option (Bool × PaneState) :=
  (p.idOfPath places path).map fun r => (r.1.any r.2.selection.isSelected, r.2)

end Lookup

section Select

def selectOnly (p : PaneState) (path : Path) : Option (Bool × PaneState) :=
  (p.idOfPath places path).map fun r =>
    match r.1 with
    | none => (false, r.2)
    | some id =>
      if r.2.selection.isOnlySelected id then (false, r.2)
      else (true, { r.2 with selection := r.2.selection.selectOnly id })

variable (p : PaneState)

def toggleSelection (path : Path) : Option (Option Bool × PaneState) :=
  (p.idOfPath places path).map fun r =>
    match r.1 with
    | none => (none, r.2)
    | some id => (some (r.2.selection.toggle id).1, { r.2 with selection := (r.2.selection.toggle id).2 })

/-- `entries[first..=last]`; an end outside of the entries panics. -/
def entriesBetween (entries : List ModelEntry) (first last : Nat) : Option (List ModelEntry) :=
  if first ≤ last + 1 ∧ last < entries.length then some ((entries.drop first).take (last + 1 - first)) else none

/-- The anchor of the selection if it is an entry of the model, or another id. -/
def anchorOr (target : ItemId) : ItemId × PaneState :=
  match p.selection.anchorId with
  | none => (target, p)
  | some id => (if (p.indexOfId id).1.isSome then id else target, (p.indexOfId id).2)

def selectRange (targetIndex : Nat) (targetId : ItemId) : Option (Nat × PaneState) :=
  match p.anchorOr targetId with
  | (anchorId, p) =>
    match p.indexOfId anchorId with
    | (anchorIndex, p) =>
      (entriesBetween p.model.entries (min (anchorIndex.getD targetIndex) targetIndex)
        (max (anchorIndex.getD targetIndex) targetIndex)).map fun entries =>
          (entries.length,
            { p with selection := p.selection.replaceRangeWithActive anchorId targetId (entries.map (·.id)) })

def selectRangeTo (path : Path) : Option (Option Nat × PaneState) :=
  match p.model.indexOfPath places path with
  | (none, m) => some (none, { p with model := m })
  | (some targetIndex, m) =>
    m.entries[targetIndex]?.bind fun entry =>
      (({ p with model := m } : PaneState).selectRange targetIndex entry.id).map fun r => (some r.1, r.2)

/-- The index to start from: that of the active entry, or else of the last one selected. -/
def currentIndex : Option Nat × PaneState :=
  match p.indexOf p.selection.activeId with
  | (some index, p) => (some index, p)
  | (none, p) => p.indexOf p.selection.selectedIds.getLast?

def moveTarget (current : Option Nat) (direction : SelectionMove) (len : Nat) : Nat :=
  match current, direction with
  | some index, .previous => index - 1
  | some index, .next => min (index + 1) (len - 1)
  | none, .previous => len - 1
  | none, .next => 0

def moveSelection (direction : SelectionMove) (extend : Bool) : Option (Option Nat × PaneState) :=
  if p.model.entries = [] then some (none, p)
  else
    match p.currentIndex with
    | (current, p) =>
      p.model.entries[moveTarget current direction p.model.entries.length]?.bind fun entry =>
        if extend then
          (p.selectRange (moveTarget current direction p.model.entries.length) entry.id).map fun r => (some r.1, r.2)
        else some (some 1, { p with selection := p.selection.selectOnly entry.id })

def selectAll (p : PaneState) : Nat × PaneState :=
  (p.model.entries.length, { p with selection := p.selection.selectAll (p.model.entries.head?.map (·.id)) })

def replaceSelectionByIndexes (indexes : List Nat) : Nat × PaneState :=
  ((indexes.filterMap fun index => p.model.entries[index]?.map (·.id)).length,
    { p with selection := p.selection.replace (indexes.filterMap fun index => p.model.entries[index]?.map (·.id)) })

def clearSelection : PaneState := { p with selection := p.selection.clear }

end Select

section Update

/-- `index_of_id(id).is_some()`. -/
def hasId (m : DirectoryModel) (id : ItemId) : Bool × DirectoryModel :=
  ((m.indexOfId id).1.isSome, (m.indexOfId id).2)

variable (p : PaneState)

def retainExisting : PaneState :=
  { p with
    selection := (p.selection.retainExistingBy hasId p.model (p.model.entries.head?.map (·.id))).1
    model := (p.selection.retainExistingBy hasId p.model (p.model.entries.head?.map (·.id))).2 }

def settle (signals : List DirectoryModelSignal) : PaneState :=
  if signals = [] then p else p.retainExisting

def applyPaneSort (sort : SortDescriptor) : List DirectoryModelSignal × PaneState :=
  ((p.model.setSort sort).1, ({ p with model := (p.model.setSort sort).2 } : PaneState).settle (p.model.setSort sort).1)

def setSort (sort : SortDescriptor) : List DirectoryModelSignal × PaneState :=
  (p.rememberSortOrder sort).applyPaneSort sort

def setSortRole (role : SortRole) : List DirectoryModelSignal × PaneState :=
  p.setSort { p.model.sort with role, order := p.preferredSortOrder role }

def setSortOrder (order : SortOrder) : List DirectoryModelSignal × PaneState :=
  p.setSort { p.model.sort with order }

def setSortFoldersFirst (foldersFirst : Bool) : List DirectoryModelSignal × PaneState :=
  p.setSort { p.model.sort with foldersFirst }

def setSortHiddenLast (hiddenLast : Bool) : List DirectoryModelSignal × PaneState :=
  p.setSort { p.model.sort with hiddenLast }

def applyEvent (event : ListerEvent) : Option (Option (List DirectoryModelSignal) × PaneState) :=
  if event.matchesTarget p.id p.generation p.currentDir then
    (p.lister.applyEventToModel places event p.model).map fun applied =>
      (some applied.1, ({ p with lister := applied.2.1, model := applied.2.2 } : PaneState).settle applied.1)
  else some (none, p)

end Update

end PaneState

structure PaneController where
  allocated : Nat
  generationCounter : Generation
  panes : Map PaneId PaneState
  order : List PaneId
  focused : Option PaneId

namespace PaneController

variable (places : Places)

def new (startDir : Path) : PaneController where
  allocated := 1
  generationCounter := 0
  panes := Map.empty.insert 1 (.new places 1 startDir)
  order := [1]
  focused := some 1

variable (c : PaneController)

def focus (paneId : PaneId) : Bool × PaneController :=
  if (c.panes.find paneId).isSome then (true, { c with focused := some paneId }) else (false, c)

/-- `fork_for_pane`: the same entries, with indexes of its own. -/
def forkForPane (m : DirectoryModel) : DirectoryModel := { m with pathIndex := .new, idIndex := .new }

/-- The pane beside `source` that shows the same. -/
def splitOf (places : Places) (id : PaneId) (source : PaneState) : PaneState :=
  { PaneState.new places id source.currentDir with
    generation := source.generation
    lister := (PaneState.new places id source.currentDir).lister.setTarget id source.currentDir source.generation
    model := forkForPane source.model
    sortOrderByRole := source.sortOrderByRole }

def split (source : PaneId) : Option PaneId × PaneController :=
  match c.panes.find source with
  | none => (none, c)
  | some pane =>
    (some (c.allocated + 1), { c with
      allocated := c.allocated + 1
      panes := c.panes.insert (c.allocated + 1) (splitOf places (c.allocated + 1) pane)
      order := c.order.insertIdx ((c.order.idxOf? source).elim c.order.length (· + 1)) (c.allocated + 1)
      focused := some (c.allocated + 1) })

def close (paneId : PaneId) : Bool × PaneController :=
  if c.order.length ≤ 1 ∨ c.panes.find paneId = none then (false, c)
  else
    (true, { c with
      panes := c.panes.erase paneId
      order := c.order.filter (· ≠ paneId)
      focused := if c.focused = some paneId then (c.order.filter (· ≠ paneId)).head? else c.focused })

def onPane {R : Type} (paneId : PaneId) (act : PaneState → Option (R × PaneState)) :
    Option (Option R × PaneController) :=
  match c.panes.find paneId with
  | none => some (none, c)
  | some pane => (act pane).map fun r => (some r.1, { c with panes := c.panes.insert paneId r.2 })

def advance : PaneController := { c with generationCounter := c.generationCounter + 1 }

def load (c : PaneController) (paneId : PaneId) (path : Path) : Option (Option ListerEvent × PaneController) :=
  c.advance.onPane paneId fun p => some ((p.navigateTo path c.advance.generationCounter).loadDirectory .load)

def reload (c : PaneController) (paneId : PaneId) : Option (Option ListerEvent × PaneController) :=
  c.onPane paneId fun p => some (p.loadDirectory .reload)

/-- A step through the history, which may have come to its end. -/
def travel (paneId : PaneId) (pop : PaneState → Generation → Option PaneState) :
    Option (Option (Option ListerEvent) × PaneController) :=
  c.advance.onPane paneId fun p =>
    match pop p c.advance.generationCounter with
    | none => some (none, p)
    | some p => some (some (p.loadDirectory .load).1, (p.loadDirectory .load).2)

def goBack (paneId : PaneId) : Option (Option (Option ListerEvent) × PaneController) :=
  c.travel paneId PaneState.popBack

def goForward (paneId : PaneId) : Option (Option (Option ListerEvent) × PaneController) :=
  c.travel paneId PaneState.popForward

def reloadEach (c : PaneController) : List PaneId → Option (List ListerEvent × PaneController)
  | [] => some ([], c)
  | paneId :: paneIds => do
    let (event, c) ← c.reload paneId
    let (events, c) ← c.reloadEach paneIds
    some (event.toList ++ events, c)

def reloadPanesShowing (path : Path) : Option (List ListerEvent × PaneController) :=
  c.reloadEach (c.order.filter fun paneId => (c.panes.find paneId).any fun pane => pane.currentDir = path)

def selectedPaths (paneId : PaneId) : Option (Option (List Path) × PaneController) :=
  c.onPane paneId fun p => some p.selectedPathsFromModel

def selectionAnchorPath (paneId : PaneId) : Option (Option (Option Path) × PaneController) :=
  c.onPane paneId fun p => some (p.pathOf p.selection.anchorId)

def selectionActivePath (paneId : PaneId) : Option (Option (Option Path) × PaneController) :=
  c.onPane paneId fun p => some (p.pathOf p.selection.activeId)

def selectedCount (c : PaneController) (paneId : PaneId) : Option Nat :=
  (c.panes.find paneId).map PaneState.selectedCount

def isSelected (c : PaneController) (paneId : PaneId) (path : Path) : Option (Option Bool × PaneController) :=
  c.onPane paneId fun p => p.isSelected places path

/-- The operations on the selection, the order and the directory of a pane, the events of listers, and the reads that
look something up. -/
inductive Operation where
  | focus (paneId : PaneId)
  | split (source : PaneId)
  | close (paneId : PaneId)
  | load (paneId : PaneId) (path : Path)
  | reload (paneId : PaneId)
  | goBack (paneId : PaneId)
  | goForward (paneId : PaneId)
  | reloadPanesShowing (path : Path)
  | selectedPaths (paneId : PaneId)
  | selectionAnchorPath (paneId : PaneId)
  | selectionActivePath (paneId : PaneId)
  | isSelected (paneId : PaneId) (path : Path)
  | selectOnly (paneId : PaneId) (path : Path)
  | toggleSelection (paneId : PaneId) (path : Path)
  | selectRangeTo (paneId : PaneId) (path : Path)
  | moveSelection (paneId : PaneId) (direction : SelectionMove) (extend : Bool)
  | selectAll (paneId : PaneId)
  | replaceSelectionByIndexes (paneId : PaneId) (indexes : List Nat)
  | clearSelection (paneId : PaneId)
  | setSort (paneId : PaneId) (sort : SortDescriptor)
  | setSortRole (paneId : PaneId) (role : SortRole)
  | setSortOrder (paneId : PaneId) (order : SortOrder)
  | setSortFoldersFirst (paneId : PaneId) (foldersFirst : Bool)
  | setSortHiddenLast (paneId : PaneId) (hiddenLast : Bool)
  | applyListerEvent (event : ListerEvent)

/-- What an operation makes of the panes; `none` is a panic. -/
def step : Operation → Option PaneController
  | .focus paneId => some (c.focus paneId).2
  | .split source => some (c.split places source).2
  | .close paneId => some (c.close paneId).2
  | .load paneId path => (c.load paneId path).map Prod.snd
  | .reload paneId => (c.reload paneId).map Prod.snd
  | .goBack paneId => (c.goBack paneId).map Prod.snd
  | .goForward paneId => (c.goForward paneId).map Prod.snd
  | .reloadPanesShowing path => (c.reloadPanesShowing path).map Prod.snd
  | .selectedPaths paneId => (c.selectedPaths paneId).map Prod.snd
  | .selectionAnchorPath paneId => (c.selectionAnchorPath paneId).map Prod.snd
  | .selectionActivePath paneId => (c.selectionActivePath paneId).map Prod.snd
  | .isSelected paneId path => (c.isSelected places paneId path).map Prod.snd
  | .selectOnly paneId path => (c.onPane paneId fun p => p.selectOnly places path).map Prod.snd
  | .toggleSelection paneId path => (c.onPane paneId fun p => p.toggleSelection places path).map Prod.snd
  | .selectRangeTo paneId path => (c.onPane paneId fun p => p.selectRangeTo places path).map Prod.snd
  | .moveSelection paneId direction extend => (c.onPane paneId fun p => p.moveSelection direction extend).map Prod.snd
  | .selectAll paneId => (c.onPane paneId fun p => some p.selectAll).map Prod.snd
  | .replaceSelectionByIndexes paneId indexes =>
    (c.onPane paneId fun p => some (p.replaceSelectionByIndexes indexes)).map Prod.snd
  | .clearSelection paneId => (c.onPane paneId fun p => some (true, p.clearSelection)).map Prod.snd
  | .setSort paneId sort => (c.onPane paneId fun p => some (p.setSort sort)).map Prod.snd
  | .setSortRole paneId role => (c.onPane paneId fun p => some (p.setSortRole role)).map Prod.snd
  | .setSortOrder paneId order => (c.onPane paneId fun p => some (p.setSortOrder order)).map Prod.snd
  | .setSortFoldersFirst paneId foldersFirst =>
    (c.onPane paneId fun p => some (p.setSortFoldersFirst foldersFirst)).map Prod.snd
  | .setSortHiddenLast paneId hiddenLast => (c.onPane paneId fun p => some (p.setSortHiddenLast hiddenLast)).map Prod.snd
  | .applyListerEvent event => (c.onPane event.paneId fun p => p.applyEvent places event).map Prod.snd

end PaneController

end Panes

end TensorDE.Files
